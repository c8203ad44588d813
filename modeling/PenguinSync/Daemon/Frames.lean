import PenguinSync.Daemon.Moves
import PenguinSync.Daemon.Main

/-!
# What a step leaves alone

Each group of steps is a record update of the fields it may touch and emits
observations of its own kinds only.
-/

namespace PenguinSync

open Lts

/-- A connection as everyone but the loops that send clips sees it. -/
def Connection.core (c : Connection) : Connection := { c with session := { c.session with commands := [] } }

namespace Daemon

inductive Task where
  | net
  | clipboard
  | bus
  | orchestrator
  deriving DecidableEq

def Act.task : Act → Task
  | .advance _ | .accept .. | .connection .. | .drain _ => .net
  | .probe | .copy _ | .notify | .watch .. | .watchEnds => .clipboard
  | .startPairing _ | .openWindow _ | .setToken .. | .confirmPairing .. | .unpair _ | .unpairStep .. | .restore => .bus
  | .orchestrate .. => .orchestrator

def cores (s : Daemon) : List Connection := s.connections.map Connection.core

theorem sendClipboard_core (c : Connection) (clip : Clip) :
    Connection.core { c with session := c.session.sendClipboard clip } = c.core := by
  unfold Connection.core Session.sendClipboard
  split <;> rfl

theorem sendClipboard_cores (s : Daemon) (i : Nat) (clip : Clip) : (s.sendClipboard i clip).cores = s.cores := by
  refine List.ext_getElem? fun j => ?_
  simp only [cores, sendClipboard, List.getElem?_map, List.getElem?_modify]
  cases hj : s.connections[j]? with
  | none => rfl
  | some c =>
    by_cases h : i = j
    · simp [h, sendClipboard_core]
    · simp [h]

section
variable {cfg : Config} {s s' : Daemon} {a : Act} {os : List Obs}

theorem net_frame (h : step cfg s a = some (s', os)) (ha : a.task = .net) :
    (∃ now connections queue, s' = { s with now, connections, queue }) ∧ ∀ o ∈ os, ∃ i x, o = .out i x := by
  cases a with
  | advance dt =>
    cases h
    exact ⟨⟨_, _, _, rfl⟩, by simp⟩
  | accept remote spki =>
    simp only [step, accept, Option.ite_none_right_eq_some, Option.some.injEq, Prod.mk.injEq] at h
    obtain ⟨-, rfl, rfl⟩ := h
    exact ⟨⟨_, _, _, rfl⟩, by simp⟩
  | connection i a =>
    simp only [step, connectionStep] at h
    split at h
    · cases h
    · split at h
      · cases h
      · cases h
        exact ⟨⟨_, _, _, rfl⟩, by simp⟩
  | drain i =>
    simp only [step, drain] at h
    split at h
    · cases h
    · split at h
      · cases h
      · cases h
        exact ⟨⟨_, _, _, rfl⟩, by simp⟩
  | _ => cases ha

def Obs.local : Obs → Bool
  | .checked .watch _ | .handed .watch .. | .copied _ => true
  | _ => false

theorem watchStep_frame {ok : Bool} {target : DeviceId} (h : s.watchStep cfg ok target = some (s', os)) :
    (∃ connections lastHash changes watch, s' = { s with connections, lastHash, changes, watch }) ∧
      s'.cores = s.cores ∧ ∀ o ∈ os, Obs.local o = true := by
  unfold watchStep at h
  split at h
  · cases h
  · split at h
    · cases h
    · split at h <;> (cases h; exact ⟨⟨_, _, _, _, rfl⟩, rfl, by simp⟩)
  · split at h
    · split at h <;> (cases h; exact ⟨⟨_, _, _, _, rfl⟩, rfl, by simp⟩)
    · cases h; exact ⟨⟨_, _, _, _, rfl⟩, rfl, by simp⟩
  · split at h <;> (cases h; exact ⟨⟨_, _, _, _, rfl⟩, rfl, by simp [Obs.local]⟩)
  · cases h; exact ⟨⟨_, _, _, _, rfl⟩, rfl, by simp⟩
  · split at h
    · cases h; exact ⟨⟨_, _, _, _, rfl⟩, rfl, by simp⟩
    · split at h
      · cases h
      · cases h; exact ⟨⟨_, _, _, _, rfl⟩, sendClipboard_cores _ _ _, by simp [Obs.local]⟩

theorem clipboard_frame (h : step cfg s a = some (s', os)) (ha : a.task = .clipboard) :
    (∃ connections backend lastHash clipboard changes watch,
      s' = { s with connections, backend, lastHash, clipboard, changes, watch }) ∧ s'.cores = s.cores ∧
      ∀ o ∈ os, Obs.local o = true := by
  cases a with
  | probe =>
    simp only [step, probe, Option.ite_none_left_eq_some, Option.some.injEq, Prod.mk.injEq] at h
    obtain ⟨-, rfl, rfl⟩ := h
    exact ⟨⟨_, _, _, _, _, _, rfl⟩, rfl, by simp⟩
  | copy c =>
    cases h
    exact ⟨⟨_, _, _, _, _, _, rfl⟩, rfl, by simp [Obs.local]⟩
  | notify =>
    cases h
    exact ⟨⟨_, _, _, _, _, _, rfl⟩, rfl, by simp⟩
  | watch ok target =>
    obtain ⟨⟨_, _, _, _, rfl⟩, hc, ho⟩ := watchStep_frame h
    exact ⟨⟨_, _, _, _, _, _, rfl⟩, hc, ho⟩
  | watchEnds =>
    simp only [step, watchEnds] at h
    split at h
    · cases h
      exact ⟨⟨_, _, _, _, _, _, rfl⟩, rfl, by simp⟩
    · cases h
  | _ => cases ha

def Obs.receiving : Obs → Bool
  | .accepted .. | .checked .received _ | .applied .. | .handed .received .. => true
  | _ => false

theorem receivedStep_frame {r : Received} {pc : ReceivedPc} {ok : Bool} {target : DeviceId}
    (h : s.receivedStep r ok target pc = some (s', os)) :
    (∃ connections lastHash clipboard changes orchestrator,
      s' = { s with connections, lastHash, clipboard, changes, orchestrator } ∧
        (orchestrator = .idle ∨ ∃ pc', orchestrator = .received r pc')) ∧ s'.cores = s.cores ∧
      ∀ o ∈ os, Obs.receiving o = true := by
  cases pc with
  | isPaired =>
    simp only [receivedStep] at h
    split at h
    · cases h; exact ⟨⟨_, _, _, _, _, rfl, Or.inr ⟨_, rfl⟩⟩, rfl, by simp [Obs.receiving]⟩
    · cases h; exact ⟨⟨_, _, _, _, _, rfl, Or.inl rfl⟩, rfl, by simp⟩
  | shouldBroadcast =>
    simp only [receivedStep] at h
    split at h
    · cases h; exact ⟨⟨_, _, _, _, _, rfl, Or.inr ⟨_, rfl⟩⟩, rfl, by simp [Obs.receiving]⟩
    · cases h; exact ⟨⟨_, _, _, _, _, rfl, Or.inl rfl⟩, rfl, by simp [Obs.receiving]⟩
  | write =>
    simp only [receivedStep] at h
    split at h
    · cases h; exact ⟨⟨_, _, _, _, _, rfl, Or.inr ⟨_, rfl⟩⟩, rfl, by simp [Obs.receiving]⟩
    · cases h; exact ⟨⟨_, _, _, _, _, rfl, Or.inr ⟨_, rfl⟩⟩, rfl, by simp⟩
  | handles =>
    cases h
    exact ⟨⟨_, _, _, _, _, rfl, Or.inr ⟨_, rfl⟩⟩, rfl, by simp⟩
  | relay rest =>
    simp only [receivedStep] at h
    split at h
    · cases h; exact ⟨⟨_, _, _, _, _, rfl, Or.inl rfl⟩, rfl, by simp⟩
    · split at h
      · cases h
      · cases h; exact ⟨⟨_, _, _, _, _, rfl, Or.inr ⟨_, rfl⟩⟩, sendClipboard_cores _ _ _, by simp [Obs.receiving]⟩

theorem persistState_eq (s : Daemon) (ok : Bool) :
    s.persistState ok = { s with file := if ok then some s.state else s.file } := by
  cases ok <;> rfl

/-- The loop at start-up turns to the next entry, which is skipped where it does not
read as an id or its object is there. -/
inductive RestoreMove (s : Daemon) : Daemon → Prop
  | skips (e : PersistedDevice) (rest : List PersistedDevice) : s.restoring = e :: rest →
      (∀ id, fromHex e.deviceId = some id → s.objects.lookup id ≠ none) → RestoreMove s { s with restoring := rest }
  | exports (e : PersistedDevice) (rest : List PersistedDevice) (id : DeviceId) : s.restoring = e :: rest →
      fromHex e.deviceId = some id → s.objects.lookup id = none →
      RestoreMove s { s with objects := s.objects.insert id ⟨e.name, e.deviceId, false⟩, restoring := rest }

theorem restore_move (h : s.restore = some (s', os)) : RestoreMove s s' ∧ os = [] := by
  unfold restore at h
  split at h
  · cases h
  · rename_i e rest hr
    split at h
    · rename_i hid
      cases h
      exact ⟨.skips e rest hr (fun id he => by rw [hid] at he; cases he), rfl⟩
    · rename_i id hid
      cases h
      refine ⟨?_, rfl⟩
      by_cases hx : (s.objects.lookup id).isSome = true
      · rw [if_pos hx]
        refine .skips e rest hr fun id' he => ?_
        obtain rfl := Option.some.inj (hid.symm.trans he)
        exact Option.isSome_iff_ne_none.mp hx
      · rw [if_neg hx]
        exact .exports e rest id hr hid (Option.not_isSome_iff_eq_none.mp hx)

theorem restore_frame (h : s.restore = some (s', os)) :
    (∃ objects restoring, s' = { s with objects, restoring }) ∧ os = [] := by
  obtain ⟨hm, ho⟩ := restore_move h
  refine ⟨?_, ho⟩
  cases hm <;> exact ⟨_, _, rfl⟩

def Obs.bus : Obs → Bool
  | .startedPairing .. | .tokenSet .. | .invalidArgs _ | .confirmed .. | .unpairCalled .. | .unpinned .. | .removed ..
  | .saved .. | .unpaired .. => true
  | _ => false

theorem bus_frame (h : step cfg s a = some (s', os)) (ha : a.task = .bus) :
    (∃ trust state file currentToken pendingConfirmations objects orchestrator startPairings unpairs nextCall restoring,
      s' = { s with
        trust, state, file, currentToken, pendingConfirmations, objects, orchestrator, startPairings, unpairs
        nextCall, restoring } ∧
      (orchestrator = s.orchestrator ∨ ∃ channel accept, orchestrator = answer channel accept s.orchestrator) ∧
      (objects = s.objects ∨ (∃ id, objects = s.objects.erase id) ∨
        ∃ id o, s.Awaits id ∧ s.objects.lookup id = none ∧ o.connected = false ∧
          objects = s.objects.insert id o)) ∧
      ∀ o ∈ os, Obs.bus o = true := by
  cases a with
  | startPairing random =>
    cases h
    exact ⟨⟨_, _, _, _, _, _, _, _, _, _, _, rfl, Or.inl rfl, Or.inl rfl⟩, by simp⟩
  | openWindow k =>
    simp only [step, openWindow] at h
    split at h
    · cases h
      exact ⟨⟨_, _, _, _, _, _, _, _, _, _, _, rfl, Or.inl rfl, Or.inl rfl⟩, by simp⟩
    · cases h
  | setToken k addrs =>
    simp only [step, setToken] at h
    split at h
    · cases h
      exact ⟨⟨_, _, _, _, _, _, _, _, _, _, _, rfl, Or.inl rfl, Or.inl rfl⟩, by simp [Obs.bus]⟩
    · cases h
  | confirmPairing deviceId accept =>
    simp only [step, confirmPairing] at h
    split at h
    · cases h
      exact ⟨⟨_, _, _, _, _, _, _, _, _, _, _, rfl, Or.inl rfl, Or.inl rfl⟩, by simp [Obs.bus]⟩
    · split at h
      · cases h
        exact ⟨⟨_, _, _, _, _, _, _, _, _, _, _, rfl, Or.inl rfl, Or.inl rfl⟩, by simp [Obs.bus]⟩
      · cases h
        exact ⟨⟨_, _, _, _, _, _, _, _, _, _, _, rfl, Or.inr ⟨_, _, rfl⟩, Or.inl rfl⟩, by simp [Obs.bus]⟩
  | unpair deviceId =>
    simp only [step, unpair] at h
    split at h
    · cases h
      exact ⟨⟨_, _, _, _, _, _, _, _, _, _, _, rfl, Or.inl rfl, Or.inl rfl⟩, by simp [Obs.bus]⟩
    · cases h
      exact ⟨⟨_, _, _, _, _, _, _, _, _, _, _, rfl, Or.inl rfl, Or.inl rfl⟩, by simp [Obs.bus]⟩
  | unpairStep k ok =>
    simp only [step, unpairStep, persistState_eq] at h
    split at h
    · cases h
    iterate 3
      · cases h
        exact ⟨⟨_, _, _, _, _, _, _, _, _, _, _, rfl, Or.inl rfl, Or.inl rfl⟩, by simp [Obs.bus]⟩
    · cases h
      exact ⟨⟨_, _, _, _, _, _, _, _, _, _, _, rfl, Or.inl rfl, Or.inr (Or.inl ⟨_, rfl⟩)⟩, by simp [Obs.bus]⟩
  | restore =>
    obtain ⟨hm, rfl⟩ := restore_move h
    cases hm with
    | skips => exact ⟨⟨_, _, _, _, _, _, _, _, _, _, _, rfl, Or.inl rfl, Or.inl rfl⟩, by simp⟩
    | exports e rest id hr he hx =>
      have hw : s.Awaits id := ⟨e, by rw [hr]; exact List.mem_cons_self, he⟩
      exact ⟨⟨_, _, _, _, _, _, _, _, _, _, _, rfl, Or.inl rfl, Or.inr (Or.inr ⟨id, _, hw, hx, rfl, rfl⟩)⟩, by simp⟩
  | _ => cases ha

def Obs.handshaking : Obs → Bool
  | .redeemed .. | .pairingRequested .. | .pinned _ | .promoted .. => true
  | _ => false

theorem handshakeStep_frame {h : Handling} {pc : HandshakePc} {ok : Bool}
    (hs : s.handshakeStep h ok pc = some (s', os)) :
    (∃ trust state file currentToken pendingConfirmations nextChannel connectedDevices objects orchestrator,
      s' = { s with
        trust, state, file, currentToken, pendingConfirmations, nextChannel, connectedDevices, objects
        orchestrator } ∧
      (orchestrator = .idle ∨ ∃ pc', orchestrator = .handshake h pc')) ∧ ∀ o ∈ os, Obs.handshaking o = true := by
  cases pc with
  | isPaired =>
    simp only [handshakeStep] at hs
    split at hs
    · cases hs
      exact ⟨⟨_, _, _, _, _, _, _, _, _, rfl, Or.inr ⟨_, rfl⟩⟩, by simp⟩
    · split at hs
      · cases hs
        exact ⟨⟨_, _, _, _, _, _, _, _, _, rfl, Or.inl rfl⟩, by simp⟩
      · cases hs
        exact ⟨⟨_, _, _, _, _, _, _, _, _, rfl, Or.inr ⟨_, rfl⟩⟩, by simp⟩
  | redeem presented =>
    simp only [handshakeStep] at hs
    split at hs
    · cases hs
      exact ⟨⟨_, _, _, _, _, _, _, _, _, rfl, Or.inl rfl⟩, by simp⟩
    · split at hs
      · cases hs
        exact ⟨⟨_, _, _, _, _, _, _, _, _, rfl, Or.inr ⟨_, rfl⟩⟩, by simp [Obs.handshaking]⟩
      · cases hs
        exact ⟨⟨_, _, _, _, _, _, _, _, _, rfl, Or.inl rfl⟩, by simp⟩
  | awaiting ch deadline ans =>
    cases ans with
    | none =>
      simp only [handshakeStep, Option.ite_none_right_eq_some] at hs
      obtain ⟨-, hs⟩ := hs
      cases hs
      exact ⟨⟨_, _, _, _, _, _, _, _, _, rfl, Or.inl rfl⟩, by simp⟩
    | some accept =>
      cases accept with
      | false =>
        cases hs
        exact ⟨⟨_, _, _, _, _, _, _, _, _, rfl, Or.inl rfl⟩, by simp⟩
      | true =>
        cases hs
        exact ⟨⟨_, _, _, _, _, _, _, _, _, rfl, Or.inr ⟨_, rfl⟩⟩, by simp⟩
  | persist =>
    simp only [handshakeStep, persistState_eq] at hs
    cases hs
    exact ⟨⟨_, _, _, _, _, _, _, _, _, rfl, Or.inr ⟨_, rfl⟩⟩, by simp⟩
  | promote =>
    simp only [handshakeStep] at hs
    split at hs
    · cases hs
      exact ⟨⟨_, _, _, _, _, _, _, _, _, rfl, Or.inl rfl⟩, by simp [Obs.handshaking]⟩
    · cases hs
      exact ⟨⟨_, _, _, _, _, _, _, _, _, rfl, Or.inl rfl⟩, by simp⟩
  | _ =>
    cases hs
    exact ⟨⟨_, _, _, _, _, _, _, _, _, rfl, Or.inr ⟨_, rfl⟩⟩, by simp [Obs.handshaking]⟩

end

def Obs.taking : Obs → Bool
  | .recorded .. | .closed _ => true
  | _ => false

theorem dispatch_frame {s s' : Daemon} {os : List Obs} {i : Nat} {e : ListenerEvent}
    (h : s.dispatch i e = (s', os)) :
    (∃ remoteToDevice remoteHandles orchestrator, s' = { s with remoteToDevice, remoteHandles, orchestrator }) ∧
      ∀ o ∈ os, Obs.taking o = true := by
  cases e with
  | connected remote handle =>
    cases h
    exact ⟨⟨_, _, _, rfl⟩, by simp⟩
  | session remote ev =>
    cases ev with
    | peerHandshake deviceId name caps token =>
      cases h
      exact ⟨⟨_, _, _, rfl⟩, by simp [Obs.taking]⟩
    | ponged rtt =>
      cases h
      exact ⟨⟨_, _, _, rfl⟩, by simp⟩
    | clipboardReceived clip =>
      simp only [dispatch] at h
      split at h <;> (cases h; exact ⟨⟨_, _, _, rfl⟩, by simp⟩)
    | closed r =>
      cases h
      exact ⟨⟨_, _, _, rfl⟩, by simp [Obs.taking]⟩

/-! ## The orchestrator's turn -/

inductive Turn (s s' : Daemon) (ok : Bool) (target : DeviceId) : List Obs → Prop
  | taken {os : List Obs} (i : Nat) (e : ListenerEvent) (rest : List (Nat × ListenerEvent)) :
      s.orchestrator = .idle → s.queue = (i, e) :: rest →
      ({ s with queue := rest } : Daemon).dispatch i e = (s', os) → Turn s s' ok target os
  | handshake {os : List Obs} (h : Handling) (pc : HandshakePc) : s.orchestrator = .handshake h pc →
      s.handshakeStep h ok pc = some (s', os) → Turn s s' ok target os
  | received {os : List Obs} (r : Received) (pc : ReceivedPc) : s.orchestrator = .received r pc →
      s.receivedStep r ok target pc = some (s', os) → Turn s s' ok target os
  | closed (id : DeviceId) (pc : ClosedPc) : s.orchestrator = .closed id pc → s.closedStep id pc = s' →
      Turn s s' ok target []

theorem orchestrate_turn {s s' : Daemon} {os : List Obs} {ok : Bool} {target : DeviceId}
    (h : s.orchestrate ok target = some (s', os)) : Turn s s' ok target os := by
  unfold orchestrate at h
  split at h
  · rename_i ho
    split at h
    · cases h
    · rename_i i e rest hq
      exact .taken i e rest ho hq (Option.some.inj h)
  · rename_i hh pc ho
    exact .handshake hh pc ho h
  · rename_i r pc ho
    exact .received r pc ho h
  · rename_i id pc ho
    cases h
    exact .closed id pc ho rfl

theorem now_step {cfg : Config} {s s' : Daemon} {a : Act} {os : List Obs} (h : step cfg s a = some (s', os)) :
    s'.now = s.now ∨ ∃ dt, a = .advance dt ∧ s'.now = s.now + dt := by
  cases ha : a.task with
  | net =>
    cases a with
    | advance dt =>
      cases h
      exact Or.inr ⟨dt, rfl, rfl⟩
    | accept remote spki =>
      simp only [step, accept, Option.ite_none_right_eq_some, Option.some.injEq, Prod.mk.injEq] at h
      obtain ⟨-, rfl, -⟩ := h
      exact Or.inl rfl
    | connection i ca =>
      simp only [step, connectionStep] at h
      split at h
      · cases h
      · split at h <;> (cases h; try exact Or.inl rfl)
    | drain i =>
      simp only [step, drain] at h
      split at h
      · cases h
      · split at h <;> (cases h; try exact Or.inl rfl)
    | _ => cases ha
  | clipboard =>
    obtain ⟨⟨_, _, _, _, _, _, rfl⟩, -, -⟩ := clipboard_frame h ha
    exact Or.inl rfl
  | bus =>
    obtain ⟨⟨_, _, _, _, _, _, _, _, _, _, _, rfl, -⟩, -⟩ := bus_frame h ha
    exact Or.inl rfl
  | orchestrator =>
    cases a with
    | orchestrate ok target =>
      cases orchestrate_turn h with
      | taken i e rest _ _ hd =>
        obtain ⟨⟨_, _, _, rfl⟩, -⟩ := dispatch_frame hd
        exact Or.inl rfl
      | handshake hh pc _ hs =>
        obtain ⟨⟨_, _, _, _, _, _, _, _, _, rfl, -⟩, -⟩ := handshakeStep_frame hs
        exact Or.inl rfl
      | received r pc _ hr =>
        obtain ⟨⟨_, _, _, _, _, rfl, -⟩, -, -⟩ := receivedStep_frame hr
        exact Or.inl rfl
      | closed id pc _ hc =>
        subst hc
        cases pc <;> exact Or.inl rfl
    | _ => cases ha

theorem now_mono {cfg : Config} {s s' : Daemon} {a : Act} {os : List Obs} (h : step cfg s a = some (s', os)) :
    s.now ≤ s'.now := by
  rcases now_step h with hn | ⟨dt, -, hn⟩
  · exact Nat.le_of_eq hn.symm
  · rw [hn]
    exact Nat.le_add_right _ _

/-! ## The start -/

theorem restoring_step {cfg : Config} {s s' : Daemon} {a : Act} {os : List Obs} (h : step cfg s a = some (s', os)) :
    s'.restoring = s.restoring ∨ a = .restore ∧ ∃ e, s.restoring = e :: s'.restoring := by
  cases ha : a.task with
  | net =>
    obtain ⟨⟨_, _, _, rfl⟩, -⟩ := net_frame h ha
    exact Or.inl rfl
  | clipboard =>
    obtain ⟨⟨_, _, _, _, _, _, rfl⟩, -, -⟩ := clipboard_frame h ha
    exact Or.inl rfl
  | bus =>
    cases a with
    | restore =>
      obtain ⟨hm, -⟩ := restore_move h
      cases hm with
      | skips e rest hr _ | exports e rest id hr _ _ => exact Or.inr ⟨rfl, e, hr⟩
    | startPairing random =>
      cases h
      exact Or.inl rfl
    | openWindow k =>
      simp only [step, openWindow] at h
      split at h <;> (cases h; try exact Or.inl rfl)
    | setToken k addrs =>
      simp only [step, setToken] at h
      split at h <;> (cases h; try exact Or.inl rfl)
    | confirmPairing hex accept =>
      simp only [step, confirmPairing] at h
      split at h
      · cases h
        exact Or.inl rfl
      · split at h <;> (cases h; exact Or.inl rfl)
    | unpair hex =>
      simp only [step, unpair] at h
      split at h <;> (cases h; exact Or.inl rfl)
    | unpairStep k ok =>
      simp only [step, unpairStep, persistState_eq] at h
      split at h
      · cases h
      iterate 4
        · cases h
          exact Or.inl rfl
    | _ => cases ha
  | orchestrator =>
    cases a with
    | orchestrate ok target =>
      cases orchestrate_turn h with
      | taken i e rest _ _ hd =>
        obtain ⟨⟨_, _, _, rfl⟩, -⟩ := dispatch_frame hd
        exact Or.inl rfl
      | handshake hh pc _ hs =>
        obtain ⟨⟨_, _, _, _, _, _, _, _, _, rfl, -⟩, -⟩ := handshakeStep_frame hs
        exact Or.inl rfl
      | received r pc _ hr =>
        obtain ⟨⟨_, _, _, _, _, rfl, -⟩, -, -⟩ := receivedStep_frame hr
        exact Or.inl rfl
      | closed id pc _ hc =>
        subst hc
        cases pc <;> exact Or.inl rfl
    | _ => cases ha

theorem Awaits.restoring {s : Daemon} {d : DeviceId} (h : s.Awaits d) : s.restoring ≠ [] := by
  obtain ⟨e, he, -⟩ := h
  exact List.ne_nil_of_mem he

theorem awaits_step {cfg : Config} {s s' : Daemon} {a : Act} {os : List Obs} {d : DeviceId}
    (h : step cfg s a = some (s', os)) (hw : s'.Awaits d) : s.Awaits d := by
  obtain ⟨e, he, hd⟩ := hw
  rcases restoring_step h with hr | ⟨-, e', hr⟩
  · exact ⟨e, hr ▸ he, hd⟩
  · exact ⟨e, by rw [hr]; exact List.mem_cons_of_mem _ he, hd⟩

/-- Nobody has connected and nobody watches the clipboard. -/
structure Starting (s : Daemon) : Prop where
  connections : s.connections = []
  queue : s.queue = []
  orchestrator : s.orchestrator = .idle
  connectedDevices : s.connectedDevices = ∅
  watch : s.watch = .off

theorem Starting.step {cfg : Config} {s s' : Daemon} {a : Act} {os : List Obs} (hs : s.Starting)
    (hr : s.restoring ≠ []) (h : step cfg s a = some (s', os)) : s'.Starting := by
  obtain ⟨hc, hq, ho, hd, hw⟩ := hs
  cases ha : a.task with
  | net =>
    cases a with
    | advance dt =>
      cases h
      exact ⟨hc, hq, ho, hd, hw⟩
    | accept remote spki =>
      simp only [Daemon.step, accept, Option.ite_none_right_eq_some] at h
      exact absurd h.1.1 hr
    | connection i ca => simp [Daemon.step, connectionStep, hc] at h
    | drain i => simp [Daemon.step, drain, hc] at h
    | _ => cases ha
  | clipboard =>
    cases a with
    | probe =>
      simp only [Daemon.step, probe, Option.ite_none_left_eq_some] at h
      exact absurd (Or.inl hr) h.1
    | copy c =>
      cases h
      exact ⟨hc, hq, ho, hd, hw⟩
    | notify =>
      cases h
      exact ⟨hc, hq, ho, hd, hw⟩
    | watch ok target => simp [Daemon.step, watchStep, hw] at h
    | watchEnds => simp [Daemon.step, watchEnds, hw] at h
    | _ => cases ha
  | bus =>
    obtain ⟨⟨_, _, _, _, _, _, _, _, _, _, _, rfl, hor, -⟩, -⟩ := bus_frame h ha
    refine ⟨hc, hq, ?_, hd, hw⟩
    rcases hor with rfl | ⟨channel, accept, rfl⟩
    · exact ho
    · show answer channel accept s.orchestrator = .idle
      rw [ho]
      rfl
  | orchestrator =>
    cases a with
    | orchestrate ok target => simp [Daemon.step, orchestrate, ho, hq] at h
    | _ => cases ha

/-- As long as the devices of the file are being exported nothing else has begun. -/
theorem run_starting {cfg : Config} {file : Option PersistedState} {clipboard : Content}
    {C : List Obs → Daemon → Act → Prop} {tr : List Obs} {s : Daemon}
    (h : Run (system cfg file clipboard) C tr s) : s.restoring ≠ [] → s.Starting := by
  refine h.invariant (I := fun _ s => s.restoring ≠ [] → s.Starting) (fun s h0 _ => ?_)
    fun _ s a s' os _ hi _ hs hr => ?_
  · rw [h0]
    exact ⟨rfl, rfl, rfl, rfl, rfl⟩
  · have hne : s.restoring ≠ [] := by
      rcases restoring_step hs with he | ⟨-, e, he⟩
      · rwa [he] at hr
      · rw [he]
        exact List.cons_ne_nil _ _
    exact (hi hne).step hne hs

/-! ## Who is at the other end -/

def peers (s : Daemon) : List (SocketAddr × List UInt8) := s.connections.map fun c => (c.remote, c.spki)

theorem peers_cores {s s' : Daemon} (hc : s'.cores = s.cores) : s'.peers = s.peers := by
  have h := congrArg (List.map fun c => (c.remote, c.spki)) hc
  rw [cores, cores, List.map_map, List.map_map] at h
  exact h

theorem map_set_self {α β : Type} (f : α → β) {l : List α} {i : Nat} {x y : α} (h : l[i]? = some x) (hf : f y = f x) :
    (l.set i y).map f = l.map f := by
  obtain ⟨hi, rfl⟩ := List.getElem?_eq_some_iff.mp h
  rw [List.map_set, hf, ← List.getElem_map f (h := by simpa using hi), List.set_getElem_self]

theorem peers_step {cfg : Config} {s s' : Daemon} {a : Act} {os : List Obs} (h : step cfg s a = some (s', os)) :
    ∃ more, s'.peers = s.peers ++ more := by
  have hsame : s'.peers = s.peers → ∃ more, s'.peers = s.peers ++ more := fun he =>
    ⟨[], he.trans (List.append_nil _).symm⟩
  cases ha : a.task with
  | net =>
    cases a with
    | advance dt =>
      cases h
      exact hsame rfl
    | accept remote spki =>
      simp only [step, accept, Option.ite_none_right_eq_some, Option.some.injEq, Prod.mk.injEq] at h
      obtain ⟨-, rfl, -⟩ := h
      exact ⟨[(remote, spki)], List.map_append⟩
    | connection i ca =>
      simp only [step, connectionStep] at h
      split at h
      · cases h
      · rename_i c hc
        split at h
        · cases h
        · cases h
          exact hsame (map_set_self _ hc rfl)
    | drain i =>
      simp only [step, drain] at h
      split at h
      · cases h
      · rename_i c hc
        split at h
        · cases h
        · cases h
          exact hsame (map_set_self _ hc rfl)
    | _ => cases ha
  | clipboard => exact hsame (peers_cores (clipboard_frame h ha).2.1)
  | bus =>
    obtain ⟨⟨_, _, _, _, _, _, _, _, _, _, _, rfl, -⟩, -⟩ := bus_frame h ha
    exact hsame rfl
  | orchestrator =>
    cases a with
    | orchestrate ok target =>
      cases orchestrate_turn h with
      | taken j e rest _ _ hd =>
        obtain ⟨⟨_, _, _, rfl⟩, -⟩ := dispatch_frame hd
        exact hsame rfl
      | handshake hh pc _ hs =>
        obtain ⟨⟨_, _, _, _, _, _, _, _, _, rfl, -⟩, -⟩ := handshakeStep_frame hs
        exact hsame rfl
      | received r pc _ hr => exact hsame (peers_cores (receivedStep_frame hr).2.1)
      | closed id pc _ hc =>
        subst hc
        cases pc <;> exact hsame rfl
    | _ => cases ha

def Orchestrator.handling? : Orchestrator → Option Handling
  | .handshake h _ => some h
  | _ => none

theorem answer_cases (channel : Nat) (accept : Bool) (o : Orchestrator) :
    answer channel accept o = o ∨ ∃ h deadline, o = .handshake h (.awaiting channel deadline none) ∧
      answer channel accept o = .handshake h (.awaiting channel deadline (some accept)) := by
  unfold answer
  split
  · rename_i h ch deadline
    by_cases hc : ch = channel
    · subst hc
      exact Or.inr ⟨h, deadline, rfl, if_pos rfl⟩
    · exact Or.inl (if_neg hc)
  · exact Or.inl rfl

theorem answer_handling (channel : Nat) (accept : Bool) (o : Orchestrator) :
    Orchestrator.handling? (answer channel accept o) = Orchestrator.handling? o := by
  rcases answer_cases channel accept o with h | ⟨_, _, rfl, h⟩
  · rw [h]
  · rw [h]
    rfl

/-! ## Two devices, for concrete runs -/

namespace Sample

def phoneKey : List UInt8 :=
  [48, 42, 48, 5, 6, 3, 43, 101, 112, 3, 33, 0, 215, 90, 152, 1, 130, 177, 10, 183, 213, 75, 254, 211,
  201, 100, 7, 58, 14, 225, 114, 243, 218, 166, 35, 37, 175, 2, 26, 104, 247, 7, 81, 26]

def phone : DeviceId :=
  ⟨[6, 227, 253, 143, 218, 41, 187, 96, 171, 89, 85, 125, 230, 30, 219, 10, 236, 219, 35, 17, 52, 190,
    48, 231, 91, 69, 95, 142, 27, 121, 47, 169], rfl⟩

def tabletKey : List UInt8 :=
  [48, 42, 48, 5, 6, 3, 43, 101, 112, 3, 33, 0, 61, 64, 23, 195, 232, 67, 137, 90, 146, 183, 10, 167, 77,
  27, 126, 188, 156, 152, 44, 207, 46, 196, 150, 140, 192, 205, 85, 241, 42, 244, 102, 12]

def tablet : DeviceId :=
  ⟨[222, 178, 222, 211, 157, 194, 111, 206, 14, 96, 133, 182, 252, 52, 191, 107, 89, 65, 145, 59, 191,
    226, 234, 97, 65, 19, 207, 249, 224, 4, 193, 112], rfl⟩

def hashA : Bytes 32 :=
  ⟨[50, 104, 75, 250, 40, 192, 200, 77, 111, 33, 5, 17, 170, 206, 14, 252, 81, 113, 199, 136, 145, 72,
    186, 137, 32, 141, 90, 162, 151, 5, 250, 152], rfl⟩

def hashB : Bytes 32 :=
  ⟨[159, 149, 36, 202, 24, 192, 204, 3, 174, 241, 160, 184, 79, 174, 217, 55, 94, 93, 25, 87, 94, 147,
    40, 230, 95, 234, 114, 153, 31, 15, 88, 207], rfl⟩

/-- The hashes of the two keys and of the texts "A" and "B". -/
def crypto : Crypto where
  sha256 spki := if spki = phoneKey then phone else if spki = tabletKey then tablet else Bytes.fill 32 0
  blake3 content := if content = [65] then hashA else if content = [66] then hashB else Bytes.fill 32 0

def cfg : Config := ⟨crypto, ⟨Bytes.fill 32 1, "desk", []⟩⟩

def clipA : Clip := ⟨mimeTextPlain, [65], hashA⟩

def clipB : Clip := ⟨mimeTextPlain, [66], hashB⟩

def empty : Content := ⟨mimeTextPlain, []⟩

def addr (host : UInt8) : SocketAddr := .v4 ⟨[192, 168, 0, host], rfl⟩ 40000

def token : TokenBytes := Bytes.fill tokenLen 7

def turns (n : Nat) : List Act := List.replicate n (.orchestrate true phone)

def connect (i : Nat) (remote : SocketAddr) (key : List UInt8) : List Act :=
  [.accept remote key, .connection i (.start true)] ++ turns 1

/-- Connection `i` presents a handshake as `id`, which waits in the queue. -/
def greet (i : Nat) (id : DeviceId) (token : Option TokenBytes) : List Act :=
  [.connection i (.receive (encode (.handshake ⟨protocolVersion, id, "", [], token⟩)) 0 true), .drain i]

/-- Connection `i` sends a clip, which waits in the queue. -/
def share (i : Nat) (c : Clip) : List Act := [.connection i (.receive (encode (.clipboard c)) 0 true), .drain i]

def hangUp (i : Nat) : List Act := [.connection i (.lost "timed out"), .drain i]

/-- The only `unpair` in flight, from the call to its return. -/
def unpairAll (id : DeviceId) (ok : Bool) : List Act := .unpair (toHex id) :: List.replicate 4 (.unpairStep 0 ok)

/-- The only `start_pairing` in flight, from the call to its return. -/
def mint : List Act := [.startPairing token, .openWindow 0, .setToken 0 []]

/-- The device with this key connects in a pairing window, presents the token, is confirmed and paired. -/
def pair (i : Nat) (remote : SocketAddr) (key : List UInt8) : List Act :=
  mint ++ connect i remote key ++ greet i (crypto.sha256 key) (some token) ++
    turns 5 ++ [.confirmPairing (toHex (crypto.sha256 key)) true] ++ turns 9

end Sample

end Daemon

end PenguinSync
