import PenguinSync.Daemon.Streams

/-!
# Who is connected

`connected_devices` and the `Connected` flags follow the open sessions as long
as a promotion takes the handle of its own session and a `Closed` takes away
nothing but what its own session brought.
-/

namespace PenguinSync

open Lts

namespace Daemon

def Obs.promotes (d : DeviceId) : Obs → Option Nat
  | .promoted i id _ => if id = d then some i else none
  | _ => none

/-- The sessions `d` was promoted on whose `Closed` has not been processed. -/
def openSessions (d : DeviceId) (tr : List Obs) : List Nat :=
  (tr.filterMap (Obs.promotes d)).filter fun i => .closed i ∉ tr

/-- What there is to say between two events. -/
structure ConnectedExact (tr : List Obs) (s : Daemon) : Prop where
  listed : ∀ d, d ∈ s.connectedDevices ↔ ∃ i, i ∈ openSessions d tr
  handle : ∀ d i, s.connectedDevices.lookup d = some i → i ∈ openSessions d tr
  flag : ∀ d o, s.objects.lookup d = some o → (o.connected = true ↔ d ∈ s.connectedDevices)

/-- The handle under the handshake's address is that of an open session of the
device; where there is none, no flag is set that was not set before. -/
def promoteTidy (tr : List Obs) (s : Daemon) (h : Handling) : Bool :=
  match s.remoteHandles.lookup h.remote with
  | some k => k = h.session ∨ k ∈ openSessions h.deviceId tr
  | none => h.deviceId ∈ s.connectedDevices ∨ h.deviceId ∉ s.objects

/-- The device noted under the address is the one that has this handle, and no
other session of it is open. -/
def closeTidy (tr : List Obs) (s : Daemon) (i : Nat) (remote : SocketAddr) : Bool :=
  (∀ d ∈ s.connectedDevices.keys, s.connectedDevices.lookup d = some i → s.remoteToDevice.lookup remote = some d) ∧
    ∀ d ∈ s.remoteToDevice.lookup remote, ∀ j ∈ openSessions d tr, j = i

def tidy (tr : List Obs) (s : Daemon) : Act → Bool
  | .orchestrate .. =>
    match s.orchestrator, s.queue with
    | .handshake h .promote, _ => promoteTidy tr s h
    | .idle, (i, .session remote (.closed _)) :: _ => closeTidy tr s i remote
    | _, _ => true
  | _ => true

def Orchestrator.sets (d : DeviceId) : Orchestrator → Prop
  | .handshake h .setConnected | .handshake h .promote => h.deviceId = d
  | .closed id .setConnected => id = d
  | _ => False

structure ConnectedInv (tr : List Obs) (s : Daemon) : Prop where
  live : ∀ h, Orchestrator.handling? s.orchestrator = some h → .closed h.session ∉ tr
  handle : ∀ d i, s.connectedDevices.lookup d = some i →
    i ∈ openSessions d tr ∨ s.orchestrator = .closed d .disconnect
  listed : ∀ d i, i ∈ openSessions d tr → d ∈ s.connectedDevices
  leaving : ∀ d pc, s.orchestrator = .closed d pc → ∀ i, i ∉ openSessions d tr
  left : ∀ d, s.orchestrator = .closed d .setConnected → d ∉ s.connectedDevices
  flag : ∀ d o, s.objects.lookup d = some o →
    (o.connected = true ↔ d ∈ s.connectedDevices) ∨ Orchestrator.sets d s.orchestrator
  set : ∀ h o, s.orchestrator = .handshake h .promote → s.objects.lookup h.deviceId = some o → o.connected = true

section
variable {cfg : Config} {s s' : Daemon} {tr os : List Obs} {i : Nat} {d : DeviceId} {a : Act}

theorem mem_openSessions : i ∈ openSessions d tr ↔ (∃ k, .promoted i d k ∈ tr) ∧ .closed i ∉ tr := by
  unfold openSessions
  rw [List.mem_filter, decide_eq_true_eq, List.mem_filterMap]
  refine and_congr_left fun _ => ⟨?_, ?_⟩
  · rintro ⟨o, ho, h⟩
    unfold Obs.promotes at h
    split at h
    · rename_i k
      split at h
      · rename_i hid
        cases h
        exact ⟨k, hid ▸ ho⟩
      · cases h
    · cases h
  · rintro ⟨k, hk⟩
    exact ⟨_, hk, by simp [Obs.promotes]⟩

def Obs.opening : Obs → Bool
  | .promoted .. | .closed _ => true
  | _ => false

theorem openSessions_append (hos : ∀ o ∈ os, Obs.opening o = false) :
    i ∈ openSessions d (tr ++ os) ↔ i ∈ openSessions d tr := by
  have hp : ∀ k, .promoted i d k ∉ os := fun k hm => by cases hos _ hm
  have hc : .closed i ∉ os := fun hm => by cases hos _ hm
  simp [mem_openSessions, hp, hc]

/-- The connected devices and the trace of open sessions stay the same, while
no device is leaving. -/
theorem ConnectedInv.move (hi : ConnectedInv tr s) (hos : ∀ o ∈ os, Obs.opening o = false)
    (hd : s'.connectedDevices = s.connectedDevices) (ho : ∀ d pc, s.orchestrator ≠ .closed d pc)
    (ho' : ∀ d pc, s'.orchestrator ≠ .closed d pc)
    (hl : ∀ h, Orchestrator.handling? s'.orchestrator = some h →
      Orchestrator.handling? s.orchestrator = some h ∨ .closed h.session ∉ tr)
    (hf : ∀ d o, s'.objects.lookup d = some o →
      (o.connected = true ↔ d ∈ s.connectedDevices) ∨ Orchestrator.sets d s'.orchestrator)
    (hs : ∀ h o, s'.orchestrator = .handshake h .promote → s'.objects.lookup h.deviceId = some o →
      o.connected = true) :
    ConnectedInv (tr ++ os) s' where
  live := by
    intro h hh hm
    rcases List.mem_append.mp hm with hm | hm
    · rcases hl h hh with hs | hn
      · exact hi.live h hs hm
      · exact hn hm
    · cases hos _ hm
  handle := by
    intro d i hx
    rw [hd] at hx
    rcases hi.handle d i hx with hx | hx
    · exact Or.inl ((openSessions_append hos).mpr hx)
    · exact absurd hx (ho _ _)
  listed := by
    intro d i hx
    rw [hd]
    exact hi.listed d i ((openSessions_append hos).mp hx)
  leaving := fun d pc hx => absurd hx (ho' d pc)
  left := fun d hx => absurd hx (ho' d _)
  flag := by
    rw [hd]
    exact hf
  set := hs

theorem ConnectedInv.frame (hi : ConnectedInv tr s) (hos : ∀ o ∈ os, Obs.opening o = false)
    (hd : s'.connectedDevices = s.connectedDevices) (ho : s'.orchestrator = s.orchestrator)
    (hobj : ∀ d o, s'.objects.lookup d = some o → s.objects.lookup d = some o ∨
      s.orchestrator = .idle ∧ o.connected = false ∧ d ∉ s.connectedDevices) : ConnectedInv (tr ++ os) s' where
  live := by
    intro h hh hm
    rw [ho] at hh
    rcases List.mem_append.mp hm with hm | hm
    · exact hi.live h hh hm
    · cases hos _ hm
  handle := by
    intro d i hx
    rw [openSessions_append hos, ho]
    exact hi.handle d i (hd ▸ hx)
  listed := by
    intro d i hx
    rw [hd]
    exact hi.listed d i ((openSessions_append hos).mp hx)
  leaving := by
    intro d pc hx i
    rw [openSessions_append hos]
    exact hi.leaving d pc (ho ▸ hx) i
  left := by
    rw [ho, hd]
    exact hi.left
  flag := by
    intro d o hx
    rw [hd, ho]
    rcases hobj d o hx with hx | ⟨-, hoff, hout⟩
    · exact hi.flag d o hx
    · exact Or.inl (by simp [hoff, hout])
  set := by
    intro h o hh hx
    rw [ho] at hh
    rcases hobj _ o hx with hx | ⟨hidle, -, -⟩
    · exact hi.set h o hh hx
    · cases hidle.symm.trans hh

theorem ConnectedInv.flag_of (hi : ConnectedInv tr s) (hn : ∀ d, ¬ Orchestrator.sets d s.orchestrator)
    {o : Device1} (hx : s.objects.lookup d = some o) : o.connected = true ↔ d ∈ s.connectedDevices := by
  rcases hi.flag d o hx with h | h
  · exact h
  · exact absurd h (hn d)

theorem ConnectedInv.createObject {h : Handling} (hi : ConnectedInv tr s)
    (ho : s.orchestrator = .handshake h .createObject) :
    ConnectedInv (tr ++ []) (({ s with
      objects := if (s.objects.lookup h.deviceId).isSome then s.objects
        else s.objects.insert h.deviceId ⟨h.name, toHex h.deviceId, false⟩ } : Daemon).handshake h .setConnected) := by
  refine hi.move (by simp) rfl (by simp [ho]) (by simp [Daemon.handshake]) ?_ ?_ ?_
  · intro h' hh
    rw [ho]
    exact Or.inl hh
  · intro d o hx
    by_cases hd : d = h.deviceId
    · exact Or.inr hd.symm
    · refine Or.inl (hi.flag_of (by simp [ho, Orchestrator.sets]) ?_)
      simp only [Daemon.handshake] at hx
      split at hx
      · exact hx
      · rcases HashMap.lookup_insert_some.mp hx with ⟨hd', -⟩ | ⟨-, hx⟩
        · exact absurd hd' hd
        · exact hx
  · intro _ _ hh
    cases hh

theorem ConnectedInv.setConnected {h : Handling} (hi : ConnectedInv tr s)
    (ho : s.orchestrator = .handshake h .setConnected) :
    ConnectedInv (tr ++ [])
      (({ s with objects := PenguinSync.setConnected s.objects h.deviceId true } : Daemon).handshake h .promote) := by
  refine hi.move (by simp) rfl (by simp [ho]) (by simp [Daemon.handshake]) ?_ ?_ ?_
  · intro h' hh
    rw [ho]
    exact Or.inl hh
  · intro d o hx
    rcases lookup_setConnected.mp hx with ⟨rfl, o', -, rfl⟩ | ⟨hd, hx⟩
    · exact Or.inr rfl
    · rcases hi.flag d o hx with hf | hf
      · exact Or.inl hf
      · rw [ho] at hf
        exact absurd hf.symm hd
  · intro h' o hh hx
    cases hh
    rcases lookup_setConnected.mp hx with ⟨-, o', -, rfl⟩ | ⟨hd, -⟩
    · rfl
    · exact absurd rfl hd

theorem ConnectedInv.promote {h : Handling} (hi : ConnectedInv tr s) (ho : s.orchestrator = .handshake h .promote)
    {ok : Bool} (ht : promoteTidy tr s h = true)
    (hs : s.handshakeStep h ok .promote = some (s', os)) :
    ConnectedInv (tr ++ os) s' := by
  have hlive : .closed h.session ∉ tr := hi.live h (by rw [ho]; rfl)
  have hflag : ∀ d o, s.objects.lookup d = some o → d ≠ h.deviceId →
      (o.connected = true ↔ d ∈ s.connectedDevices) := by
    intro d o hx hd
    rcases hi.flag d o hx with hf | hf
    · exact hf
    · rw [ho] at hf
      exact absurd hf.symm hd
  unfold promoteTidy at ht
  simp only [handshakeStep] at hs
  split at hs
  · rename_i k hk
    cases hs
    rw [hk] at ht
    have hsub : ∀ d i, i ∈ openSessions d (tr ++ [.promoted h.session h.deviceId k]) ↔
        i ∈ openSessions d tr ∨ i = h.session ∧ d = h.deviceId := by
      intro d i
      simp only [mem_openSessions, List.mem_append, List.mem_singleton, Obs.promoted.injEq, reduceCtorEq, or_false]
      constructor
      · rintro ⟨⟨k', hk' | ⟨rfl, rfl, -⟩⟩, hc⟩
        · exact Or.inl ⟨⟨k', hk'⟩, hc⟩
        · exact Or.inr ⟨rfl, rfl⟩
      · rintro (⟨⟨k', hk'⟩, hc⟩ | ⟨rfl, rfl⟩)
        · exact ⟨⟨k', Or.inl hk'⟩, hc⟩
        · exact ⟨⟨k, Or.inr ⟨rfl, rfl, rfl⟩⟩, hlive⟩
    refine
      { live := fun _ hh => by cases hh
        handle := fun d i hx => Or.inl ((hsub d i).mpr ?_)
        listed := fun d i hx => ?_
        leaving := fun _ _ hx => by cases hx
        left := fun _ hx => by cases hx
        flag := fun d o hx => Or.inl ?_
        set := fun _ _ hh => by cases hh }
    · rcases HashMap.lookup_insert_some.mp hx with ⟨rfl, rfl⟩ | ⟨-, hx⟩
      · rcases of_decide_eq_true ht with rfl | ht
        · exact Or.inr ⟨rfl, rfl⟩
        · exact Or.inl ht
      · rcases hi.handle d i hx with hx | hx
        · exact Or.inl hx
        · rw [ho] at hx
          cases hx
    · show d ∈ s.connectedDevices.insert h.deviceId k
      rw [Finmap.mem_insert]
      rcases (hsub d i).mp hx with hx | ⟨-, hd⟩
      · exact Or.inr (hi.listed d i hx)
      · exact Or.inl hd
    · show o.connected = true ↔ d ∈ s.connectedDevices.insert h.deviceId k
      rw [Finmap.mem_insert]
      by_cases hd : d = h.deviceId
      · subst hd
        simp [hi.set h o ho hx]
      · rw [hflag d o hx hd]
        simp [hd]
  · rename_i hk
    cases hs
    rw [hk] at ht
    refine hi.move (by simp) rfl (by simp [ho]) (by simp [idle]) (fun _ hh => by cases hh) (fun d o hx => Or.inl ?_)
      fun _ _ hh => by cases hh
    by_cases hd : d = h.deviceId
    · subst hd
      rcases of_decide_eq_true ht with ht | ht
      · simp [hi.set h o ho hx, ht]
      · exact absurd (Finmap.mem_iff.mpr ⟨o, hx⟩) ht
    · exact hflag d o hx hd

/-- A handshake that goes on or is dropped before it sets the flag. -/
theorem ConnectedInv.proceed {h : Handling} {pc : HandshakePc} (hi : ConnectedInv tr s)
    (hos : ∀ o ∈ os, Obs.opening o = false) (hd : s'.connectedDevices = s.connectedDevices)
    (hobj : s'.objects = s.objects) (ho : s.orchestrator = .handshake h pc)
    (hn : pc ≠ .setConnected ∧ pc ≠ .promote)
    (ho' : s'.orchestrator = .idle ∨ ∃ pc', s'.orchestrator = .handshake h pc' ∧ pc' ≠ .promote) :
    ConnectedInv (tr ++ os) s' := by
  have hsets : ∀ d, ¬ Orchestrator.sets d s.orchestrator := by
    intro d
    rw [ho]
    cases pc <;> first | exact id | exact absurd rfl hn.1 | exact absurd rfl hn.2
  refine hi.move hos hd (by simp [ho]) ?_ ?_ (fun d o hx => Or.inl (hi.flag_of hsets (hobj ▸ hx))) ?_
  · rcases ho' with ho' | ⟨pc', ho', -⟩ <;> simp [ho']
  · intro h' hh
    rcases ho' with ho' | ⟨pc', ho', -⟩
    · rw [ho'] at hh
      cases hh
    · rw [ho'] at hh
      rw [ho]
      exact Or.inl hh
  · intro h' o hh
    rcases ho' with ho' | ⟨pc', ho', hp⟩
    · rw [ho'] at hh
      cases hh
    · rw [ho'] at hh
      cases hh
      exact absurd rfl hp

theorem ConnectedInv.handshake {h : Handling} {pc : HandshakePc} {ok : Bool} (hi : ConnectedInv tr s)
    (ho : s.orchestrator = .handshake h pc) (ht : pc = .promote → promoteTidy tr s h = true)
    (hs : s.handshakeStep h ok pc = some (s', os)) : ConnectedInv (tr ++ os) s' := by
  cases pc with
  | isPaired =>
    simp only [handshakeStep] at hs
    split at hs
    · cases hs; exact hi.proceed (by simp) rfl rfl ho (by simp) (Or.inr ⟨_, rfl, by simp⟩)
    · split at hs
      · cases hs; exact hi.proceed (by simp) rfl rfl ho (by simp) (Or.inl rfl)
      · cases hs; exact hi.proceed (by simp) rfl rfl ho (by simp) (Or.inr ⟨_, rfl, by simp⟩)
  | redeem presented =>
    simp only [handshakeStep] at hs
    split at hs
    · cases hs; exact hi.proceed (by simp) rfl rfl ho (by simp) (Or.inl rfl)
    · split at hs
      · cases hs; exact hi.proceed (by simp [Obs.opening]) rfl rfl ho (by simp) (Or.inr ⟨_, rfl, by simp⟩)
      · cases hs; exact hi.proceed (by simp) rfl rfl ho (by simp) (Or.inl rfl)
  | awaiting ch deadline ans =>
    cases ans with
    | none =>
      simp only [handshakeStep, Option.ite_none_right_eq_some] at hs
      obtain ⟨-, hs⟩ := hs
      cases hs; exact hi.proceed (by simp) rfl rfl ho (by simp) (Or.inl rfl)
    | some accept =>
      cases accept with
      | false => cases hs; exact hi.proceed (by simp) rfl rfl ho (by simp) (Or.inl rfl)
      | true => cases hs; exact hi.proceed (by simp) rfl rfl ho (by simp) (Or.inr ⟨_, rfl, by simp⟩)
  | persist =>
    simp only [handshakeStep, persistState_eq] at hs
    cases hs
    exact hi.proceed (by simp) rfl rfl ho (by simp) (Or.inr ⟨_, rfl, by simp⟩)
  | ensureObject =>
    cases hs
    refine hi.proceed (by simp) rfl rfl ho (by simp) (Or.inr ⟨_, rfl, ?_⟩)
    split <;> simp
  | createObject =>
    cases hs
    exact hi.createObject ho
  | setConnected =>
    cases hs
    exact hi.setConnected ho
  | promote => exact hi.promote ho (ht rfl) hs
  | _ =>
    cases hs
    exact hi.proceed (by simp [Obs.opening]) rfl rfl ho (by simp) (Or.inr ⟨_, rfl, by simp⟩)

/-- The entry and then the flag of a device that has no open session go. -/
theorem ConnectedInv.closed {id : DeviceId} {pc : ClosedPc} (hi : ConnectedInv tr s)
    (ho : s.orchestrator = .closed id pc) : ConnectedInv (tr ++ []) (s.closedStep id pc) := by
  rw [List.append_nil]
  have hnone := hi.leaving id pc ho
  have hother : ∀ d, d ≠ id → ∀ o, s.objects.lookup d = some o → (o.connected = true ↔ d ∈ s.connectedDevices) := by
    intro d hd o hx
    rcases hi.flag d o hx with hf | hf
    · exact hf
    · rw [ho] at hf
      cases pc
      · exact hf.elim
      · exact absurd hf.symm hd
  cases pc with
  | disconnect =>
    refine
      { live := fun _ hh => nomatch hh
        handle := fun d i hx => ?_
        listed := fun d i hx => ?_
        leaving := fun d pc hx => ?_
        left := fun d hx => ?_
        flag := fun d o hx => ?_
        set := fun _ _ hh => nomatch hh }
    · obtain ⟨hd, hx⟩ := HashMap.lookup_erase_some.mp hx
      rcases hi.handle d i hx with hx | hx
      · exact Or.inl hx
      · rw [ho] at hx
        cases hx
        exact absurd rfl hd
    · have hd : d ≠ id := fun hd => hnone i (hd ▸ hx)
      exact Finmap.mem_erase.mpr ⟨hd, hi.listed d i hx⟩
    · cases hx
      exact hnone
    · cases hx
      exact fun hm => (Finmap.mem_erase.mp hm).1 rfl
    · by_cases hd : d = id
      · exact Or.inr hd.symm
      · refine Or.inl ((hother d hd o hx).trans ?_)
        exact ⟨fun hm => Finmap.mem_erase.mpr ⟨hd, hm⟩, fun hm => (Finmap.mem_erase.mp hm).2⟩
  | setConnected =>
    refine
      { live := fun _ hh => nomatch hh
        handle := fun d i hx => ?_
        listed := hi.listed
        leaving := fun _ _ hx => nomatch hx
        left := fun _ hx => nomatch hx
        flag := fun d o hx => Or.inl ?_
        set := fun _ _ hh => nomatch hh }
    · rcases hi.handle d i hx with hx | hx
      · exact Or.inl hx
      · rw [ho] at hx
        cases hx
    · rcases lookup_setConnected.mp hx with ⟨rfl, o', -, rfl⟩ | ⟨hd, hx⟩
      · exact ⟨fun hf => (nomatch hf), fun hm => absurd hm (hi.left d ho)⟩
      · exact hother d hd o hx

theorem openSessions_closed {j : Nat} :
    i ∈ openSessions d (tr ++ [.closed j]) ↔ i ∈ openSessions d tr ∧ i ≠ j := by
  simp [mem_openSessions, and_assoc]

/-- A `Closed` takes the session from the open ones; the device it leaves is
the one whose entry it is, and that has no other session. -/
theorem ConnectedInv.takenClosed {remote : SocketAddr} {q : List (Nat × ListenerEvent)} (hi : ConnectedInv tr s)
    (ho : s.orchestrator = .idle) (ht : closeTidy tr s i remote = true) :
    ConnectedInv (tr ++ [.closed i]) { s with
      queue := q
      remoteHandles := s.remoteHandles.erase remote
      remoteToDevice := s.remoteToDevice.erase remote
      orchestrator := match s.remoteToDevice.lookup remote with
        | some id => .closed id .disconnect
        | none => .idle } := by
  obtain ⟨hown, honly⟩ := of_decide_eq_true ht
  have hcases : ∀ d pc, (match s.remoteToDevice.lookup remote with
      | some id => Orchestrator.closed id .disconnect
      | none => .idle) = .closed d pc → s.remoteToDevice.lookup remote = some d ∧ pc = .disconnect := by
    intro d pc hx
    split at hx
    · rename_i hl
      cases hx
      exact ⟨hl, rfl⟩
    · cases hx
  refine
    { live := fun h hh => ?_
      handle := fun d j hx => ?_
      listed := fun d j hx => hi.listed d j (openSessions_closed.mp hx).1
      leaving := fun d pc hx j hj => ?_
      left := fun d hx => ?_
      flag := fun d o hx => Or.inl (hi.flag_of (by simp [ho, Orchestrator.sets]) hx)
      set := fun h o hh => ?_ }
  · simp only at hh
    split at hh <;> cases hh
  · by_cases hj : j = i
    · subst hj
      have hl := hown d (Finmap.mem_keys.mpr (Finmap.mem_iff.mpr ⟨j, hx⟩)) hx
      right
      simp only [hl]
    · rcases hi.handle d j hx with hx | hx
      · exact Or.inl (openSessions_closed.mpr ⟨hx, hj⟩)
      · rw [ho] at hx
        cases hx
  · obtain ⟨hl, -⟩ := hcases d pc hx
    obtain ⟨hj, hne⟩ := openSessions_closed.mp hj
    exact hne (honly d hl j hj)
  · cases (hcases d _ hx).2
  · simp only at hh
    split at hh <;> cases hh

theorem ConnectedInv.taken {e : ListenerEvent} {rest : List (Nat × ListenerEvent)} (hi : ConnectedInv tr s)
    (ho : s.orchestrator = .idle) (hq : s.queue = (i, e) :: rest)
    (hopen : ∀ remote ev, e = .session remote ev → .closed i ∉ tr)
    (ht : ∀ remote r, e = .session remote (.closed r) → closeTidy tr s i remote = true)
    (h : ({ s with queue := rest } : Daemon).dispatch i e = (s', os)) : ConnectedInv (tr ++ os) s' := by
  have hflag : ∀ d o, s.objects.lookup d = some o → (o.connected = true ↔ d ∈ s.connectedDevices) :=
    fun d o hx => hi.flag_of (by simp [ho, Orchestrator.sets]) hx
  cases e with
  | connected remote handle =>
    cases h
    exact hi.frame (by simp) rfl rfl fun _ _ hx => Or.inl hx
  | session remote ev =>
    cases ev with
    | peerHandshake deviceId name caps token =>
      cases h
      refine hi.move (by simp [Obs.opening]) rfl (by simp [ho]) (by simp [Daemon.handshake]) ?_
        (fun d o hx => Or.inl (hflag d o hx)) fun _ _ hh => by cases hh
      intro h hh
      cases hh
      exact Or.inr (hopen remote _ rfl)
    | ponged rtt =>
      cases h
      exact hi.frame (by simp) rfl rfl fun _ _ hx => Or.inl hx
    | clipboardReceived clip =>
      simp only [dispatch] at h
      split at h
      · cases h
        exact hi.move (by simp) rfl (by simp [ho]) (by simp) (fun _ hh => by cases hh)
          (fun d o hx => Or.inl (hflag d o hx)) fun _ _ hh => by cases hh
      · cases h
        exact hi.frame (by simp) rfl rfl fun _ _ hx => Or.inl hx
    | closed r =>
      cases h
      exact hi.takenClosed ho (ht remote r rfl)

theorem ConnectedInv.bus (hi : ConnectedInv tr s) (hstart : s.restoring ≠ [] → s.Starting)
    (h : step cfg s a = some (s', os)) (ha : a.task = .bus) : ConnectedInv (tr ++ os) s' := by
  obtain ⟨⟨_, _, _, _, _, objects, _, _, _, _, _, rfl, hor, hobj⟩, ho⟩ := bus_frame h ha
  have hos : ∀ o ∈ os, Obs.opening o = false := by
    intro o hm
    have := ho o hm
    cases o <;> first | rfl | cases this
  have hobj : ∀ d o, objects.lookup d = some o → s.objects.lookup d = some o ∨
      s.orchestrator = .idle ∧ o.connected = false ∧ d ∉ s.connectedDevices := by
    intro d o hx
    rcases hobj with rfl | ⟨id, rfl⟩ | ⟨id, o', hw, -, hoff, rfl⟩
    · exact Or.inl hx
    · exact Or.inl (HashMap.lookup_erase_some.mp hx).2
    · rcases HashMap.lookup_insert_some.mp hx with ⟨rfl, rfl⟩ | ⟨-, hx⟩
      · rw [(hstart hw.restoring).connectedDevices]
        exact Or.inr ⟨(hstart hw.restoring).orchestrator, hoff, Finmap.notMem_empty⟩
      · exact Or.inl hx
  rcases hor with rfl | ⟨channel, accept, rfl⟩
  · exact hi.frame hos rfl rfl hobj
  · rcases answer_cases channel accept s.orchestrator with hs | ⟨hh, deadline, hs, hs'⟩
    · exact hi.frame hos rfl hs hobj
    · refine hi.move hos rfl (by simp [hs]) (by simp [hs']) (fun h hx => Or.inl ?_)
        (fun d o hx => Or.inl ?_) ?_
      · exact (answer_handling channel accept s.orchestrator).symm.trans hx
      · refine hi.flag_of (by simp [hs, Orchestrator.sets]) ((hobj d o hx).resolve_right ?_)
        rintro ⟨hidle, -⟩
        cases hidle.symm.trans hs
      · intro h o hx
        simp only [hs'] at hx
        cases hx

theorem ConnectedInv.step (hi : ConnectedInv tr s) (hstream : StreamInv tr s)
    (hstart : s.restoring ≠ [] → s.Starting) (ht : tidy tr s a = true)
    (h : step cfg s a = some (s', os)) : ConnectedInv (tr ++ os) s' := by
  cases ha : a.task with
  | net =>
    obtain ⟨⟨_, _, _, rfl⟩, ho⟩ := net_frame h ha
    refine hi.frame (fun o hm => ?_) rfl rfl fun _ _ hx => Or.inl hx
    obtain ⟨i, x, rfl⟩ := ho o hm
    rfl
  | clipboard =>
    obtain ⟨⟨_, _, _, _, _, _, rfl⟩, -, ho⟩ := clipboard_frame h ha
    refine hi.frame (fun o hm => ?_) rfl rfl fun _ _ hx => Or.inl hx
    have := ho o hm
    cases o <;> first | rfl | cases this
  | bus => exact hi.bus hstart h ha
  | orchestrator =>
    cases a with
    | orchestrate ok target =>
      cases orchestrate_turn h with
      | taken i e rest ho hq hd =>
        refine hi.taken ho hq (fun remote ev he => ?_) (fun remote r he => ?_) hd
        · subst he
          exact hstream.taken_open hq
        · subst he
          simpa only [tidy, ho, hq] using ht
      | handshake hh pc ho hs =>
        refine hi.handshake ho (fun hpc => ?_) hs
        subst hpc
        simpa only [tidy, ho] using ht
      | received r pc ho hr =>
        obtain ⟨⟨_, _, _, _, _, rfl, hor⟩, -, hobs⟩ := receivedStep_frame hr
        have hos : ∀ o ∈ os, Obs.opening o = false := by
          intro o hm
          have := hobs o hm
          cases o <;> first | rfl | cases this
        have hf : ∀ d o, s.objects.lookup d = some o → (o.connected = true ↔ d ∈ s.connectedDevices) :=
          fun d o hx => hi.flag_of (by simp [ho, Orchestrator.sets]) hx
        rcases hor with rfl | ⟨pc', rfl⟩
        · exact hi.move hos rfl (by simp [ho]) (by simp) (fun _ hh => nomatch hh) (fun d o hx => Or.inl (hf d o hx))
            fun _ _ hh => nomatch hh
        · exact hi.move hos rfl (by simp [ho]) (by simp) (fun _ hh => nomatch hh) (fun d o hx => Or.inl (hf d o hx))
            fun _ _ hh => nomatch hh
      | closed id pc ho hc =>
        subst hc
        exact hi.closed ho
    | _ => cases ha

variable {file : Option PersistedState} {clipboard : Content}

theorem run_connected (h : Run (system cfg file clipboard) (tidy · · · = true) tr s) : ConnectedInv tr s := by
  refine h.invariant (fun s h0 => ?_) (fun tr s a s' os hr hi hc hs => hi.step (run_streams hr) (run_starting hr) hc hs)
  rw [h0]
  exact
    { live := fun _ hh => nomatch hh
      handle := fun d i hx => by simp [initial] at hx
      listed := fun d i hx => by simp [openSessions] at hx
      leaving := fun _ _ hh => nomatch hh
      left := fun _ hh => nomatch hh
      flag := fun d o hx => by simp [initial] at hx
      set := fun _ _ hh => nomatch hh }

/-- Between two events the map, the handles and the flags agree with the open
sessions, in a run that was tidy up to then. -/
theorem run_connected_exact (h : Run (system cfg file clipboard) (tidy · · · = true) tr s)
    (hidle : s.orchestrator = .idle) : ConnectedExact tr s := by
  have hi := run_connected h
  have hhandle : ∀ d i, s.connectedDevices.lookup d = some i → i ∈ openSessions d tr := by
    intro d i hx
    rcases hi.handle d i hx with hx | hx
    · exact hx
    · rw [hidle] at hx
      cases hx
  refine ⟨fun d => ⟨fun hm => ?_, fun ⟨i, hx⟩ => hi.listed d i hx⟩, hhandle, fun d o hx => ?_⟩
  · obtain ⟨i, hx⟩ := Finmap.mem_iff.mp hm
    exact ⟨i, hhandle d i hx⟩
  · exact hi.flag_of (by simp [hidle, Orchestrator.sets]) hx

end

/-- The phone connects from a second address before its first connection is given up. -/
def Sample.reconnect : List Act :=
  Sample.pair 0 (Sample.addr 2) Sample.phoneKey ++ Sample.connect 1 (Sample.addr 3) Sample.phoneKey ++
    Sample.greet 1 Sample.phone none ++ Sample.turns 5 ++ Sample.hangUp 0 ++ Sample.turns 3

open Sample in
theorem reconnect_enabled :
    (exec (system cfg none empty) anyway [] (initial none empty) reconnect).isSome = true := by
  decide +kernel

open Sample in
/-- The `Closed` of the old session takes the entry of the new one. -/
theorem reconnect_dropped : ∃ tr s, Run (system cfg none empty) always tr s ∧ s.orchestrator = .idle ∧
    phone ∈ s.trust.paired ∧ 1 ∈ openSessions phone tr ∧ phone ∉ s.connectedDevices := by
  refine ⟨_, _, run_of_anyway rfl reconnect_enabled, ?_, ?_⟩
  · rfl
  · decide +kernel

/-- The phone connects again after its first connection was given up. -/
def Sample.comeBack : List Act :=
  Sample.pair 0 (Sample.addr 2) Sample.phoneKey ++ Sample.hangUp 0 ++ Sample.turns 3 ++
    Sample.connect 1 (Sample.addr 2) Sample.phoneKey ++ Sample.greet 1 Sample.phone none ++ Sample.turns 5

open Sample in
theorem comeBack_enabled : (exec (system cfg none empty) tidy [] (initial none empty) comeBack).isSome = true := by
  decide +kernel

open Sample in
theorem run_connected_exact_comeBack :
    let r := (exec (system cfg none empty) tidy [] (initial none empty) comeBack).get comeBack_enabled
    ConnectedExact r.1 r.2 ∧ r.2.connectedDevices.lookup phone = some 1 := by
  refine ⟨run_connected_exact (run_of_exec (fun _ _ _ h => h) rfl comeBack_enabled) ?_, ?_⟩
  · rfl
  · decide +kernel

end Daemon

end PenguinSync
