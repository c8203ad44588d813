import PenguinSync.Daemon.Authorization
import PenguinSync.Daemon.Identity
import PenguinSync.Daemon.Residue

/-!
# What is left of a device after `unpair`

`unpair` forgets the id, the entry and the object. What had asked for trust
before goes on: an entry in `connected_devices`, a handshake found paired or
confirmed, a clip past its check, the export at start-up. A call that returns
when there is nothing of the kind leaves nothing of the device behind, as long
as none of its sessions then serves under the name of another device.
-/

namespace PenguinSync

open Lts

namespace Daemon

/-- A handshake of `d` waits for an answer. -/
def Orchestrator.awaits (d : DeviceId) : Orchestrator → Bool
  | .handshake h (.awaiting _ _ none) => h.deviceId = d
  | _ => false

/-- A handshake of `d` is confirmed and will pin it. -/
def Orchestrator.pins (d : DeviceId) : Orchestrator → Bool
  | .handshake h (.awaiting _ _ (some true)) | .handshake h .pin => h.deviceId = d
  | _ => false

/-- The clip that was found to be of a paired device. -/
def Orchestrator.accepted? : Orchestrator → Option Received
  | .received _ .isPaired => none
  | .received r _ => some r
  | _ => none

/-- Whose session `i` is: the device with its key and those it claimed to be. -/
def owners (cfg : Config) (tr : List Obs) (s : Daemon) (i : Nat) : List DeviceId :=
  (s.identity cfg i).toList ++ tr.filterMap fun
    | .recorded k d => if k = i then some d else none
    | _ => none

/-- The sessions a clip may be sent to. -/
def handles (s : Daemon) : Multiset Nat :=
  s.connectedDevices.values + (Watch.targets s.watch).values + (Orchestrator.targets s.orchestrator).values

def Obs.unpairs (d : DeviceId) : Obs → Bool
  | .unpaired _ id => id = d
  | _ => false

/-- An `unpair` of `d` returned, and `d` was not confirmed since. -/
def Gone (tr : List Obs) (d : DeviceId) : Prop := Since (Obs.unpairs d · = true) (· = .confirmed d true) tr

instance (tr : List Obs) (d : DeviceId) : Decidable (Gone tr d) := inferInstanceAs (Decidable (Since _ _ tr))

/-- No confirmed pairing overlaps with an `unpair` of the device, when one returns
nothing that the device was trusted with is under way, and afterwards none of
its sessions is promoted, held or heard as another device. -/
def revocable (cfg : Config) (tr : List Obs) (s : Daemon) : Act → Bool
  | .confirmPairing hex true =>
    match fromHex hex with
    | some d => Orchestrator.awaits d s.orchestrator → ∀ u ∈ s.unpairs, u.id = d → u.pc = .unpin
    | none => true
  | .unpairStep k _ =>
    match s.unpairs[k]? with
    | some ⟨_, d, .unpin⟩ => !Orchestrator.pins d s.orchestrator
    | some ⟨_, d, .removeObject⟩ =>
      s.reaches d = false ∧ ¬ s.Awaits d ∧ (∀ i ∈ s.handles, ∀ e ∈ owners cfg tr s i, e ≠ d) ∧
        ∀ r ∈ Orchestrator.accepted? s.orchestrator, r.sender ≠ d ∧ ∀ e ∈ owners cfg tr s r.session, e ≠ d
    | _ => true
  | .orchestrate .. =>
    match s.orchestrator, s.queue with
    | .idle, (i, .session _ (.peerHandshake d ..)) :: _ => Gone tr d → i ∉ s.handles
    | .handshake h .promote, _ => ∀ k ∈ s.remoteHandles.lookup h.remote, ∀ d ∈ owners cfg tr s k, ¬ Gone tr d
    | .received r .isPaired, _ =>
      r.sender ∈ s.trust.paired → r.clip.mime = mimeTextPlain → ∀ d ∈ owners cfg tr s r.session, ¬ Gone tr d
    | _, _ => true
  | _ => true

/-- Nothing goes to a session of `d`, and nothing of one is let through. -/
structure Revoked (cfg : Config) (tr : List Obs) (s : Daemon) (d : DeviceId) : Prop where
  disconnected : d ∉ s.connectedDevices
  unheld : ∀ e i, s.connectedDevices.lookup e = some i → d ∉ owners cfg tr s i
  unexported : d ∉ s.objects
  unsent : ∀ a s' os, step cfg s a = some (s', os) → ∀ loop e i c, .handed loop e i c ∈ os →
    e ≠ d ∧ d ∉ owners cfg tr s i
  unapplied : ∀ a s' os, step cfg s a = some (s', os) → ∀ e c, .applied e c ∈ os →
    ∃ r pc, s.orchestrator = .received r pc ∧ r.clip = c ∧ r.sender ≠ d ∧ d ∉ owners cfg tr s r.session
  unrelayed : ∀ a s' os, step cfg s a = some (s', os) → ∀ e i c, .handed .received e i c ∈ os →
    ∃ r pc, s.orchestrator = .received r pc ∧ r.clip = c ∧ r.sender ≠ d ∧ d ∉ owners cfg tr s r.session

/-- `d` is not in the trust store, and nothing is about to pin it. -/
structure Unpinned (s : Daemon) (d : DeviceId) : Prop where
  unpaired : d ∉ s.trust.paired
  unconfirmed : Orchestrator.pins d s.orchestrator = false

section
variable {cfg : Config} {s s' : Daemon} {tr os : List Obs} {a : Act} {i : Nat} {d : DeviceId}

/-! ## Sessions -/

theorem mem_owners : d ∈ owners cfg tr s i ↔ s.identity cfg i = some d ∨ .recorded i d ∈ tr := by
  unfold owners
  rw [List.mem_append, Option.mem_toList, List.mem_filterMap]
  refine or_congr Iff.rfl ⟨?_, fun h => ⟨_, h, if_pos rfl⟩⟩
  rintro ⟨o, ho, h⟩
  split at h
  · split at h
    · rename_i hk
      cases h
      exact hk ▸ ho
    · cases h
  · cases h

theorem mem_handles : i ∈ s.handles ↔ ∃ e, s.Sends e i := by
  unfold handles Sends
  simp only [Multiset.mem_add, HashMap.mem_values, exists_or, or_assoc]

variable (cfg) in
theorem identity_isSome (h : (s.remoteOf i).isSome = true) : (s.identity cfg i).isSome = true := by
  unfold remoteOf peers at h
  unfold identity keys
  rw [List.getElem?_map, Option.isSome_map, Option.isSome_map] at h
  rw [List.getElem?_map, Option.isSome_map, Option.isSome_map]
  exact h

/-- A session that has connected comes to be of another device by a handshake only. -/
theorem owners_step (h : step cfg s a = some (s', os)) (hi : (s.remoteOf i).isSome = true)
    (hd : d ∈ owners cfg (tr ++ os) s' i) : d ∈ owners cfg tr s i ∨ .recorded i d ∈ os := by
  rcases mem_owners.mp hd with hd | hd
  · obtain ⟨d', hd'⟩ := Option.isSome_iff_exists.mp (identity_isSome cfg hi)
    obtain rfl := Option.some.inj (hd.symm.trans (identity_step h hd'))
    exact Or.inl (mem_owners.mpr (Or.inl hd'))
  · rcases List.mem_append.mp hd with hd | hd
    · exact Or.inl (mem_owners.mpr (Or.inr hd))
    · exact Or.inr hd

/-! ## Pins need a confirmation -/

theorem early_pins {o : Orchestrator} (h : early o) : Orchestrator.pins d o = false := by
  unfold early at h
  split at h <;> first | rfl | exact h.elim | skip
  unfold Orchestrator.pins
  split <;> simp_all

theorem handshakeStep_pins {h : Handling} {pc : HandshakePc} {ok : Bool}
    (hs : s.handshakeStep h ok pc = some (s', os)) (hx : Orchestrator.pins d s'.orchestrator = true) :
    Orchestrator.pins d (.handshake h pc) = true := by
  cases pc with
  | isPaired =>
    simp only [handshakeStep] at hs
    split at hs
    · cases hs; cases hx
    · split at hs <;> (cases hs; cases hx)
  | redeem presented =>
    simp only [handshakeStep] at hs
    split at hs
    · cases hs; cases hx
    · split at hs <;> (cases hs; cases hx)
  | awaiting ch deadline ans =>
    cases ans with
    | none =>
      simp only [handshakeStep, Option.ite_none_right_eq_some] at hs
      obtain ⟨-, hs⟩ := hs
      cases hs; cases hx
    | some accept =>
      cases accept with
      | false => cases hs; cases hx
      | true => cases hs; exact hx
  | ensureObject =>
    cases hs
    simp only [Daemon.handshake] at hx
    split at hx <;> cases hx
  | promote =>
    simp only [handshakeStep] at hs
    split at hs <;> (cases hs; cases hx)
  | persist =>
    simp only [handshakeStep, persistState_eq] at hs
    cases hs; cases hx
  | _ => cases hs; cases hx

/-- What is about to be pinned was so before, or has just been confirmed. -/
theorem pins_step (hw : WaitingInv s.pendingConfirmations s.orchestrator) (h : step cfg s a = some (s', os))
    (hx : Orchestrator.pins d s'.orchestrator = true) :
    Orchestrator.pins d s.orchestrator = true ∨
      Orchestrator.awaits d s.orchestrator = true ∧ .confirmed d true ∈ os := by
  cases step_pairing h with
  | other _ ho _ =>
    rcases ho with ho | ho
    · exact Or.inl (ho ▸ hx)
    · rw [early_pins ho] at hx
      cases hx
  | tokenSet _ _ _ _ _ hs => subst hs; exact Or.inl hx
  | unknown _ _ _ hs => subst hs; exact Or.inl hx
  | answered id accept channel hl hs =>
    subst hs
    rcases answer_cases channel accept s.orchestrator with ha | ⟨hh, deadline, ho, ha⟩
    · exact Or.inl (ha ▸ hx)
    · have hid : id = hh.deviceId := hw hh channel deadline none ho id hl
      simp only [ha] at hx
      cases accept with
      | false => cases hx
      | true =>
        have hd : hh.deviceId = d := of_decide_eq_true hx
        refine Or.inr ⟨?_, ?_⟩
        · rw [ho]
          exact hx
        · rw [hid, hd]
          exact List.mem_singleton_self _
  | unpairCalled _ hs => subst hs; exact Or.inl hx
  | unpairStep k ok hs =>
    rw [(unpairStep_move hs).orchestrator] at hx
    exact Or.inl hx
  | handshake hh pc ok ho hs =>
    rw [ho]
    exact Or.inl (handshakeStep_pins hs hx)

theorem Unpinned.step (hi : Unpinned s d) (hw : WaitingInv s.pendingConfirmations s.orchestrator)
    (h : step cfg s a = some (s', os)) (hc : Orchestrator.awaits d s.orchestrator = true → .confirmed d true ∉ os) :
    Unpinned s' d where
  unpaired := by
    intro hd
    cases step_paired h with
    | same hp _ _ =>
      rw [hp] at hd
      exact hi.unpaired hd
    | pinned hh ho hp =>
      rw [hp] at hd
      rcases Finset.mem_insert.mp hd with rfl | hd
      · have := hi.unconfirmed
        rw [ho] at this
        simp [Orchestrator.pins] at this
      · exact hi.unpaired hd
    | unpinned k call id _ hp =>
      rw [hp] at hd
      exact hi.unpaired (Finset.mem_of_mem_erase hd)
  unconfirmed := by
    by_contra hx
    rcases pins_step hw h (by simpa using hx) with hx | ⟨ha, ho⟩
    · rw [hi.unconfirmed] at hx
      cases hx
    · exact hc ha ho

/-! ## Objects and clips need trust -/

theorem handshakeStep_objects {h : Handling} {pc : HandshakePc} {ok : Bool}
    (hs : s.handshakeStep h ok pc = some (s', os)) (hx : d ∈ s'.objects) :
    d ∈ s.objects ∨ Orchestrator.trusts d (.handshake h pc) = true := by
  cases pc with
  | isPaired =>
    simp only [handshakeStep] at hs
    split at hs
    · cases hs; exact Or.inl hx
    · split at hs <;> (cases hs; exact Or.inl hx)
  | redeem presented =>
    simp only [handshakeStep] at hs
    split at hs
    · cases hs; exact Or.inl hx
    · split at hs <;> (cases hs; exact Or.inl hx)
  | awaiting ch deadline ans =>
    cases ans with
    | none =>
      simp only [handshakeStep, Option.ite_none_right_eq_some] at hs
      obtain ⟨-, hs⟩ := hs
      cases hs; exact Or.inl hx
    | some accept => cases accept <;> (cases hs; exact Or.inl hx)
  | persist =>
    simp only [handshakeStep, persistState_eq] at hs
    cases hs; exact Or.inl hx
  | createObject =>
    cases hs
    simp only [Daemon.handshake] at hx
    split at hx
    · exact Or.inl hx
    · rcases (Finmap.mem_insert).mp hx with rfl | hx
      · exact Or.inr (by simp [Orchestrator.trusts, HandshakePc.trusted])
      · exact Or.inl hx
  | setConnected =>
    cases hs
    exact Or.inl (mem_setConnected.mp hx)
  | promote =>
    simp only [handshakeStep] at hs
    split at hs <;> (cases hs; exact Or.inl hx)
  | _ => cases hs; exact Or.inl hx

theorem objects_step (h : step cfg s a = some (s', os)) (hx : d ∈ s'.objects) :
    d ∈ s.objects ∨ Orchestrator.trusts d s.orchestrator = true ∨ s.Awaits d := by
  cases ha : a.task with
  | net =>
    obtain ⟨⟨_, _, _, rfl⟩, -⟩ := net_frame h ha
    exact Or.inl hx
  | clipboard =>
    obtain ⟨⟨_, _, _, _, _, _, rfl⟩, -, -⟩ := clipboard_frame h ha
    exact Or.inl hx
  | bus =>
    obtain ⟨⟨_, _, _, _, _, _, _, _, _, _, _, rfl, -, hobj⟩, -⟩ := bus_frame h ha
    rcases hobj with rfl | ⟨id, rfl⟩ | ⟨id, o, hw, -, -, rfl⟩
    · exact Or.inl hx
    · exact Or.inl (Finmap.mem_erase.mp hx).2
    · rcases Finmap.mem_insert.mp hx with rfl | hx
      · exact Or.inr (Or.inr hw)
      · exact Or.inl hx
  | orchestrator =>
    cases a with
    | orchestrate ok target =>
      cases orchestrate_turn h with
      | taken j e rest _ _ hd =>
        obtain ⟨⟨_, _, _, rfl⟩, -⟩ := dispatch_frame hd
        exact Or.inl hx
      | handshake hh pc ho hs =>
        rw [ho]
        exact (handshakeStep_objects hs hx).imp_right Or.inl
      | received r pc _ hr =>
        obtain ⟨⟨_, _, _, _, _, rfl, -⟩, -, -⟩ := receivedStep_frame hr
        exact Or.inl hx
      | closed id pc _ hc =>
        subst hc
        cases pc with
        | disconnect => exact Or.inl hx
        | setConnected => exact Or.inl (mem_setConnected.mp hx)
    | _ => cases ha

theorem accepted_received {r : Received} {pc : ReceivedPc} (h : pc ≠ .isPaired) :
    Orchestrator.accepted? (.received r pc) = some r := by
  cases pc with
  | isPaired => exact absurd rfl h
  | _ => rfl

theorem accepted_orchestrator {o : Orchestrator} {r : Received} (h : Orchestrator.accepted? o = some r) :
    ∃ pc, pc ≠ .isPaired ∧ o = .received r pc := by
  unfold Orchestrator.accepted? at h
  split at h
  · cases h
  · rename_i r' pc hpc
    cases h
    exact ⟨pc, hpc, rfl⟩
  · cases h

/-- Only the orchestrator turns away from a clip. -/
theorem received_stays {r : Received} {pc : ReceivedPc} (h : step cfg s a = some (s', os))
    (ho : s.orchestrator = .received r pc) : s'.orchestrator = .received r pc ∨ ∃ ok target, a = .orchestrate ok target := by
  cases ha : a.task with
  | net =>
    obtain ⟨⟨_, _, _, rfl⟩, -⟩ := net_frame h ha
    exact Or.inl ho
  | clipboard =>
    obtain ⟨⟨_, _, _, _, _, _, rfl⟩, -, -⟩ := clipboard_frame h ha
    exact Or.inl ho
  | bus =>
    obtain ⟨⟨_, _, _, _, _, _, _, _, _, _, _, rfl, hor, -⟩, -⟩ := bus_frame h ha
    rcases hor with rfl | ⟨channel, accept, rfl⟩
    · exact Or.inl ho
    · rcases answer_cases channel accept s.orchestrator with he | ⟨_, _, hh, -⟩
      · exact Or.inl (he.trans ho)
      · cases ho.symm.trans hh
  | orchestrator =>
    cases a with
    | orchestrate ok target => exact Or.inr ⟨ok, target, rfl⟩
    | _ => cases ha

/-- A clip is past the check once its sender was found paired. -/
theorem accepted?_step {r : Received} (h : step cfg s a = some (s', os))
    (hx : Orchestrator.accepted? s'.orchestrator = some r) :
    Orchestrator.accepted? s.orchestrator = some r ∨ s.orchestrator = .received r .isPaired ∧
      (∃ ok target, a = .orchestrate ok target) ∧ r.sender ∈ s.trust.paired ∧ r.clip.mime = mimeTextPlain := by
  obtain ⟨pc', hpc', ho'⟩ := accepted_orchestrator hx
  rcases received_step h ho' with ⟨pc, ho⟩ | ⟨rfl, -⟩
  · by_cases hp : pc = .isPaired
    · subst hp
      rcases received_stays h ho with hs | ⟨ok, target, rfl⟩
      · cases hs.symm.trans ho'
        exact absurd rfl hpc'
      · simp only [step, orchestrate, ho] at h
        cases receivedStep_move h with
        | accepts hs hm => exact Or.inr ⟨ho, ⟨ok, target, rfl⟩, hs, hm⟩
        | drops _ => cases ho'
    · rw [ho]
      exact Or.inl (accepted_received hp)
  · exact absurd rfl hpc'

/-! ## Every run -/

/-- No trace of `d` is left that would be acted on. -/
structure Parted (cfg : Config) (tr : List Obs) (s : Daemon) (d : DeviceId) : Prop where
  unreached : s.reaches d = false
  unawaited : ¬ s.Awaits d
  unexported : d ∉ s.objects
  unheld : ∀ e i, s.Sends e i → d ∉ owners cfg tr s i
  unaccepted : ∀ r, Orchestrator.accepted? s.orchestrator = some r → r.sender ≠ d ∧ d ∉ owners cfg tr s r.session

theorem Parted.reaches_step (hi : Parted cfg tr s d) (hd : d ∉ s'.trust.paired) (h : step cfg s a = some (s', os)) :
    s'.reaches d = false := by
  by_contra hx
  rcases Daemon.reaches_step h (by simpa using hx) with hx | hx
  · rw [hi.unreached] at hx
    cases hx
  · exact hd hx

theorem Parted.objects_step (hi : Parted cfg tr s d) (h : step cfg s a = some (s', os)) : d ∉ s'.objects := by
  intro hx
  rcases Daemon.objects_step h hx with hx | hx | hx
  · exact hi.unexported hx
  · have hr := hi.unreached
    rw [reaches_iff.mpr (Or.inr hx)] at hr
    cases hr
  · exact hi.unawaited hx

theorem Parted.sends_step {e : DeviceId} (hi : Parted cfg tr s d) (hlive : ∀ e i, s.Sends e i → (s.remoteOf i).isSome = true)
    (hhandle : ∀ remote j, s.remoteHandles.lookup remote = some j → s.remoteOf j = some remote) (hg : Gone tr d)
    (hc : revocable cfg tr s a = true) (h : step cfg s a = some (s', os)) (hx : s'.Sends e i) :
    d ∉ owners cfg (tr ++ os) s' i := by
  intro hd
  rcases Daemon.sends_step h hx with hx | ⟨hh, ho, -, hk, rfl⟩
  · rcases owners_step h (hlive e i hx) hd with hd | hd
    · exact hi.unheld e i hx hd
    · -- a session that is held claims to be `d`
      obtain ⟨ok, target, remote, name, caps, token, rest, rfl, ho, hq⟩ := recorded_step h hd
      simp only [revocable, ho, hq, decide_eq_true_eq] at hc
      exact hc hg (mem_handles.mpr ⟨e, hx⟩)
  · obtain ⟨ok, target, -, rfl, -⟩ := promoted_step h (List.mem_singleton_self _)
    rcases owners_step h (by rw [hhandle _ _ hk]; rfl) hd with hd | hd
    · simp only [revocable, ho, decide_eq_true_eq] at hc
      exact hc i hk d hd hg
    · simp at hd

theorem Parted.accepted_step {r : Received} (hi : Parted cfg tr s d) (hd : d ∉ s.trust.paired)
    (hlive : ∀ r pc, s.orchestrator = .received r pc → (s.remoteOf r.session).isSome = true) (hg : Gone tr d)
    (hc : revocable cfg tr s a = true) (h : step cfg s a = some (s', os))
    (hx : Orchestrator.accepted? s'.orchestrator = some r) : r.sender ≠ d ∧ d ∉ owners cfg (tr ++ os) s' r.session := by
  have hold : ∀ pc, s.orchestrator = .received r pc → d ∈ owners cfg (tr ++ os) s' r.session →
      d ∈ owners cfg tr s r.session := by
    intro pc ho hd
    rcases owners_step h (hlive r pc ho) hd with hd | hd
    · exact hd
    · obtain ⟨ok, target, remote, name, caps, token, rest, rfl, ho', -⟩ := recorded_step h hd
      cases ho.symm.trans ho'
  rcases accepted?_step h hx with hx | ⟨ho, ⟨ok, target, rfl⟩, hp, hm⟩
  · obtain ⟨pc, -, ho⟩ := accepted_orchestrator hx
    obtain ⟨hs, hn⟩ := hi.unaccepted r hx
    exact ⟨hs, fun hd => hn (hold pc ho hd)⟩
  · refine ⟨fun he => hd (he ▸ hp), fun hd => ?_⟩
    simp only [revocable, ho, decide_eq_true_eq] at hc
    exact hc hp hm d (hold _ ho hd) hg

structure RevokedInv (cfg : Config) (tr : List Obs) (s : Daemon) : Prop where
  inFlight : ∀ u ∈ s.unpairs, u.pc ≠ .unpin → Unpinned s u.id
  since : ∀ d, Gone tr d → Unpinned s d ∧ Parted cfg tr s d

/-- A call past its `unpin` stays so, as no confirmation may get in its way. -/
theorem RevokedInv.flying (hi : RevokedInv cfg tr s) (hw : WaitingInv s.pendingConfirmations s.orchestrator)
    (hc : revocable cfg tr s a = true) (h : step cfg s a = some (s', os)) :
    ∀ u ∈ s.unpairs, u.pc ≠ .unpin → Unpinned s' u.id := by
  intro u hu hp
  refine (hi.inFlight u hu hp).step hw h fun ha ho => ?_
  obtain ⟨hex, rfl, hd⟩ := confirmed_step h ho
  simp only [revocable, hd, decide_eq_true_eq] at hc
  exact hp (hc ha u hu rfl)

theorem RevokedInv.inFlight_step (hi : RevokedInv cfg tr s) (hw : WaitingInv s.pendingConfirmations s.orchestrator)
    (hc : revocable cfg tr s a = true) (h : step cfg s a = some (s', os)) :
    ∀ u ∈ s'.unpairs, u.pc ≠ .unpin → Unpinned s' u.id := by
  intro u hu hp
  have hfly := hi.flying hw hc h
  cases unpairs_step h hu with
  | kept hu => exact hfly u hu hp
  | made _ hpc _ => exact absurd hpc hp
  | unpinned k ok ha hk _ ht ho =>
    subst ha
    simp only [revocable, hk, Bool.not_eq_true'] at hc
    refine ⟨fun hm => ?_, ?_⟩
    · rw [ht] at hm
      exact (Finset.mem_erase.mp hm).1 rfl
    · rw [(unpairStep_move h).orchestrator]
      exact hc
  | removed k ok ha hk _ _ _ => exact hfly ⟨u.call, u.id, .remove⟩ (List.mem_of_getElem? hk) (by simp)
  | saved k ok ha hk _ _ _ => exact hfly ⟨u.call, u.id, .persist⟩ (List.mem_of_getElem? hk) (by simp)

theorem parted_unpaired {call : Nat} (hlive : ∀ e i, s.Sends e i → (s.remoteOf i).isSome = true)
    (hhand : ∀ r pc, s.orchestrator = .received r pc → (s.remoteOf r.session).isSome = true)
    (hc : revocable cfg tr s a = true) (h : step cfg s a = some (s', os)) (ho : .unpaired call d ∈ os) :
    Parted cfg (tr ++ os) s' d := by
  obtain ⟨k, ok, rfl, hk, hs'⟩ := unpaired_step h ho
  simp only [revocable, hk, decide_eq_true_eq] at hc
  obtain ⟨hr, hw, hheld, hacc⟩ := hc
  have hown : ∀ {i}, (s.remoteOf i).isSome = true → d ∉ owners cfg tr s i → d ∉ owners cfg (tr ++ os) s' i := by
    intro i hi hn hd
    rcases owners_step h hi hd with hd | hd
    · exact hn hd
    · obtain ⟨_, _, _, _, _, _, _, hx, -⟩ := recorded_step h hd
      cases hx
  have hsends : ∀ {e i}, s'.Sends e i → s.Sends e i := fun hx => by rwa [hs'] at hx
  have hor : s'.orchestrator = s.orchestrator := by rw [hs']
  refine ⟨by rw [hs']; exact hr, by rw [hs']; exact hw, fun hm => ?_, fun e i hx => ?_, fun r hx => ?_⟩
  · rw [hs'] at hm
    exact (Finmap.mem_erase.mp hm).1 rfl
  · exact hown (hlive e i (hsends hx)) fun hd => hheld i (mem_handles.mpr ⟨e, hsends hx⟩) d hd rfl
  · rw [hor] at hx
    obtain ⟨pc, -, hrec⟩ := accepted_orchestrator hx
    obtain ⟨hs, hn⟩ := hacc r hx
    exact ⟨hs, hown (hhand r pc hrec) fun hd => hn d hd rfl⟩

variable {file : Option PersistedState} {clipboard : Content}

theorem run_revokedInv (h : Run (system cfg file clipboard) (revocable cfg · · · = true) tr s) :
    RevokedInv cfg tr s := by
  refine h.invariant (fun s h0 => ?_) (fun tr s a s' os hr hi hc hs => ?_)
  · rw [h0]
    exact ⟨fun u hu => by simp [initial] at hu, fun d hs => absurd hs not_since_nil⟩
  · have hw := (run_pairing hr).waiting
    have hfly := hi.flying hw hc hs
    refine ⟨hi.inFlight_step hw hc hs, fun d hg => ?_⟩
    rcases since_append.mp hg with ⟨pre, o, post, rfl, ho, -⟩ | ⟨hg, hn⟩
    · unfold Obs.unpairs at ho
      split at ho
      · rename_i call id
        obtain rfl : id = d := of_decide_eq_true ho
        have hmem : .unpaired call id ∈ pre ++ .unpaired call id :: post :=
          List.mem_append_right _ (List.mem_cons_self ..)
        obtain ⟨k, ok, rfl, hk, -⟩ := unpaired_step hs hmem
        exact ⟨hfly ⟨call, id, .removeObject⟩ (List.mem_of_getElem? hk) (by simp),
          parted_unpaired (run_sends hr) (run_received hr) hc hs hmem⟩
      · cases ho
    · obtain ⟨hu, hp⟩ := hi.since d hg
      have hu' := hu.step hw hs fun _ hm => hn _ hm rfl
      exact ⟨hu',
        { unreached := hp.reaches_step hu'.unpaired hs
          unawaited := fun hx => hp.unawaited (awaits_step hs hx)
          unexported := hp.objects_step hs
          unheld := fun e i hx => hp.sends_step (run_sends hr) (fun remote j hk => ((run_live hr).handle remote j hk).1)
            hg hc hs hx
          unaccepted := fun r hx => hp.accepted_step hu.unpaired (run_received hr) hg hc hs hx }⟩

theorem receivedStep_applied {r : Received} {pc : ReceivedPc} {ok : Bool} {target : DeviceId} {c : Clip}
    (h : s.receivedStep r ok target pc = some (s', os)) (ho : .applied d c ∈ os) :
    pc = .write ∧ r.sender = d ∧ r.clip = c := by
  cases pc with
  | isPaired =>
    simp only [receivedStep] at h
    split at h <;> (cases h; simp at ho)
  | shouldBroadcast =>
    simp only [receivedStep] at h
    split at h <;> (cases h; simp at ho)
  | write =>
    simp only [receivedStep] at h
    split at h
    · cases h
      simp only [List.mem_singleton, Obs.applied.injEq] at ho
      obtain ⟨rfl, rfl⟩ := ho
      exact ⟨rfl, rfl, rfl⟩
    · cases h; simp at ho
  | handles =>
    cases h
    simp at ho
  | relay rest =>
    simp only [receivedStep] at h
    split at h
    · cases h; simp at ho
    · split at h <;> (cases h; try simp at ho)

end

/-- The phone is connected when it is unpaired, and then a text is copied. -/
def Sample.unpairConnected : List Act :=
  Sample.pair 0 (Sample.addr 2) Sample.phoneKey ++ Sample.unpairAll Sample.phone true ++
    [.probe, .copy ⟨mimeTextPlain, [65]⟩] ++ List.replicate 4 (.watch true Sample.phone)

open Sample in
theorem unpairConnected_enabled :
    (exec (system cfg none empty) anyway [] (initial none empty) unpairConnected).isSome = true := by
  decide +kernel

/-- The phone has hung up when it is unpaired. -/
def Sample.unpairGone : List Act :=
  Sample.pair 0 (Sample.addr 2) Sample.phoneKey ++ Sample.hangUp 0 ++ Sample.turns 3 ++
    Sample.unpairAll Sample.phone true

open Sample in
theorem unpairGone_enabled :
    (exec (system cfg none empty) (revocable cfg) [] (initial none empty) unpairGone).isSome = true := by
  decide +kernel

end Daemon

end PenguinSync
