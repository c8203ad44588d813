import PenguinSync.Daemon.Calls

/-!
# Whom the loops may send to

A clip for a device goes to the handle of its entry in `connected_devices`, or
of the copy of that map a loop took. An entry is made only by a handshake that
found the device paired or has just pinned it.
-/

namespace PenguinSync

open Lts

namespace Daemon

/-- The handshake is past the question whether the device is trusted. -/
def HandshakePc.trusted : HandshakePc → Bool
  | .closeWindow | .upsert | .persist | .ensureObject | .createObject | .setConnected | .promote => true
  | _ => false

def Orchestrator.trusts (d : DeviceId) : Orchestrator → Bool
  | .handshake h pc => h.deviceId = d && HandshakePc.trusted pc
  | _ => false

/-- Whom the clip in hand is still to be sent to. -/
def Watch.targets : Watch → HashMap DeviceId Nat
  | .sending _ rest => rest
  | _ => ∅

def Orchestrator.targets : Orchestrator → HashMap DeviceId Nat
  | .received _ (.relay rest) => rest
  | _ => ∅

/-- Sent to `d`, a clip would go to session `i`. -/
def Sends (s : Daemon) (d : DeviceId) (i : Nat) : Prop :=
  s.connectedDevices.lookup d = some i ∨ (Watch.targets s.watch).lookup d = some i ∨
    (Orchestrator.targets s.orchestrator).lookup d = some i

/-- The daemon acts, or is about to act, on an earlier decision to trust `d`. -/
def reaches (s : Daemon) (d : DeviceId) : Bool :=
  d ∈ s.connectedDevices ∨ d ∈ Watch.targets s.watch ∨ d ∈ Orchestrator.targets s.orchestrator ∨
    Orchestrator.trusts d s.orchestrator = true

theorem reaches_iff {s : Daemon} {d : DeviceId} :
    s.reaches d = true ↔ (∃ i, s.Sends d i) ∨ Orchestrator.trusts d s.orchestrator = true := by
  unfold reaches Sends
  simp only [decide_eq_true_eq, HashMap.mem_iff, exists_or, or_assoc]

section
variable {cfg : Config} {s s' : Daemon} {a : Act} {os : List Obs} {d : DeviceId} {i : Nat}

theorem answer_targets (channel : Nat) (accept : Bool) (o : Orchestrator) :
    Orchestrator.targets (answer channel accept o) = Orchestrator.targets o := by
  rcases answer_cases channel accept o with h | ⟨_, _, rfl, h⟩
  · rw [h]
  · rw [h]
    rfl

theorem answer_trusts (channel : Nat) (accept : Bool) (o : Orchestrator) :
    Orchestrator.trusts d (answer channel accept o) = Orchestrator.trusts d o := by
  rcases answer_cases channel accept o with h | ⟨_, _, rfl, h⟩
  · rw [h]
  · rw [h]
    rfl

theorem watchStep_targets {ok : Bool} {target : DeviceId} (h : s.watchStep cfg ok target = some (s', os))
    (hx : (Watch.targets s'.watch).lookup d = some i) :
    s.connectedDevices.lookup d = some i ∨ (Watch.targets s.watch).lookup d = some i := by
  unfold watchStep at h
  cases hw : s.watch with
  | off => simp only [hw, reduceCtorEq] at h
  | idle =>
    simp only [hw] at h
    split at h
    · cases h
    · split at h
      · cases h
        exact Or.inr (hw ▸ hx)
      · cases h; simp [Watch.targets] at hx
  | reading mime =>
    simp only [hw] at h
    split at h
    · split at h <;> (cases h; simp [Watch.targets] at hx)
    · cases h; simp [Watch.targets] at hx
  | checking c =>
    simp only [hw] at h
    split at h <;> (cases h; simp [Watch.targets] at hx)
  | handles c =>
    simp only [hw] at h
    cases h
    exact Or.inl hx
  | sending c rest =>
    simp only [hw] at h
    split at h
    · cases h; simp [Watch.targets] at hx
    · split at h
      · cases h
      · cases h
        exact Or.inr (HashMap.lookup_erase_some.mp hx).2

theorem receivedStep_targets {r : Received} {pc : ReceivedPc} {ok : Bool} {target : DeviceId}
    (h : s.receivedStep r ok target pc = some (s', os)) (ho : s.orchestrator = .received r pc)
    (hx : (Orchestrator.targets s'.orchestrator).lookup d = some i) :
    s.connectedDevices.lookup d = some i ∨ (Orchestrator.targets s.orchestrator).lookup d = some i := by
  cases pc with
  | isPaired =>
    simp only [receivedStep] at h
    split at h <;> (cases h; simp [Orchestrator.targets] at hx)
  | shouldBroadcast =>
    simp only [receivedStep] at h
    split at h <;> (cases h; simp [Orchestrator.targets] at hx)
  | write =>
    simp only [receivedStep] at h
    split at h <;> (cases h; simp [Orchestrator.targets] at hx)
  | handles =>
    cases h
    exact Or.inl (HashMap.lookup_erase_some.mp hx).2
  | relay rest =>
    simp only [receivedStep] at h
    rw [ho]
    split at h
    · cases h; simp [Orchestrator.targets] at hx
    · split at h
      · cases h
      · cases h
        exact Or.inr (HashMap.lookup_erase_some.mp hx).2

/-- Taking an event, the orchestrator sends to nobody and trusts nobody yet. -/
theorem dispatch_targets {j : Nat} {e : ListenerEvent} (h : s.dispatch j e = (s', os)) (ho : s.orchestrator = .idle) :
    Orchestrator.targets s'.orchestrator = ∅ ∧ Orchestrator.trusts d s'.orchestrator = false := by
  cases e with
  | connected remote handle =>
    cases h
    rw [ho]
    exact ⟨rfl, rfl⟩
  | session remote ev =>
    cases ev with
    | peerHandshake deviceId name caps token =>
      cases h
      simp [Daemon.handshake, Orchestrator.targets, Orchestrator.trusts, HandshakePc.trusted]
    | ponged rtt =>
      cases h
      rw [ho]
      exact ⟨rfl, rfl⟩
    | clipboardReceived clip =>
      simp only [dispatch] at h
      split at h
      · cases h
        exact ⟨rfl, rfl⟩
      · cases h
        rw [ho]
        exact ⟨rfl, rfl⟩
    | closed r =>
      cases h
      simp only
      split <;> exact ⟨rfl, rfl⟩

/-- A handshake gains trust where it finds the device paired or pins it, and
makes an entry with its last step only. -/
theorem handshakeStep_reach {h : Handling} {pc : HandshakePc} {ok : Bool}
    (hs : s.handshakeStep h ok pc = some (s', os)) :
    Orchestrator.targets s'.orchestrator = ∅ ∧
      (Orchestrator.trusts d s'.orchestrator = true →
        h.deviceId = d ∧ (HandshakePc.trusted pc = true ∨ d ∈ s'.trust.paired)) ∧
      (s'.connectedDevices.lookup d = some i → s.connectedDevices.lookup d = some i ∨
        pc = .promote ∧ h.deviceId = d ∧ s.remoteHandles.lookup h.remote = some i ∧
          os = [.promoted h.session d i]) := by
  have hidle : ∀ {P : Prop}, Orchestrator.trusts d .idle = true → P := fun h => nomatch h
  have hkeep : ∀ {pc'}, Orchestrator.trusts d (.handshake h pc') = true →
      h.deviceId = d ∧ HandshakePc.trusted pc' = true := by
    intro pc' ht
    simpa [Orchestrator.trusts] using ht
  have hnot : ∀ {pc'} {P : Prop}, HandshakePc.trusted pc' = false → Orchestrator.trusts d (.handshake h pc') = true → P := by
    intro pc' P hf ht
    rw [(hkeep ht).2] at hf
    cases hf
  cases pc with
  | isPaired =>
    simp only [handshakeStep] at hs
    split at hs
    · rename_i hp
      cases hs
      refine ⟨rfl, fun ht => ⟨(hkeep ht).1, Or.inr ?_⟩, Or.inl⟩
      rw [← (hkeep ht).1]
      exact of_decide_eq_true hp
    · split at hs
      · cases hs; exact ⟨rfl, hidle, Or.inl⟩
      · cases hs; exact ⟨rfl, hnot rfl, Or.inl⟩
  | redeem presented =>
    simp only [handshakeStep] at hs
    split at hs
    · cases hs; exact ⟨rfl, hidle, Or.inl⟩
    · split at hs
      · cases hs; exact ⟨rfl, hnot rfl, Or.inl⟩
      · cases hs; exact ⟨rfl, hidle, Or.inl⟩
  | awaiting ch deadline ans =>
    cases ans with
    | none =>
      simp only [handshakeStep, Option.ite_none_right_eq_some] at hs
      obtain ⟨-, hs⟩ := hs
      cases hs; exact ⟨rfl, hidle, Or.inl⟩
    | some accept =>
      cases accept with
      | false => cases hs; exact ⟨rfl, hidle, Or.inl⟩
      | true => cases hs; exact ⟨rfl, hnot rfl, Or.inl⟩
  | pairingRequested => cases hs; exact ⟨rfl, hnot rfl, Or.inl⟩
  | awaitConfirmation => cases hs; exact ⟨rfl, hnot rfl, Or.inl⟩
  | pin =>
    cases hs
    refine ⟨rfl, fun ht => ⟨(hkeep ht).1, Or.inr ?_⟩, Or.inl⟩
    rw [← (hkeep ht).1]
    exact Finset.mem_insert_self _ _
  | persist =>
    simp only [handshakeStep, persistState_eq] at hs
    cases hs; exact ⟨rfl, fun ht => ⟨(hkeep ht).1, Or.inl rfl⟩, Or.inl⟩
  | promote =>
    simp only [handshakeStep] at hs
    split at hs
    · rename_i k hk
      cases hs
      refine ⟨rfl, hidle, fun hx => ?_⟩
      rcases HashMap.lookup_insert_some.mp hx with ⟨rfl, rfl⟩ | ⟨-, hx⟩
      · exact Or.inr ⟨rfl, rfl, hk, rfl⟩
      · exact Or.inl hx
    · cases hs; exact ⟨rfl, hidle, Or.inl⟩
  | _ => cases hs; exact ⟨rfl, fun ht => ⟨(hkeep ht).1, Or.inl rfl⟩, Or.inl⟩

theorem sends_clipboard (h : step cfg s a = some (s', os)) (ha : a.task = .clipboard) (hx : s'.Sends d i) :
    s.Sends d i := by
  cases a with
  | watch ok target =>
    obtain ⟨⟨_, _, _, _, hs'⟩, -, -⟩ := watchStep_frame h
    rcases hx with hx | hx | hx
    · rw [hs'] at hx
      exact Or.inl hx
    · rcases watchStep_targets h hx with hx | hx
      · exact Or.inl hx
      · exact Or.inr (Or.inl hx)
    · rw [hs'] at hx
      exact Or.inr (Or.inr hx)
  | probe =>
    simp only [step, probe, Option.ite_none_left_eq_some, Option.some.injEq, Prod.mk.injEq] at h
    obtain ⟨-, rfl, -⟩ := h
    rcases hx with hx | hx | hx
    · exact Or.inl hx
    · simp [Watch.targets] at hx
    · exact Or.inr (Or.inr hx)
  | watchEnds =>
    simp only [step, watchEnds] at h
    split at h
    · cases h
      rcases hx with hx | hx | hx
      · exact Or.inl hx
      · simp [Watch.targets] at hx
      · exact Or.inr (Or.inr hx)
    · cases h
  | copy c =>
    cases h
    exact hx
  | notify =>
    cases h
    exact hx
  | _ => cases ha

/-- The orchestrator makes an entry as the last step of a handshake only. -/
theorem Turn.sends {ok : Bool} {target : DeviceId} (h : Turn s s' ok target os) (hx : s'.Sends d i) :
    s.Sends d i ∨ ∃ hh, s.orchestrator = .handshake hh .promote ∧ hh.deviceId = d ∧
      s.remoteHandles.lookup hh.remote = some i ∧ os = [.promoted hh.session d i] := by
  cases h with
  | taken j e rest ho hq hd =>
    left
    obtain ⟨ht, -⟩ := dispatch_targets (d := d) hd ho
    obtain ⟨⟨_, _, _, rfl⟩, -⟩ := dispatch_frame hd
    rcases hx with hx | hx | hx
    · exact Or.inl hx
    · exact Or.inr (Or.inl hx)
    · rw [ht] at hx
      simp at hx
  | handshake hh pc ho hs =>
    obtain ⟨ht, -, hc⟩ := handshakeStep_reach (d := d) (i := i) hs
    obtain ⟨⟨_, _, _, _, _, _, _, _, _, rfl, -⟩, -⟩ := handshakeStep_frame hs
    rcases hx with hx | hx | hx
    · rcases hc hx with hx | ⟨rfl, hd, hk, hos⟩
      · exact Or.inl (Or.inl hx)
      · exact Or.inr ⟨hh, ho, hd, hk, hos⟩
    · exact Or.inl (Or.inr (Or.inl hx))
    · rw [ht] at hx
      simp at hx
  | received r pc ho hr =>
    left
    obtain ⟨⟨_, _, _, _, _, hs', -⟩, -, -⟩ := receivedStep_frame hr
    rcases hx with hx | hx | hx
    · rw [hs'] at hx
      exact Or.inl hx
    · rw [hs'] at hx
      exact Or.inr (Or.inl hx)
    · rcases receivedStep_targets hr ho hx with hx | hx
      · exact Or.inl hx
      · exact Or.inr (Or.inr hx)
  | closed id pc ho hc =>
    subst hc
    left
    cases pc with
    | disconnect =>
      rcases hx with hx | hx | hx
      · exact Or.inl (HashMap.lookup_erase_some.mp hx).2
      · exact Or.inr (Or.inl hx)
      · simp [Orchestrator.targets, closedStep] at hx
    | setConnected =>
      rcases hx with hx | hx | hx
      · exact Or.inl hx
      · exact Or.inr (Or.inl hx)
      · simp [Orchestrator.targets, closedStep] at hx

theorem sends_step (h : step cfg s a = some (s', os)) (hx : s'.Sends d i) :
    s.Sends d i ∨ ∃ hh, s.orchestrator = .handshake hh .promote ∧ hh.deviceId = d ∧
      s.remoteHandles.lookup hh.remote = some i ∧ os = [.promoted hh.session d i] := by
  cases ha : a.task with
  | net =>
    obtain ⟨⟨_, _, _, rfl⟩, -⟩ := net_frame h ha
    exact Or.inl hx
  | clipboard => exact Or.inl (sends_clipboard h ha hx)
  | bus =>
    obtain ⟨⟨_, _, _, _, _, _, o, _, _, _, _, rfl, hor, -⟩, -⟩ := bus_frame h ha
    have ho : Orchestrator.targets o = Orchestrator.targets s.orchestrator := by
      rcases hor with rfl | ⟨channel, accept, rfl⟩
      · rfl
      · exact answer_targets channel accept _
    unfold Sends at hx ⊢
    rw [ho] at hx
    exact Or.inl hx
  | orchestrator =>
    cases a with
    | orchestrate ok target => exact (orchestrate_turn h).sends hx
    | _ => cases ha

theorem trusts_step (h : step cfg s a = some (s', os)) (hx : Orchestrator.trusts d s'.orchestrator = true) :
    Orchestrator.trusts d s.orchestrator = true ∨ d ∈ s'.trust.paired := by
  cases ha : a.task with
  | net =>
    obtain ⟨⟨_, _, _, rfl⟩, -⟩ := net_frame h ha
    exact Or.inl hx
  | clipboard =>
    obtain ⟨⟨_, _, _, _, _, _, rfl⟩, -, -⟩ := clipboard_frame h ha
    exact Or.inl hx
  | bus =>
    obtain ⟨⟨_, _, _, _, _, _, o, _, _, _, _, rfl, hor, -⟩, -⟩ := bus_frame h ha
    rcases hor with rfl | ⟨channel, accept, rfl⟩
    · exact Or.inl hx
    · exact Or.inl ((answer_trusts channel accept _).symm.trans hx)
  | orchestrator =>
    cases a with
    | orchestrate ok target =>
      cases orchestrate_turn h with
      | taken j e rest ho hq hd =>
        obtain ⟨-, ht⟩ := dispatch_targets (d := d) hd ho
        rw [ht] at hx
        cases hx
      | handshake hh pc ho hs =>
        obtain ⟨-, ht, -⟩ := handshakeStep_reach (d := d) (i := 0) hs
        rw [ho]
        obtain ⟨hd, hp | hp⟩ := ht hx
        · exact Or.inl (by simp [Orchestrator.trusts, hd, hp])
        · exact Or.inr hp
      | received r pc ho hr =>
        obtain ⟨⟨_, _, _, _, _, rfl, hor⟩, -, -⟩ := receivedStep_frame hr
        rcases hor with rfl | ⟨_, rfl⟩ <;> cases hx
      | closed id pc ho hc =>
        subst hc
        cases pc <;> cases hx
    | _ => cases ha

/-- Whoever is reached now was before, or is in the trust store. -/
theorem reaches_step (h : step cfg s a = some (s', os)) (hx : s'.reaches d = true) :
    s.reaches d = true ∨ d ∈ s'.trust.paired := by
  rcases reaches_iff.mp hx with ⟨i, hx⟩ | hx
  · rcases sends_step h hx with hx | ⟨hh, ho, hd, -⟩
    · exact Or.inl (reaches_iff.mpr (Or.inl ⟨i, hx⟩))
    · refine Or.inl (reaches_iff.mpr (Or.inr ?_))
      rw [ho]
      simp [Orchestrator.trusts, hd, HandshakePc.trusted]
  · rcases trusts_step h hx with hx | hx
    · exact Or.inl (reaches_iff.mpr (Or.inr hx))
    · exact Or.inr hx

/-! ## What is handed over -/

theorem watchStep_handed {ok : Bool} {target : DeviceId} {loop : ClipLoop} {c : Clip}
    (h : s.watchStep cfg ok target = some (s', os)) (ho : .handed loop d i c ∈ os) :
    loop = .watch ∧ target = d ∧ ∃ rest, s.watch = .sending c rest ∧ rest.lookup d = some i := by
  unfold watchStep at h
  split at h
  · cases h
  · split at h
    · cases h
    · split at h <;> (cases h; simp at ho)
  · split at h
    · split at h <;> (cases h; simp at ho)
    · cases h; simp at ho
  · split at h <;> (cases h; simp at ho)
  · cases h; simp at ho
  · rename_i c' rest hw
    split at h
    · cases h; simp at ho
    · split at h
      · cases h
      · rename_i k hk
        cases h
        simp only [List.mem_singleton, Obs.handed.injEq] at ho
        obtain ⟨rfl, rfl, rfl, rfl⟩ := ho
        exact ⟨rfl, rfl, rest, hw, hk⟩

theorem receivedStep_handed {r : Received} {pc : ReceivedPc} {ok : Bool} {target : DeviceId} {loop : ClipLoop}
    {c : Clip} (h : s.receivedStep r ok target pc = some (s', os)) (ho : .handed loop d i c ∈ os) :
    loop = .received ∧ target = d ∧ r.clip = c ∧ ∃ rest, pc = .relay rest ∧ rest.lookup d = some i := by
  cases pc with
  | isPaired =>
    simp only [receivedStep] at h
    split at h <;> (cases h; simp at ho)
  | shouldBroadcast =>
    simp only [receivedStep] at h
    split at h <;> (cases h; simp at ho)
  | write =>
    simp only [receivedStep] at h
    split at h <;> (cases h; simp at ho)
  | handles =>
    cases h
    simp at ho
  | relay rest =>
    simp only [receivedStep] at h
    split at h
    · cases h; simp at ho
    · split at h
      · cases h
      · rename_i k hk
        cases h
        simp only [List.mem_singleton, Obs.handed.injEq] at ho
        obtain ⟨rfl, rfl, rfl, rfl⟩ := ho
        exact ⟨rfl, rfl, rfl, rest, rfl, hk⟩

theorem handed_step {loop : ClipLoop} {c : Clip} (h : step cfg s a = some (s', os)) (ho : .handed loop d i c ∈ os) :
    (loop = .watch ∧ ∃ ok rest, a = .watch ok d ∧ s.watch = .sending c rest ∧ rest.lookup d = some i) ∨
      loop = .received ∧ ∃ ok r rest, a = .orchestrate ok d ∧ s.orchestrator = .received r (.relay rest) ∧
        r.clip = c ∧ rest.lookup d = some i := by
  cases loop with
  | watch =>
    rcases step_local h ho rfl with ⟨c', -, hx⟩ | ⟨ok, target, rfl, hs⟩
    · cases hx
    · obtain ⟨-, rfl, rest, hw, hk⟩ := watchStep_handed hs ho
      exact Or.inl ⟨rfl, ok, rest, rfl, hw, hk⟩
  | received =>
    obtain ⟨ok, target, rfl, ht⟩ := step_turn h ho (by simp) rfl rfl
    obtain ⟨r, pc, hor, hs⟩ := ht.of_receiving ho rfl
    obtain ⟨-, rfl, hc, rest, rfl, hk⟩ := receivedStep_handed hs ho
    exact Or.inr ⟨rfl, ok, r, rest, rfl, hor, hc, hk⟩

theorem handed_sends {loop : ClipLoop} {c : Clip} (h : step cfg s a = some (s', os)) (ho : .handed loop d i c ∈ os) :
    s.Sends d i := by
  rcases handed_step h ho with ⟨-, ok, rest, -, hw, hk⟩ | ⟨-, ok, r, rest, -, hor, -, hk⟩
  · refine Or.inr (Or.inl ?_)
    rw [hw]
    exact hk
  · refine Or.inr (Or.inr ?_)
    rw [hor]
    exact hk

end

end Daemon

end PenguinSync
