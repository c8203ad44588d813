import PenguinSync.Daemon.Unpair

/-!
# What a restart finds after `unpair`

The trust store, the device list and the file lose a device one after the
other, under locks of their own. A call that no confirmed pairing gets in the
way of and whose save succeeds takes the device from all three for good.
-/

namespace PenguinSync

open Lts

namespace Daemon

/-- A handshake of `d` has pinned it and will enter it in the device list. -/
def Orchestrator.upserts (d : DeviceId) : Orchestrator → Bool
  | .handshake h .closeWindow | .handshake h .upsert => h.deviceId = d
  | _ => false

/-- At each step of an `unpair` no handshake of the device undoes it later, the
list has no entry of the device in another spelling, and the save succeeds or
is not needed. -/
def durable (s : Daemon) : Act → Bool
  | .unpairStep k ok =>
    match s.unpairs[k]? with
    | some ⟨_, d, .unpin⟩ => !Orchestrator.pins d s.orchestrator
    | some ⟨_, d, .remove⟩ => !Orchestrator.upserts d s.orchestrator && s.state.Canonical d
    | some ⟨_, d, .persist⟩ => ok || d ∉ (PersistedState.load s.file).deviceIds
    | _ => true
  | _ => true

/-- `d` is not in the device list either, and nothing is about to enter it. -/
structure Unlisted (s : Daemon) (d : DeviceId) : Prop extends Unpinned s d where
  unlisted : d ∉ s.state.deviceIds
  unentered : Orchestrator.upserts d s.orchestrator = false

structure Forgotten (s : Daemon) (d : DeviceId) : Prop extends Unlisted s d where
  unsaved : d ∉ (PersistedState.load s.file).deviceIds

/-- What an `unpair` has brought about so far. -/
def Undone (s : Daemon) (d : DeviceId) : UnpairPc → Prop
  | .unpin => True
  | .remove => Unpinned s d
  | .persist => Unlisted s d
  | .removeObject => Forgotten s d

/-- No pairing of `d` was confirmed since the call. -/
def Undisturbed (call : Nat) (d : DeviceId) (tr : List Obs) : Prop :=
  Since (· = .unpairCalled call d) (· = .confirmed d true) tr

section
variable {cfg : Config} {s s' : Daemon} {tr os : List Obs} {a : Act} {d : DeviceId}

theorem handshakeStep_durable {h : Handling} {pc : HandshakePc} {ok : Bool}
    (hs : s.handshakeStep h ok pc = some (s', os)) :
    (d ∈ s'.state.deviceIds → d ∈ s.state.deviceIds ∨ Orchestrator.upserts d (.handshake h pc) = true) ∧
      (s'.file = s.file ∨ s'.file = some s.state) ∧
      (Orchestrator.upserts d s'.orchestrator = true →
        Orchestrator.upserts d (.handshake h pc) = true ∨ Orchestrator.pins d (.handshake h pc) = true) := by
  have hno : ∀ {P : Prop} {o : Orchestrator}, Orchestrator.upserts d o = false → Orchestrator.upserts d o = true → P := by
    intro P o hf ht
    rw [hf] at ht
    cases ht
  cases pc with
  | isPaired =>
    simp only [handshakeStep] at hs
    split at hs
    · cases hs; exact ⟨Or.inl, Or.inl rfl, hno rfl⟩
    · split at hs <;> (cases hs; exact ⟨Or.inl, Or.inl rfl, hno rfl⟩)
  | redeem presented =>
    simp only [handshakeStep] at hs
    split at hs
    · cases hs; exact ⟨Or.inl, Or.inl rfl, hno rfl⟩
    · split at hs <;> (cases hs; exact ⟨Or.inl, Or.inl rfl, hno rfl⟩)
  | awaiting ch deadline ans =>
    cases ans with
    | none =>
      simp only [handshakeStep, Option.ite_none_right_eq_some] at hs
      obtain ⟨-, hs⟩ := hs
      cases hs; exact ⟨Or.inl, Or.inl rfl, hno rfl⟩
    | some accept => cases accept <;> (cases hs; exact ⟨Or.inl, Or.inl rfl, hno rfl⟩)
  | pin => cases hs; exact ⟨Or.inl, Or.inl rfl, Or.inr⟩
  | closeWindow => cases hs; exact ⟨Or.inl, Or.inl rfl, Or.inl⟩
  | upsert =>
    cases hs
    refine ⟨fun hm => ?_, Or.inl rfl, hno rfl⟩
    rcases PersistedState.mem_upsert hm with rfl | hm
    · exact Or.inr (decide_eq_true rfl)
    · exact Or.inl hm
  | persist =>
    simp only [handshakeStep, persistState_eq] at hs
    cases hs
    refine ⟨Or.inl, ?_, hno rfl⟩
    cases ok
    · exact Or.inl rfl
    · exact Or.inr rfl
  | ensureObject =>
    cases hs
    refine ⟨Or.inl, Or.inl rfl, hno ?_⟩
    simp only [Daemon.handshake]
    split <;> rfl
  | promote =>
    simp only [handshakeStep] at hs
    split at hs <;> (cases hs; exact ⟨Or.inl, Or.inl rfl, hno rfl⟩)
  | _ => cases hs; exact ⟨Or.inl, Or.inl rfl, hno rfl⟩

theorem early_upserts {o : Orchestrator} (h : early o) : Orchestrator.upserts d o = false := by
  unfold early at h
  split at h <;> first | rfl | exact h.elim | skip
  unfold Orchestrator.upserts
  split <;> simp_all

theorem answer_upserts (channel : Nat) (accept : Bool) (o : Orchestrator) :
    Orchestrator.upserts d (answer channel accept o) = Orchestrator.upserts d o := by
  rcases answer_cases channel accept o with h | ⟨_, _, rfl, h⟩
  · rw [h]
  · rw [h]
    rfl

theorem durable_step (h : step cfg s a = some (s', os)) :
    (d ∈ s'.state.deviceIds → d ∈ s.state.deviceIds ∨ Orchestrator.upserts d s.orchestrator = true) ∧
      (s'.file = s.file ∨ s'.file = some s.state) ∧
      (Orchestrator.upserts d s'.orchestrator = true →
        Orchestrator.upserts d s.orchestrator = true ∨ Orchestrator.pins d s.orchestrator = true) := by
  cases step_pairing h with
  | other hs ho _ =>
    rw [hs.state, hs.file]
    refine ⟨Or.inl, Or.inl rfl, fun hx => ?_⟩
    rcases ho with ho | ho
    · exact Or.inl (ho ▸ hx)
    · rw [early_upserts ho] at hx
      cases hx
  | tokenSet _ _ _ _ _ hs => subst hs; exact ⟨Or.inl, Or.inl rfl, Or.inl⟩
  | unknown _ _ _ hs => subst hs; exact ⟨Or.inl, Or.inl rfl, Or.inl⟩
  | answered id accept channel _ hs =>
    subst hs
    refine ⟨Or.inl, Or.inl rfl, fun hx => Or.inl ?_⟩
    rwa [answer_upserts] at hx
  | unpairCalled _ hs => subst hs; exact ⟨Or.inl, Or.inl rfl, Or.inl⟩
  | unpairStep k ok hm =>
    cases unpairStep_move hm with
    | unpin call id _ hs => subst hs; exact ⟨Or.inl, Or.inl rfl, Or.inl⟩
    | remove call id _ hs =>
      subst hs
      exact ⟨fun hm => Or.inl (PersistedState.mem_remove hm), Or.inl rfl, Or.inl⟩
    | persist call id _ hs =>
      subst hs
      refine ⟨Or.inl, ?_, Or.inl⟩
      cases ok
      · exact Or.inl rfl
      · exact Or.inr rfl
    | removeObject call id _ hs => subst hs; exact ⟨Or.inl, Or.inl rfl, Or.inl⟩
  | handshake hh pc ok ho hs =>
    rw [ho]
    exact handshakeStep_durable hs

theorem Unlisted.step (hi : Unlisted s d) (hw : WaitingInv s.pendingConfirmations s.orchestrator)
    (h : step cfg s a = some (s', os)) (hc : .confirmed d true ∉ os) : Unlisted s' d where
  toUnpinned := hi.toUnpinned.step hw h fun _ => hc
  unlisted := by
    intro hm
    rcases (durable_step h).1 hm with hm | hx
    · exact hi.unlisted hm
    · rw [hi.unentered] at hx
      cases hx
  unentered := by
    by_contra hx
    rcases (durable_step h).2.2 (by simpa using hx) with hx | hx
    · rw [hi.unentered] at hx
      cases hx
    · rw [hi.unconfirmed] at hx
      cases hx

theorem Forgotten.step (hi : Forgotten s d) (hw : WaitingInv s.pendingConfirmations s.orchestrator)
    (h : step cfg s a = some (s', os)) (hc : .confirmed d true ∉ os) : Forgotten s' d where
  toUnlisted := hi.toUnlisted.step hw h hc
  unsaved := by
    rcases (durable_step (d := d) h).2.1 with hf | hf
    · rw [hf]
      exact hi.unsaved
    · rw [hf]
      exact hi.unlisted

theorem Undone.step {pc : UnpairPc} (hi : Undone s d pc) (hw : WaitingInv s.pendingConfirmations s.orchestrator)
    (h : step cfg s a = some (s', os)) (hc : .confirmed d true ∉ os) : Undone s' d pc := by
  cases pc with
  | unpin => trivial
  | remove => exact Unpinned.step hi hw h fun _ => hc
  | persist => exact Unlisted.step hi hw h hc
  | removeObject => exact Forgotten.step hi hw h hc

/-! ## Call numbers -/

theorem called_step (h : step cfg s a = some (s', os)) : s.nextCall ≤ s'.nextCall ∧
    ∀ call d, .unpairCalled call d ∈ os → call = s.nextCall ∧ s'.nextCall = call + 1 := by
  cases step_pairing h with
  | other hs _ ho =>
    refine ⟨Nat.le_of_eq hs.nextCall.symm, fun call d hm => ?_⟩
    cases ho _ hm
  | tokenSet _ _ _ _ _ hs => subst hs; exact ⟨Nat.le_refl _, by simp⟩
  | unknown _ _ _ hs => subst hs; exact ⟨Nat.le_refl _, by simp⟩
  | answered _ _ _ _ hs => subst hs; exact ⟨Nat.le_refl _, by simp⟩
  | unpairCalled id hs =>
    subst hs
    refine ⟨Nat.le_succ _, fun call d hm => ?_⟩
    simp only [List.mem_singleton, Obs.unpairCalled.injEq] at hm
    exact ⟨hm.1, by rw [hm.1]⟩
  | unpairStep k ok hm =>
    cases unpairStep_move hm with
    | unpin _ _ _ hs => subst hs; exact ⟨Nat.le_refl _, by simp⟩
    | remove _ _ _ hs => subst hs; exact ⟨Nat.le_refl _, by simp⟩
    | persist _ _ _ hs => subst hs; exact ⟨Nat.le_refl _, by simp⟩
    | removeObject _ _ _ hs => subst hs; exact ⟨Nat.le_refl _, by simp⟩
  | handshake hh pc ok ho hs =>
    obtain ⟨⟨_, _, _, _, _, _, _, _, _, rfl, -⟩, hos⟩ := handshakeStep_frame hs
    refine ⟨Nat.le_refl _, fun call d hm => ?_⟩
    cases hos _ hm

theorem Undisturbed.before {call : Nat} (hs : Undisturbed call d (tr ++ os)) (h : step cfg s a = some (s', os))
    (hlt : call < s.nextCall) : Undisturbed call d tr ∧ .confirmed d true ∉ os := by
  rcases since_append.mp hs with ⟨pre, o, post, rfl, rfl, -⟩ | ⟨hs, hn⟩
  · have := ((called_step h).2 _ _ (List.mem_append_right _ (List.mem_cons_self ..))).1
    omega
  · exact ⟨hs, fun hm => hn _ hm rfl⟩

/-! ## Every run -/

structure DurableInv (tr : List Obs) (s : Daemon) : Prop where
  calls : ∀ u ∈ s.unpairs, u.call < s.nextCall
  returned : ∀ call d, .unpaired call d ∈ tr → call < s.nextCall
  inFlight : ∀ u ∈ s.unpairs, Undisturbed u.call u.id tr → Undone s u.id u.pc
  since : ∀ call d, .unpaired call d ∈ tr → Undisturbed call d tr → Forgotten s d

theorem DurableInv.step (hi : DurableInv tr s) (hw : WaitingInv s.pendingConfirmations s.orchestrator)
    (hc : durable s a = true) (h : step cfg s a = some (s', os)) : DurableInv (tr ++ os) s' := by
  have hle : s.nextCall ≤ s'.nextCall := (called_step h).1
  have hfly : ∀ u ∈ s.unpairs, Undisturbed u.call u.id (tr ++ os) → Undone s u.id u.pc ∧ Undone s' u.id u.pc := by
    intro u hu hs
    obtain ⟨hs, hn⟩ := hs.before h (hi.calls u hu)
    have := hi.inFlight u hu hs
    exact ⟨this, this.step hw h hn⟩
  refine ⟨fun u hu => ?_, fun call d hm => ?_, fun u hu hs => ?_, fun call d hm hs => ?_⟩
  · cases unpairs_step h hu with
    | kept hu => exact Nat.lt_of_lt_of_le (hi.calls u hu) hle
    | made hcall _ ho =>
      subst ho
      have := ((called_step h).2 _ _ (List.mem_singleton_self _)).2
      omega
    | unpinned k ok _ hk _ _ _ =>
      exact Nat.lt_of_lt_of_le (hi.calls ⟨u.call, u.id, .unpin⟩ (List.mem_of_getElem? hk)) hle
    | removed k ok _ hk _ _ _ =>
      exact Nat.lt_of_lt_of_le (hi.calls ⟨u.call, u.id, .remove⟩ (List.mem_of_getElem? hk)) hle
    | saved k ok _ hk _ _ _ =>
      exact Nat.lt_of_lt_of_le (hi.calls ⟨u.call, u.id, .persist⟩ (List.mem_of_getElem? hk)) hle
  · rcases List.mem_append.mp hm with hm | hm
    · exact Nat.lt_of_lt_of_le (hi.returned call d hm) hle
    · obtain ⟨k, ok, -, hk, -⟩ := unpaired_step h hm
      exact Nat.lt_of_lt_of_le (hi.calls _ (List.mem_of_getElem? hk)) hle
  · cases unpairs_step h hu with
    | kept hu => exact (hfly u hu hs).2
    | made _ hpc _ =>
      rw [hpc]
      trivial
    | unpinned k ok ha hk hpc ht _ =>
      subst ha
      rw [hpc]
      simp only [durable, hk, Bool.not_eq_true'] at hc
      refine ⟨fun hm => ?_, ?_⟩
      · rw [ht] at hm
        exact (Finset.mem_erase.mp hm).1 rfl
      · rw [(unpairStep_move h).orchestrator]
        exact hc
    | removed k ok ha hk hpc hst _ =>
      subst ha
      rw [hpc]
      simp only [durable, hk, Bool.and_eq_true, Bool.not_eq_true', decide_eq_true_eq] at hc
      refine ⟨(hfly ⟨u.call, u.id, .remove⟩ (List.mem_of_getElem? hk) hs).2, ?_, ?_⟩
      · rw [hst]
        exact PersistedState.not_mem_remove hc.2
      · rw [(unpairStep_move h).orchestrator]
        exact hc.1
    | saved k ok ha hk hpc hf _ =>
      subst ha
      rw [hpc]
      obtain ⟨hu, hu'⟩ := hfly ⟨u.call, u.id, .persist⟩ (List.mem_of_getElem? hk) hs
      refine ⟨hu', ?_⟩
      simp only [durable, hk, Bool.or_eq_true, decide_eq_true_eq] at hc
      rw [hf]
      cases ok with
      | true => exact Unlisted.unlisted hu
      | false =>
        rcases hc with hc | hc
        · cases hc
        · exact hc
  · rcases List.mem_append.mp hm with hm | hm
    · obtain ⟨hs, hn⟩ := hs.before h (hi.returned call d hm)
      exact (hi.since call d hm hs).step hw h hn
    · obtain ⟨k, ok, -, hk, -⟩ := unpaired_step h hm
      exact (hfly ⟨call, d, .removeObject⟩ (List.mem_of_getElem? hk) hs).2

variable {file : Option PersistedState} {clipboard : Content}

theorem run_durable (h : Run (system cfg file clipboard) (fun _ s a => durable s a = true) tr s) :
    DurableInv tr s := by
  refine h.invariant (fun s h0 => ?_) (fun tr s a s' os hr hi hc hs => hi.step (run_pairing hr).waiting hc hs)
  rw [h0]
  exact
    { calls := fun u hu => by simp [initial] at hu
      returned := fun call d hm => by simp at hm
      inFlight := fun u hu => by simp [initial] at hu
      since := fun call d hm => by simp at hm }

/-- After an undisturbed call has returned, neither this daemon nor one that
starts from the file trusts the device, in a run that was durable up to then. -/
theorem run_forgotten (call : Nat) (h : Run (system cfg file clipboard) (fun _ s a => durable s a = true) tr s)
    (hr : .unpaired call d ∈ tr) (hs : Undisturbed call d tr) :
    d ∉ s.trust.paired ∧ ∀ clipboard', d ∉ (initial s.file clipboard').trust.paired := by
  have hf := (run_durable h).since call d hr hs
  refine ⟨hf.unpaired, fun clipboard' hm => hf.unsaved ?_⟩
  simpa [initial, TrustStore.new] using hm

end

/-- The phone is paired and unpaired again, but the file cannot be written any more. -/
def Sample.unsaved : List Act := Sample.pair 0 (Sample.addr 2) Sample.phoneKey ++ Sample.unpairAll Sample.phone false

open Sample in
theorem unsaved_enabled :
    (exec (system cfg none empty) anyway [] (initial none empty) unsaved).isSome = true := by
  decide +kernel

open Sample in
/-- After a restart the phone is trusted again. -/
theorem unsaved_restored : ∃ tr s, Run (system cfg none empty) always tr s ∧ .unpaired 0 phone ∈ tr ∧
    Undisturbed 0 phone tr ∧ phone ∈ (initial s.file empty).trust.paired := by
  refine ⟨_, _, run_of_anyway rfl unsaved_enabled, ?_⟩
  unfold Undisturbed
  decide +kernel

open Sample in
theorem saved_enabled : (exec (system cfg none empty) (fun _ s a => durable s a) [] (initial none empty)
    (pair 0 (addr 2) phoneKey ++ unpairAll phone true)).isSome = true := by
  decide +kernel

open Sample in
theorem run_forgotten_saved :
    let r := (exec (system cfg none empty) (fun _ s a => durable s a) [] (initial none empty)
      (pair 0 (addr 2) phoneKey ++ unpairAll phone true)).get saved_enabled
    phone ∉ r.2.trust.paired ∧ ∀ clipboard', phone ∉ (initial r.2.file clipboard').trust.paired := by
  refine run_forgotten 0 (run_of_exec (fun _ _ _ h => h) rfl saved_enabled) ?_ ?_
  · decide +kernel
  · unfold Undisturbed
    decide +kernel

end Daemon

end PenguinSync
