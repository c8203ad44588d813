import PenguinSync.Daemon.Authorization

/-!
# While a confirmation is outstanding

The orchestrator awaits the answer inside the handshake it handles. Until the
answer comes or the time is up it has no step, so whatever the other sessions
put into the queue meanwhile stays there.
-/

namespace PenguinSync

open Lts

namespace Daemon

/-- Nobody answers for the device of `h`, and the clock stays before the deadline. -/
def undecided (h : Handling) (deadline : Time) (s : Daemon) : Act → Bool
  | .advance dt => s.now + dt < deadline
  | .confirmPairing hex _ => fromHex hex ≠ some h.deviceId
  | _ => true

def Obs.turn (o : Obs) : Bool := Obs.taking o || Obs.handshaking o || Obs.receiving o

/-- The orchestrator waits, and since `tr₀` and `q` nothing was taken. -/
structure Waiting (h : Handling) (ch : Nat) (deadline : Time) (tr₀ : List Obs) (q : List (Nat × ListenerEvent))
    (tr : List Obs) (s : Daemon) : Prop where
  pairing : PairingInv tr s
  orchestrator : s.orchestrator = .handshake h (.awaiting ch deadline none)
  before : s.now < deadline
  queue : ∃ more, s.queue = q ++ more
  trace : ∃ more, tr = tr₀ ++ more ∧ ∀ o ∈ more, Obs.turn o = false

section
variable {cfg : Config} {s s' : Daemon} {tr tr₀ os : List Obs} {a : Act} {h : Handling} {ch : Nat} {deadline : Time}
  {q : List (Nat × ListenerEvent)}

theorem not_turn (hs : step cfg s a = some (s', os)) (ha : a.task ≠ .orchestrator) : ∀ o ∈ os, Obs.turn o = false := by
  intro o ho
  cases ht : a.task with
  | net =>
    obtain ⟨i, x, rfl⟩ := (net_frame hs ht).2 o ho
    rfl
  | clipboard =>
    have hl := (clipboard_frame hs ht).2.2 o ho
    unfold Obs.local at hl
    split at hl <;> first | rfl | cases hl
  | bus =>
    have hb := (bus_frame hs ht).2 o ho
    unfold Obs.bus at hb
    split at hb <;> first | rfl | cases hb
  | orchestrator => exact absurd ht ha

theorem queue_grows (hs : step cfg s a = some (s', os)) (ha : a.task ≠ .orchestrator) :
    ∃ more, s'.queue = s.queue ++ more := by
  cases ht : a.task with
  | net =>
    cases a with
    | advance dt =>
      cases hs
      exact ⟨[], (List.append_nil _).symm⟩
    | accept remote spki =>
      simp only [step, accept, Option.ite_none_right_eq_some, Option.some.injEq, Prod.mk.injEq] at hs
      obtain ⟨-, rfl, -⟩ := hs
      exact ⟨[], (List.append_nil _).symm⟩
    | connection i ca =>
      simp only [step, connectionStep] at hs
      split at hs
      · cases hs
      · split at hs
        · cases hs
        · cases hs
          exact ⟨_, rfl⟩
    | drain i =>
      simp only [step, drain] at hs
      split at hs
      · cases hs
      · split at hs
        · cases hs
        · cases hs
          exact ⟨_, rfl⟩
    | _ => cases ht
  | clipboard =>
    obtain ⟨⟨_, _, _, _, _, _, rfl⟩, -, -⟩ := clipboard_frame hs ht
    exact ⟨[], (List.append_nil _).symm⟩
  | bus =>
    obtain ⟨⟨_, _, _, _, _, _, _, _, _, _, _, rfl, -⟩, -⟩ := bus_frame hs ht
    exact ⟨[], (List.append_nil _).symm⟩
  | orchestrator => exact absurd ht ha

theorem now_before (hs : step cfg s a = some (s', os)) (hu : undecided h deadline s a = true) (hn : s.now < deadline) :
    s'.now < deadline := by
  rcases now_step hs with he | ⟨dt, rfl, he⟩
  · rw [he]
    exact hn
  · rw [he]
    simpa [undecided] using hu

/-- The wait has no step of its own before the deadline. -/
theorem Waiting.stuck (hi : Waiting h ch deadline tr₀ q tr s) (ok : Bool) (target : DeviceId) :
    step cfg s (.orchestrate ok target) = none := by
  have hn : ¬ deadline ≤ s.now := Nat.not_le.mpr hi.before
  rw [step_handshake hi.orchestrator]
  exact if_neg hn

/-- Whoever is confirmed or rejected meanwhile, it is not the device waited for. -/
theorem Waiting.step (hi : Waiting h ch deadline tr₀ q tr s) (hu : undecided h deadline s a = true)
    (hs : step cfg s a = some (s', os)) : Waiting h ch deadline tr₀ q (tr ++ os) s' := by
  have ha : a.task ≠ .orchestrator := by
    intro ha
    cases a with
    | orchestrate ok target =>
      rw [hi.stuck] at hs
      cases hs
    | _ => cases ha
  obtain ⟨more, hq⟩ := hi.queue
  obtain ⟨more', hq'⟩ := queue_grows hs ha
  obtain ⟨past, htr, hpast⟩ := hi.trace
  refine ⟨hi.pairing.step (step_pairing hs), ?_, now_before hs hu hi.before, ⟨more ++ more', ?_⟩, past ++ os, ?_, ?_⟩
  · cases handling_move hs hi.orchestrator with
    | turn ok target _ => exact absurd rfl ha
    | kept _ ho => exact ho
    | answered _ _ hex id accept hid hl _ =>
      have hne : id ≠ h.deviceId := by
        simpa [undecided, hid] using hu
      exact absurd (hi.pairing.waiting h ch deadline none hi.orchestrator id hl) hne
  · rw [hq', hq, List.append_assoc]
  · rw [htr, List.append_assoc]
  · intro o ho
    rcases List.mem_append.mp ho with ho | ho
    · exact hpast o ho
    · exact not_turn hs ha o ho

variable {file : Option PersistedState} {clipboard : Content} {C : List Obs → Daemon → Act → Prop}

theorem waiting_path {tr' : List Obs} {s' : Daemon} (hr : Run (system cfg file clipboard) C tr s)
    (ho : s.orchestrator = .handshake h (.awaiting ch deadline none)) (hn : s.now < deadline)
    (hp : Path (system cfg file clipboard) (fun _ s a => undecided h deadline s a = true) tr s tr' s') :
    Waiting h ch deadline tr s.queue tr' s' := by
  have h0 : Waiting h ch deadline tr s.queue tr s := by
    refine ⟨run_pairing hr, ho, hn, ⟨[], ?_⟩, ⟨[], ?_⟩⟩
    · rw [List.append_nil]
    · simp
  exact hp.invariant h0 fun _ _ _ _ _ hi hu hs => hi.step hu hs

/-- However the daemon goes on from an outstanding confirmation, without the
answer and before the deadline the orchestrator makes no observation, takes
nothing and has no step. -/
theorem run_blocked (hr : Run (system cfg file clipboard) C tr s)
    (ho : s.orchestrator = .handshake h (.awaiting ch deadline none)) (hn : s.now < deadline) :
    ∀ tr' s', Path (system cfg file clipboard) (fun _ s a => undecided h deadline s a = true) tr s tr' s' →
      (∃ more, tr' = tr ++ more ∧ ∀ o ∈ more, Obs.turn o = false) ∧ (∃ more, s'.queue = s.queue ++ more) ∧
        ∀ ok target, step cfg s' (.orchestrate ok target) = none := by
  intro tr' s' hp
  have hw := waiting_path hr ho hn hp
  exact ⟨hw.trace, hw.queue, hw.stuck⟩

end

/-- The phone is paired; a tablet asks to be, and then the phone sends a clip. -/
def Sample.prompt : List Act :=
  Sample.pair 0 (Sample.addr 2) Sample.phoneKey ++ Sample.mint ++
    Sample.connect 1 (Sample.addr 3) Sample.tabletKey ++ Sample.greet 1 Sample.tablet (some Sample.token) ++
    Sample.turns 5 ++ Sample.share 0 Sample.clipA

open Sample in
theorem prompt_enabled :
    (exec (system cfg none empty) anyway [] (initial none empty) prompt).isSome = true := by
  decide +kernel

open Sample in
/-- The clip of the paired phone waits for the tablet's answer. -/
theorem prompt_blocks : ∃ tr s h ch deadline, Run (system cfg none empty) always tr s ∧
    s.orchestrator = .handshake h (.awaiting ch deadline none) ∧ h.deviceId = tablet ∧ phone ∈ s.trust.paired ∧
    (0, .session (addr 2) (.clipboardReceived clipA)) ∈ s.queue ∧
    ∀ tr' s', Path (system cfg none empty) (fun _ s a => undecided h deadline s a = true) tr s tr' s' →
      (0, .session (addr 2) (.clipboardReceived clipA)) ∈ s'.queue ∧ .accepted 0 phone clipA ∉ tr' := by
  have hrun : (exec (system cfg none empty) anyway [] (initial none empty) prompt).any (fun r =>
      r.2.orchestrator = .handshake ⟨1, addr 3, tablet, "", some token⟩ (.awaiting 1 confirmationTimeout none) ∧
        phone ∈ r.2.trust.paired ∧ (0, .session (addr 2) (.clipboardReceived clipA)) ∈ r.2.queue ∧
        r.2.now < confirmationTimeout ∧ .accepted 0 phone clipA ∉ r.1) = true := by
    decide +kernel
  obtain ⟨⟨tr, s⟩, he, hfacts⟩ := (Option.any_eq_true _ _).mp hrun
  obtain ⟨ho, hp, hq, hnow, hacc⟩ := of_decide_eq_true hfacts
  have hr : Run (system cfg none empty) always tr s := .exec (fun _ _ _ _ => trivial) (.init rfl) he
  refine ⟨tr, s, ⟨1, addr 3, tablet, "", some token⟩, 1, confirmationTimeout, hr, ho, rfl, hp, hq, fun tr' s' hpath => ?_⟩
  have hw := waiting_path hr ho hnow hpath
  obtain ⟨more, hq'⟩ := hw.queue
  obtain ⟨past, htr, hpast⟩ := hw.trace
  refine ⟨?_, fun hm => ?_⟩
  · rw [hq']
    exact List.mem_append_left _ hq
  · rw [htr] at hm
    rcases List.mem_append.mp hm with hm | hm
    · exact hacc hm
    · have := hpast _ hm
      cases this

open Sample in
theorem run_blocked_prompt :
    let r := (exec (system cfg none empty) anyway [] (initial none empty) prompt).get prompt_enabled
    r.2.queue.length = 1 ∧ ∀ ok target, step cfg r.2 (.orchestrate ok target) = none := by
  have ho : ((exec (system cfg none empty) anyway [] (initial none empty) prompt).get prompt_enabled).2.orchestrator =
      .handshake ⟨1, addr 3, tablet, "", some token⟩ (.awaiting 1 confirmationTimeout none) := rfl
  exact ⟨by decide +kernel, (run_blocked (run_of_anyway rfl prompt_enabled) ho (by decide +kernel) _ _ .refl).2.2⟩

end Daemon

end PenguinSync
