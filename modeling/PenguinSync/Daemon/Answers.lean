import PenguinSync.Daemon.Authorization

/-!
# What becomes of an answer

The prompt goes out before the sender for its answer is registered. An answer
handled in between finds no sender, or the one of an earlier attempt, and is
lost; any other first answer decides the handshake.
-/

namespace PenguinSync

open Lts

namespace Daemon

def Obs.isSignal : Obs → Prop
  | .pairingRequested .. => True
  | _ => False

def signal (h : Handling) : Obs := .pairingRequested (toHex h.deviceId) (shortFingerprint h.deviceId) h.name

/-- A prompt starts over, and then the first answer for `d` counts. -/
def answerStep (d : DeviceId) (first : Option Bool) : Obs → Option Bool
  | .pairingRequested .. => none
  | .confirmed id accept => if id = d ∧ first = none then some accept else first
  | _ => first

def firstAnswer (d : DeviceId) (tr : List Obs) : Option Bool := tr.foldl (answerStep d) none

/-- No answer comes between the prompt for a device and the registration of its sender. -/
def registered (s : Daemon) : Act → Bool
  | .confirmPairing hex _ =>
    match s.orchestrator with
    | .handshake h .awaitConfirmation => fromHex hex ≠ some h.deviceId
    | _ => true
  | _ => true

def HandshakePc.asked : HandshakePc → Bool
  | .awaitConfirmation | .awaiting .. | .pin => true
  | _ => false

/-- The answer the handshake goes by is the first one there was. -/
def Heard (tr : List Obs) (pending : HashMap DeviceId Nat) (h : Handling) : HandshakePc → Prop
  | .awaitConfirmation => firstAnswer h.deviceId tr = none
  | .awaiting ch _ ans => firstAnswer h.deviceId tr = ans ∧ (ans = none → pending.lookup h.deviceId = some ch)
  | .pin => firstAnswer h.deviceId tr = some true
  | _ => True

structure AnswerInv (tr : List Obs) (s : Daemon) : Prop where
  signalled : ∀ h pc, s.orchestrator = .handshake h pc → HandshakePc.asked pc = true →
    Since (· = signal h) Obs.isSignal tr
  heard : ∀ h pc, s.orchestrator = .handshake h pc → Heard tr s.pendingConfirmations h pc

section
variable {cfg : Config} {s s' : Daemon} {tr os : List Obs} {a : Act} {d : DeviceId} {h : Handling} {pc : HandshakePc}

/-! ## The first answer -/

theorem firstAnswer_append : firstAnswer d (tr ++ os) = os.foldl (answerStep d) (firstAnswer d tr) :=
  List.foldl_append

def Obs.answering (d : DeviceId) : Obs → Prop
  | .pairingRequested .. => True
  | .confirmed id _ => id = d
  | _ => False

theorem firstAnswer_other (hos : ∀ o ∈ os, ¬ Obs.answering d o) : firstAnswer d (tr ++ os) = firstAnswer d tr := by
  induction os generalizing tr with
  | nil => rw [List.append_nil]
  | cons o os ih =>
    have ho : firstAnswer d (tr ++ [o]) = firstAnswer d tr := by
      have hn := hos o (List.mem_cons_self ..)
      rw [firstAnswer_append, List.foldl_cons, List.foldl_nil]
      cases o with
      | pairingRequested hex fp name => exact absurd trivial hn
      | confirmed id accept => exact if_neg fun hc => hn hc.1
      | _ => rfl
    rw [← List.singleton_append, ← List.append_assoc, ih fun x hx => hos x (List.mem_cons_of_mem _ hx), ho]

theorem firstAnswer_later {accept x : Bool} {id : DeviceId} (hf : firstAnswer d tr = some x) :
    firstAnswer d (tr ++ [.confirmed id accept]) = some x := by
  rw [firstAnswer_append, hf]
  simp [answerStep]

theorem firstAnswer_confirmed {accept : Bool} (hf : firstAnswer d tr = none) :
    firstAnswer d (tr ++ [.confirmed d accept]) = some accept := by
  rw [firstAnswer_append, hf]
  simp [answerStep]

theorem firstAnswer_signal : firstAnswer d (tr ++ [signal h]) = none := by
  rw [firstAnswer_append]
  rfl

/-! ## One step -/

theorem Heard.congr {tr' : List Obs} {pending : HashMap DeviceId Nat}
    (hf : HandshakePc.asked pc = true → firstAnswer h.deviceId tr' = firstAnswer h.deviceId tr)
    (hh : Heard tr pending h pc) : Heard tr' pending h pc := by
  cases pc with
  | awaitConfirmation => exact (hf rfl).trans hh
  | awaiting ch deadline ans => exact ⟨(hf rfl).trans hh.1, hh.2⟩
  | pin => exact (hf rfl).trans hh
  | _ => trivial

/-- An answer that is not the awaited one changes nothing for the handshake. -/
theorem Heard.confirmed {pending pending' : HashMap DeviceId Nat} {id : DeviceId} {accept : Bool}
    (hh : Heard tr pending h pc) (hp : id ≠ h.deviceId → pending'.lookup h.deviceId = pending.lookup h.deviceId)
    (hw : id = h.deviceId → pc ≠ .awaitConfirmation) (ha : id = h.deviceId → ∀ ch deadline, pc ≠ .awaiting ch deadline none) :
    Heard (tr ++ [.confirmed id accept]) pending' h pc := by
  by_cases hid : id = h.deviceId
  · cases pc with
    | awaitConfirmation => exact absurd rfl (hw hid)
    | awaiting ch deadline ans =>
      cases ans with
      | none => exact absurd rfl (ha hid ch deadline)
      | some x => exact ⟨firstAnswer_later hh.1, nofun⟩
    | pin => exact firstAnswer_later hh
    | _ => trivial
  · have hf : firstAnswer h.deviceId (tr ++ [.confirmed id accept]) = firstAnswer h.deviceId tr :=
      firstAnswer_other (by simpa [Obs.answering] using hid)
    have hc : Heard tr pending' h pc := by
      cases pc with
      | awaiting ch deadline ans => exact ⟨hh.1, fun hn => (hp hid).trans (hh.2 hn)⟩
      | _ => exact hh
    exact hc.congr fun _ => hf

theorem AnswerInv.leave (ho : ∀ h pc, s'.orchestrator = .handshake h pc → HandshakePc.asked pc = false) :
    AnswerInv tr s' where
  signalled h pc hx ha := by
    rw [ho h pc hx] at ha
    cases ha
  heard h pc hx := by
    have := ho h pc hx
    cases pc <;> trivial

theorem AnswerInv.stay (hi : AnswerInv tr s) (hs : step cfg s a = some (s', os)) (ho : s'.orchestrator = s.orchestrator)
    (hh : ∀ h pc, s.orchestrator = .handshake h pc → Heard (tr ++ os) s'.pendingConfirmations h pc) :
    AnswerInv (tr ++ os) s' where
  signalled h pc hx ha := by
    rw [ho] at hx
    refine since_append.mpr (Or.inr ⟨hi.signalled h pc hx ha, fun o hm hsig => ?_⟩)
    unfold Obs.isSignal at hsig
    split at hsig
    · obtain ⟨hh', ho'⟩ := signal_step hs hm
      cases hx.symm.trans ho'
      cases ha
    · exact hsig
  heard h pc hx := hh h pc (ho ▸ hx)

theorem AnswerInv.silent (hi : AnswerInv tr s) (hs : step cfg s a = some (s', os)) (ho : s'.orchestrator = s.orchestrator)
    (hp : s'.pendingConfirmations = s.pendingConfirmations) (hos : ∀ id accept, .confirmed id accept ∉ os) :
    AnswerInv (tr ++ os) s' := by
  refine hi.stay hs ho fun h pc hx => ?_
  rw [hp]
  refine (hi.heard h pc hx).congr fun ha => firstAnswer_other fun o hm han => ?_
  unfold Obs.answering at han
  split at han
  · obtain ⟨hh', ho'⟩ := signal_step hs hm
    cases hx.symm.trans ho'
    cases ha
  · exact hos _ _ hm
  · exact han

/-- The first answer after the registration reaches the handshake. -/
theorem AnswerInv.answered {id : DeviceId} {accept : Bool} {channel : Nat} (hi : AnswerInv tr s)
    (hw : WaitingInv s.pendingConfirmations s.orchestrator) (hr : registered s a = true)
    (hs : step cfg s a = some (s', [.confirmed id accept])) (hl : s.pendingConfirmations.lookup id = some channel)
    (he : s' = { s with
      pendingConfirmations := s.pendingConfirmations.erase id
      orchestrator := answer channel accept s.orchestrator }) : AnswerInv (tr ++ [.confirmed id accept]) s' := by
  rcases answer_cases channel accept s.orchestrator with ho | ⟨h, deadline, hor, ho⟩
  · refine hi.stay hs (by rw [he]; exact ho) fun h pc hx => ?_
    rw [he]
    refine (hi.heard h pc hx).confirmed (fun hne => Finmap.lookup_erase_ne (Ne.symm hne)) ?_ ?_
    · rintro rfl rfl
      obtain ⟨hex, rfl, hd⟩ := confirmed_step hs (List.mem_singleton_self _)
      simp [registered, hx, hd] at hr
    · rintro rfl ch deadline rfl
      have hch : channel = ch := by
        have := ((hi.heard h _ hx).2 rfl).symm.trans hl
        exact (Option.some.inj this).symm
      subst hch
      rw [hx] at ho
      simp [answer] at ho
  · have hid : id = h.deviceId := hw h channel deadline none hor id hl
    have hf := (hi.heard h _ hor).1
    have hor' : s'.orchestrator = .handshake h (.awaiting channel deadline (some accept)) := by
      rw [he]
      exact ho
    subst hid
    constructor
    · intro h' pc hx ha
      cases hor'.symm.trans hx
      refine since_append.mpr (Or.inr ⟨hi.signalled _ _ hor rfl, ?_⟩)
      simp [Obs.isSignal]
    · intro h' pc hx
      cases hor'.symm.trans hx
      exact ⟨firstAnswer_confirmed hf, nofun⟩

theorem AnswerInv.handshake {hh : Handling} {ok : Bool} (hi : AnswerInv tr s) (ho : s.orchestrator = .handshake hh pc)
    (hs : s.handshakeStep hh ok pc = some (s', os)) : AnswerInv (tr ++ os) s' := by
  cases handshakeStep_move hs with
  | asks =>
    constructor
    · intro h pc hx _
      cases hx
      exact since_append.mpr (Or.inl (since_singleton.mpr rfl))
    · intro h pc hx
      cases hx
      exact firstAnswer_signal
  | registers =>
    rw [List.append_nil]
    constructor
    · intro h pc hx _
      cases hx
      exact hi.signalled hh _ ho rfl
    · intro h pc hx
      cases hx
      exact ⟨hi.heard hh _ ho, fun _ => Finmap.lookup_insert _⟩
  | confirmed ch deadline =>
    rw [List.append_nil]
    constructor
    · intro h pc hx _
      cases hx
      exact hi.signalled hh _ ho rfl
    · intro h pc hx
      cases hx
      exact (hi.heard hh _ ho).1
  | ensures =>
    refine .leave fun h pc hx => ?_
    simp only [Daemon.handshake] at hx
    split at hx <;> (cases hx; rfl)
  | _ =>
    refine .leave fun h pc hx => ?_
    cases hx
    try rfl

theorem AnswerInv.step (hi : AnswerInv tr s) (hw : WaitingInv s.pendingConfirmations s.orchestrator)
    (hr : registered s a = true) (hs : step cfg s a = some (s', os)) : AnswerInv (tr ++ os) s' := by
  cases step_pairing hs with
  | other hsame hor hos =>
    rcases hor with ho | he
    · refine hi.silent hs ho hsame.pendingConfirmations fun id accept hm => ?_
      cases hos _ hm
    · refine .leave fun h pc hx => ?_
      rw [hx] at he
      cases pc <;> first | rfl | exact he.elim
  | tokenSet _ _ _ _ _ he =>
    subst he
    exact hi.silent hs rfl rfl (by simp)
  | unknown id accept hl he =>
    subst he
    refine hi.stay hs rfl fun h pc hx => (hi.heard h pc hx).confirmed (fun _ => rfl) ?_ ?_
    · rintro rfl rfl
      obtain ⟨hex, rfl, hd⟩ := confirmed_step hs (List.mem_singleton_self _)
      simp [registered, hx, hd] at hr
    · rintro rfl ch deadline rfl
      cases hl.symm.trans ((hi.heard h _ hx).2 rfl)
  | answered id accept channel hl he => exact hi.answered hw hr hs hl he
  | unpairCalled _ he =>
    subst he
    exact hi.silent hs rfl rfl (by simp)
  | unpairStep k ok hu =>
    cases unpairStep_move hu with
    | _ _ _ _ he =>
      subst he
      exact hi.silent hs rfl rfl (by simp)
  | handshake hh pc ok ho hh' => exact hi.handshake ho hh'

variable {file : Option PersistedState} {clipboard : Content}

theorem run_answers (hr : Run (system cfg file clipboard) (fun _ s a => registered s a = true) tr s) :
    AnswerInv tr s := by
  refine hr.invariant (fun s h0 => ?_) (fun tr s a s' os hrun hi hc hs => hi.step (run_pairing hrun).waiting hc hs)
  rw [h0]
  exact .leave fun h pc hx => by cases hx

def Resolves (cfg : Config) (s : Daemon) (h : Handling) (accept : Bool) : Prop :=
  ∀ ok target, ∃ s' os, step cfg s (.orchestrate ok target) = some (s', os) ∧
    if accept then s'.orchestrator = .handshake h .pin ∨ .pinned h.deviceId ∈ os else s'.orchestrator = .idle ∧ os = []

/-- From its prompt to its pin a handshake goes by the first answer handled
since the prompt: to the pin and through it with an accepting one, to its end
with a rejecting one. -/
theorem run_answered {accept : Bool}
    (hr : Run (system cfg file clipboard) (fun _ s a => registered s a = true) tr s)
    (ho : s.orchestrator = .handshake h pc) (ha : HandshakePc.asked pc = true)
    (hf : firstAnswer h.deviceId tr = some accept) :
    Since (· = signal h) Obs.isSignal tr ∧ Resolves cfg s h accept := by
  have hi := run_answers hr
  refine ⟨hi.signalled h pc ho ha, fun ok target => ?_⟩
  have hh := hi.heard h pc ho
  rw [step_handshake ho]
  cases pc with
  | awaitConfirmation => cases hf.symm.trans hh
  | awaiting ch deadline ans =>
    cases hf.symm.trans hh.1
    cases accept with
    | false => exact ⟨_, _, rfl, rfl, rfl⟩
    | true => exact ⟨_, _, rfl, Or.inl rfl⟩
  | pin =>
    cases hf.symm.trans hh
    exact ⟨_, _, rfl, Or.inr (List.mem_singleton_self _)⟩
  | _ => cases ha

end

/-- The answer to the prompt is handled before its sender is registered. -/
def Sample.early : List Act :=
  Sample.mint ++ Sample.connect 0 (Sample.addr 2) Sample.phoneKey ++
    Sample.greet 0 Sample.phone (some Sample.token) ++ Sample.turns 4 ++ [.confirmPairing (toHex Sample.phone) true] ++
    Sample.turns 1 ++ [.advance confirmationTimeout] ++ Sample.turns 1

open Sample in
/-- The handshake times out though the first answer accepted it. -/
theorem early_lost : ∃ tr s, Run (system cfg none empty) always tr s ∧ firstAnswer phone tr = some true ∧
    s.orchestrator = .idle ∧ .pinned phone ∉ tr ∧ phone ∉ s.trust.paired := by
  have hrun : (exec (system cfg none empty) anyway [] (initial none empty) Sample.early).any (fun r =>
      firstAnswer phone r.1 = some true ∧ r.2.orchestrator = .idle ∧ .pinned phone ∉ r.1 ∧
        phone ∉ r.2.trust.paired) = true := by
    decide +kernel
  obtain ⟨⟨tr, s⟩, he, hfacts⟩ := (Option.any_eq_true _ _).mp hrun
  exact ⟨tr, s, .exec (fun _ _ _ _ => trivial) (.init rfl) he, of_decide_eq_true hfacts⟩

/-- The answer is handled while the handshake waits for it. -/
def Sample.answered : List Act :=
  Sample.mint ++ Sample.connect 0 (Sample.addr 2) Sample.phoneKey ++
    Sample.greet 0 Sample.phone (some Sample.token) ++ Sample.turns 5 ++ [.confirmPairing (toHex Sample.phone) false]

open Sample in
theorem answered_enabled : (exec (system cfg none empty) (fun _ s a => registered s a) [] (initial none empty)
    Sample.answered).isSome = true := by
  decide +kernel

open Sample in
theorem run_answered_rejected :
    let r := (exec (system cfg none empty) (fun _ s a => registered s a) [] (initial none empty)
      Sample.answered).get answered_enabled
    Resolves cfg r.2 ⟨0, addr 2, phone, "", some token⟩ false := by
  have ho : ((exec (system cfg none empty) (fun _ s a => registered s a) [] (initial none empty)
      Sample.answered).get answered_enabled).2.orchestrator =
      .handshake ⟨0, addr 2, phone, "", some token⟩ (.awaiting 0 confirmationTimeout (some false)) := rfl
  exact (run_answered (run_of_exec (fun _ _ _ h => h) rfl answered_enabled) ho rfl (by decide +kernel)).2

end Daemon

end PenguinSync
