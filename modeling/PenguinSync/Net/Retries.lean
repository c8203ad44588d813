import PenguinSync.Net.Reconnect

/-!
# Backing off

The attempt counter starts over with every session that is opened, whether or
not the peer's handshake ever comes, so it counts the retries since the last
session. What the peer should be given credit for is a handshake.
-/

namespace PenguinSync

open Lts

/-! ## The delay -/

namespace Backoff

theorem checkedShl_one {n : UInt32} (h : n.toNat < 32) : ∃ f, checkedShl 1 n = some f ∧ f.toNat = 2 ^ n.toNat := by
  refine ⟨1 <<< n, if_pos h, ?_⟩
  have hpow : 2 ^ n.toNat < 2 ^ 32 := Nat.pow_lt_pow_right (by decide) h
  rw [UInt32.toNat_shiftLeft, Nat.mod_eq_of_lt h, Nat.shiftLeft_eq]
  simp only [UInt32.toNat_one, Nat.one_mul]
  exact Nat.mod_eq_of_lt hpow

/-- Past six doublings it is the cap, whatever becomes of the factor. -/
theorem min_pow_cap {k : Nat} (h : 6 ≤ k) : min (secs (2 ^ k)) cap = cap := by
  have hpow : 2 ^ 6 ≤ 2 ^ k := Nat.pow_le_pow_right (by decide) h
  refine Nat.min_eq_right ?_
  unfold cap secs
  omega

/-- A counter that stops past six doublings makes no difference. -/
theorem min_pow_min {a top : Nat} (h : 6 ≤ top) : min (secs (2 ^ min a top)) cap = min (secs (2 ^ a)) cap := by
  by_cases ha : a ≤ top
  · rw [Nat.min_eq_left ha]
  · have hmin : min a top = top := Nat.min_eq_right (by omega)
    rw [hmin, min_pow_cap h, min_pow_cap (by omega)]

theorem delay_eq (n : UInt32) : delay n = min (secs (2 ^ n.toNat)) cap := by
  have hmul : ∀ f : UInt32, checkedMul base f = some (secs f.toNat) := by
    intro f
    have hf := f.toNat_lt
    have heq : base * f.toNat = secs f.toNat := by
      unfold base secs
      rw [Nat.one_mul, Nat.mul_comm]
    have hlt : secs f.toNat < secs (2 ^ 64) := Nat.mul_lt_mul_of_pos_right (by omega) (by decide)
    rw [checkedMul, heq, if_pos hlt]
  unfold delay
  by_cases h : n.toNat < 32
  · obtain ⟨f, hf, hn⟩ := checkedShl_one h
    simp only [hf, Option.getD_some, hmul, hn]
  · have hn : checkedShl 1 n = none := if_neg h
    simp only [hn, Option.getD_none, hmul, Option.getD_some]
    rw [min_pow_cap (by omega)]
    decide

end Backoff

theorem saturatingAdd_one (n : UInt32) : (saturatingAdd n 1).toNat = min (n.toNat + 1) (2 ^ 32 - 1) := by
  have hn := n.toNat_lt
  unfold saturatingAdd
  by_cases h : n.toNat + (1 : UInt32).toNat < 2 ^ 32
  · rw [if_pos h, UInt32.toNat_add]
    simp only [UInt32.toNat_one] at h ⊢
    omega
  · rw [if_neg h]
    simp only [UInt32.toNat_one] at h
    have : (0xFFFFFFFF : UInt32).toNat = 2 ^ 32 - 1 := rfl
    omega

namespace Dialer

/-! ## Counting retries -/

def isOpened : Obs → Bool
  | .opened .. => true
  | _ => false

def isGreeting : Obs → Bool
  | .event (.session (.peerHandshake ..)) => true
  | _ => false

def retryStep (restart : Obs → Bool) (n : Nat) : Obs → Nat
  | .event (.reconnecting ..) => n + 1
  | o => if restart o then 0 else n

/-- The `Reconnecting` events since the last observation of the kind, or since the start. -/
def retriesSince (restart : Obs → Bool) (tr : List Obs) : Nat := tr.foldl (retryStep restart) 0

/-- What came of an attempt: no session, one that did not report the peer's handshake, or one that did. -/
inductive Outcome where
  | failed
  | unheard
  | greeted
  deriving DecidableEq

def outcomeStep (os : List Outcome) : Obs → List Outcome
  | .attempted _ => os ++ [.failed]
  | .opened .. => os.modifyLast fun _ => .unheard
  | .event (.session (.peerHandshake ..)) => os.modifyLast fun _ => .greeted
  | _ => os

def outcomes (tr : List Obs) : List Outcome := tr.foldl outcomeStep []

/-- The `k`-th `Reconnecting` since the last session that reported its peer
announces `2 ^ k` seconds, or a minute. -/
def BacksOff (tr : List Obs) : Prop :=
  ∀ pre attempt delay post, tr = pre ++ .event (.reconnecting attempt delay) :: post →
    delay = min (secs (2 ^ retriesSince isGreeting pre)) (secs 60)

/-- No retry follows a session that did not report its peer, unless the first attempt yielded it. -/
def Heard (tr : List Obs) : Prop :=
  ∀ pre attempt delay post, tr = pre ++ .event (.reconnecting attempt delay) :: post →
    ∀ before, outcomes pre = before ++ [.unheard] → before = []

section
variable {tr os : List Obs} {restart : Obs → Bool}

theorem retriesSince_append : retriesSince restart (tr ++ os) = os.foldl (retryStep restart) (retriesSince restart tr) :=
  List.foldl_append

theorem outcomes_append : outcomes (tr ++ os) = os.foldl outcomeStep (outcomes tr) := List.foldl_append

theorem Heard.prefix (h : Heard (tr ++ os)) : Heard tr := by
  rintro pre attempt delay post rfl
  exact h pre attempt delay (post ++ os) (by rw [List.append_assoc, List.cons_append])

end

/-! ## What a step does to the counts -/

def plain : Obs → Bool
  | .hungUp _ | .event (.connected _) => true
  | .event (.session e) => !isGreeting (.event (.session e))
  | _ => false

theorem plain_counts {o : Obs} (h : plain o = true) :
    (∀ n, retryStep isOpened n o = n) ∧ (∀ n, retryStep isGreeting n o = n) ∧ ∀ os, outcomeStep os o = os := by
  cases o with
  | attempted token => cases h
  | opened n m => cases h
  | hungUp n => exact ⟨fun _ => rfl, fun _ => rfl, fun _ => rfl⟩
  | event e =>
    cases e with
    | connected n => exact ⟨fun _ => rfl, fun _ => rfl, fun _ => rfl⟩
    | reconnecting n t => cases h
    | session e =>
      cases e with
      | peerHandshake _ _ _ _ => cases h
      | _ => exact ⟨fun _ => rfl, fun _ => rfl, fun _ => rfl⟩

def rests : Pc → Bool
  | .dial | .sleeping => true
  | _ => false

/-- An attempt is under way, its session too, and up to the retry. -/
def tries : Pc → Bool
  | .connecting _ | .opening _ _ | .draining _ | .retry => true
  | _ => false

def drains : Pc → Bool
  | .draining _ => true
  | _ => false

inductive RetryMove (d d' : Dialer) : List Obs → Prop
  | dials (token : Option TokenBytes) : rests d.pc = true → rests d'.pc = false → drains d'.pc = false →
      d'.attempt = d.attempt → RetryMove d d' [.attempted token]
  | opens (n : SessionHandle) (m : ConnectionMachine) (o : Obs) : trying d.pc ≠ none → trying d'.pc = none →
      rests d'.pc = false → d'.attempt = 0 → plain o = true → RetryMove d d' [.opened n m, o]
  | greets (deviceId : DeviceId) (name : String) (capabilities : List Capability)
      (pairingToken : Option TokenBytes) (n : SessionHandle) : d.pc = .draining n → d' = d →
      RetryMove d d' [.event (.session (.peerHandshake deviceId name capabilities pairingToken))]
  | retries : d.pc = .retry → d'.pc = .sleeping → d'.attempt = saturatingAdd d.attempt 1 →
      RetryMove d d' [.event (.reconnecting d.attempt (Backoff.delay d.attempt))]
  | other {os : List Obs} : (∀ o ∈ os, plain o = true) → d'.attempt = d.attempt →
      (rests d'.pc = true → rests d.pc = true) → (tries d'.pc = true → tries d.pc = true) →
      (trying d'.pc ≠ none → trying d.pc ≠ none) → (drains d'.pc = true → drains d.pc = true) → RetryMove d d' os

theorem step_retryMove {d d' : Dialer} {a : Act} {os : List Obs} (h : step d a = some (d', os)) :
    RetryMove d d' os := by
  cases a with
  | dial ok =>
    simp only [step, Option.ite_none_right_eq_some, Option.some.injEq, Prod.mk.injEq] at h
    obtain ⟨hp, rfl, rfl⟩ := h
    refine .dials _ (by rw [hp]; rfl) ?_ ?_ rfl
    · cases ok <;> rfl
    · cases ok <;> rfl
  | connect ok =>
    simp only [step] at h
    split at h
    · rename_i token hp
      cases ok <;> cases h
      · exact .other (by simp) rfl (by simp [rests]) (by simp [tries, hp]) (by simp [trying]) (by simp [drains])
      · exact .other (by simp) rfl (by simp [rests]) (by simp [tries, hp]) (by simp [trying, hp]) (by simp [drains])
    · cases h
  | openBi ok =>
    simp only [step] at h
    split at h
    · rename_i token n hp
      have ht : trying d.pc ≠ none := by simp [trying, hp]
      split at h
      · split at h <;> cases h
        · exact .opens n _ _ ht rfl rfl rfl rfl
        · exact .opens n _ _ ht rfl rfl rfl rfl
      · cases h
        exact .other (by simp) rfl (by simp [rests]) (by simp [tries, hp]) (by simp [trying]) (by simp [drains])
    · cases h
  | event e =>
    simp only [step] at h
    split at h
    · rename_i n hp
      cases h
      by_cases hg : isGreeting (.event (.session e)) = true
      · cases e with
        | peerHandshake deviceId name capabilities pairingToken =>
          have hd : ({ d with pc := .draining n } : Dialer) = d := by rw [← hp]
          by_cases hr : d.receiverDropped = true
          · rw [send, if_pos hr]
            exact .other (by simp) rfl (by simp [isClosed, rests]) (by simp [tries, hp]) (by simp [isClosed, trying])
              (by simp [drains, hp])
          · rw [send, if_neg hr]
            exact .greets deviceId name capabilities pairingToken n hp hd
        | _ => cases hg
      · refine .other ?_ rfl ?_ (by simp [tries, hp]) ?_ (by simp [drains, hp])
        · intro o ho
          unfold send at ho
          split at ho
          · cases ho
          · rw [List.mem_singleton.mp ho]
            simpa [plain] using hg
        · cases isClosed e <;> simp [rests]
        · cases isClosed e <;> simp [trying]
    · cases h
  | ended =>
    simp only [step] at h
    split at h
    · rename_i n hp
      cases h
      exact .other (by simp) rfl (by simp [rests]) (by simp [tries, hp]) (by simp [trying]) (by simp [drains])
    · cases h
  | retry =>
    simp only [step, Option.ite_none_right_eq_some] at h
    obtain ⟨hp, h⟩ := h
    split at h
    · cases h
      exact .other (by simp) rfl (by simp [rests]) (by simp [tries]) (by simp [trying]) (by simp [drains])
    · rename_i hr
      cases h
      simp only [send, hr]
      exact .retries hp rfl rfl
  | wake =>
    simp only [step, Option.ite_none_right_eq_some, Option.some.injEq, Prod.mk.injEq] at h
    obtain ⟨hp, rfl, rfl⟩ := h
    exact .other (by simp) rfl (by simp [rests, hp]) (by simp [tries]) (by simp [trying]) (by simp [drains])
  | abort =>
    simp only [step, Option.ite_none_right_eq_some, Option.some.injEq, Prod.mk.injEq] at h
    obtain ⟨-, rfl, rfl⟩ := h
    exact .other (by simp) rfl (by simp [rests]) (by simp [tries]) (by simp [trying]) (by simp [drains])
  | dropReceiver =>
    cases h
    exact .other (by simp) rfl id id id id

/-! ## The counts over a run -/

/-- `before` are the outcomes of the attempts up to the one under way, whose
outcome so far is `x`; `a` retries since the last session, `k` since the last handshake. -/
structure Counted (before : List Outcome) (x : Outcome) (a k : Nat) : Prop where
  first : before = [] → a = 0 ∧ k = 0
  later : before ≠ [] → x ≠ .greeted → 0 < k
  opened : x ≠ .failed → a = 0
  greeted : x = .greeted → k = 0

structure Tally (tr : List Obs) (d : Dialer) : Prop where
  attempt : d.attempt.toNat = min (retriesSince isOpened tr) (2 ^ 32 - 1)
  resting : rests d.pc = true → (outcomes tr = [] → retriesSince isOpened tr = 0 ∧ retriesSince isGreeting tr = 0) ∧
    (outcomes tr ≠ [] → 0 < retriesSince isGreeting tr) ∧
      (Heard tr → retriesSince isOpened tr = retriesSince isGreeting tr)
  underWay : tries d.pc = true → ∃ before x, outcomes tr = before ++ [x] ∧
    Counted before x (retriesSince isOpened tr) (retriesSince isGreeting tr) ∧
      (trying d.pc ≠ none → x = .failed) ∧ (drains d.pc = true → x ≠ .failed) ∧
        (Heard tr → before ≠ [] ∧ x = .unheard ∨ retriesSince isOpened tr = retriesSince isGreeting tr)

theorem not_rests_and_tries {pc : Pc} (h : tries pc = true) : rests pc = false := by
  cases pc <;> first | rfl | cases h

theorem tries_of_trying {pc : Pc} (h : trying pc ≠ none) : tries pc = true := by
  cases pc <;> first | rfl | exact absurd rfl h

section
variable {tr os : List Obs} {d d' : Dialer} {localId : LocalIdentity} {keepalive : Time} {token : Option TokenBytes}

theorem foldl_same {β : Type} {f : β → Obs → β} (h : ∀ o ∈ os, ∀ b, f b o = b) (b : β) : os.foldl f b = b := by
  induction os generalizing b with
  | nil => rfl
  | cons o os ih =>
    rw [List.foldl_cons, h o List.mem_cons_self]
    exact ih (fun x hx => h x (List.mem_cons_of_mem o hx)) b

theorem plain_append (tr : List Obs) (h : ∀ o ∈ os, plain o = true) : retriesSince isOpened (tr ++ os) = retriesSince isOpened tr ∧
    retriesSince isGreeting (tr ++ os) = retriesSince isGreeting tr ∧ outcomes (tr ++ os) = outcomes tr := by
  rw [retriesSince_append, retriesSince_append, outcomes_append]
  exact ⟨foldl_same (fun o ho => (plain_counts (h o ho)).1) _, foldl_same (fun o ho => (plain_counts (h o ho)).2.1) _,
    foldl_same (fun o ho => (plain_counts (h o ho)).2.2) _⟩

theorem Tally.dials (ht : Tally tr d) (hr : rests d.pc = true) (hr' : rests d'.pc = false)
    (hd : drains d'.pc = false) (ha : d'.attempt = d.attempt) (given : Option TokenBytes) :
    Tally (tr ++ [.attempted given]) d' := by
  obtain ⟨hnil, hcons, hsame⟩ := ht.resting hr
  have hopened : retriesSince isOpened (tr ++ [.attempted given]) = retriesSince isOpened tr := retriesSince_append
  have hgreeted : retriesSince isGreeting (tr ++ [.attempted given]) = retriesSince isGreeting tr := retriesSince_append
  refine ⟨?_, fun h => ?_, fun _ => ⟨outcomes tr, .failed, outcomes_append, ?_, fun _ => rfl, fun h => ?_, fun h => ?_⟩⟩
  · rw [hopened, ha, ht.attempt]
  · rw [hr'] at h
    cases h
  · rw [hopened, hgreeted]
    exact ⟨hnil, fun hne _ => hcons hne, fun h => absurd rfl h, fun h => by cases h⟩
  · rw [hd] at h
    cases h
  · rw [hopened, hgreeted]
    exact Or.inr (hsame h.prefix)

theorem Tally.opens (ht : Tally tr d) {n : SessionHandle} {m : ConnectionMachine} {o : Obs} (hp : trying d.pc ≠ none)
    (hn : trying d'.pc = none) (hr : rests d'.pc = false) (ha : d'.attempt = 0) (ho : plain o = true) :
    Tally (tr ++ [.opened n m, o]) d' := by
  obtain ⟨before, x, hos, hc, hx, -, -⟩ := ht.underWay (tries_of_trying hp)
  have hplain := plain_counts ho
  have hopened : retriesSince isOpened (tr ++ [.opened n m, o]) = 0 := by
    rw [retriesSince_append]
    exact hplain.1 0
  have hgreeted : retriesSince isGreeting (tr ++ [.opened n m, o]) = retriesSince isGreeting tr := by
    rw [retriesSince_append]
    exact hplain.2.1 _
  have houtcomes : outcomes (tr ++ [.opened n m, o]) = before ++ [.unheard] := by
    rw [outcomes_append, hos]
    exact (hplain.2.2 _).trans (List.modifyLast_concat _ _ _)
  refine ⟨?_, fun h => ?_, fun _ => ⟨before, .unheard, houtcomes, ?_, fun h => ?_, fun _ => by simp, fun _ => ?_⟩⟩
  · rw [hopened, ha]
    rfl
  · rw [hr] at h
    cases h
  · rw [hopened, hgreeted]
    refine ⟨fun h => ⟨rfl, (hc.first h).2⟩, fun h _ => hc.later h ?_, fun _ => rfl, fun h => by cases h⟩
    rw [hx hp]
    simp
  · exact absurd hn h
  · rw [hopened, hgreeted]
    by_cases hb : before = []
    · exact Or.inr (hc.first hb).2.symm
    · exact Or.inl ⟨hb, rfl⟩

theorem Tally.greets (ht : Tally tr d) {n : SessionHandle} (hp : d.pc = .draining n) (deviceId : DeviceId)
    (name : String) (capabilities : List Capability) (given : Option TokenBytes) :
    Tally (tr ++ [.event (.session (.peerHandshake deviceId name capabilities given))]) d := by
  have htries : tries d.pc = true := by rw [hp]; rfl
  obtain ⟨before, x, hos, hc, -, hx, -⟩ := ht.underWay htries
  have hopened : retriesSince isOpened (tr ++ [.event (.session (.peerHandshake deviceId name capabilities given))]) =
      0 := by
    rw [retriesSince_append]
    exact hc.opened (hx (by rw [hp]; rfl))
  have hgreeted : retriesSince isGreeting
      (tr ++ [.event (.session (.peerHandshake deviceId name capabilities given))]) = 0 := retriesSince_append
  have houtcomes : outcomes (tr ++ [.event (.session (.peerHandshake deviceId name capabilities given))]) =
      before ++ [.greeted] := by
    rw [outcomes_append, hos]
    exact List.modifyLast_concat _ _ _
  refine ⟨?_, fun h => ?_, fun _ => ⟨before, .greeted, houtcomes, ?_, fun h => ?_, fun _ => by simp, fun _ => ?_⟩⟩
  · rw [hopened, ht.attempt, hc.opened (hx (by rw [hp]; rfl))]
  · rw [not_rests_and_tries htries] at h
    cases h
  · rw [hopened, hgreeted]
    exact ⟨fun _ => ⟨rfl, rfl⟩, fun _ h => absurd rfl h, fun _ => rfl, fun _ => rfl⟩
  · rw [hp] at h
    exact absurd rfl h
  · rw [hopened, hgreeted]
    exact Or.inr rfl

theorem Tally.retries (ht : Tally tr d) (hp : d.pc = .retry) (hp' : d'.pc = .sleeping)
    (ha : d'.attempt = saturatingAdd d.attempt 1) (delay : Time) :
    Tally (tr ++ [.event (.reconnecting d.attempt delay)]) d' := by
  obtain ⟨before, x, hos, -, -, -, hsame⟩ := ht.underWay (by rw [hp]; rfl)
  have hopened : retriesSince isOpened (tr ++ [.event (.reconnecting d.attempt delay)]) =
      retriesSince isOpened tr + 1 := retriesSince_append
  have hgreeted : retriesSince isGreeting (tr ++ [.event (.reconnecting d.attempt delay)]) =
      retriesSince isGreeting tr + 1 := retriesSince_append
  have houtcomes : outcomes (tr ++ [.event (.reconnecting d.attempt delay)]) = outcomes tr := outcomes_append
  refine ⟨?_, fun _ => ⟨fun h => ?_, fun _ => ?_, fun h => ?_⟩, fun h => ?_⟩
  · rw [hopened, ha, saturatingAdd_one, ht.attempt]
    omega
  · rw [houtcomes, hos] at h
    simp at h
  · rw [hgreeted]
    exact Nat.succ_pos _
  · rw [hopened, hgreeted]
    rcases hsame h.prefix with ⟨hb, rfl⟩ | heq
    · exact absurd (h tr _ _ [] rfl before hos) hb
    · rw [heq]
  · rw [hp'] at h
    cases h

theorem Tally.move (ht : Tally tr d) (h : RetryMove d d' os) : Tally (tr ++ os) d' := by
  cases h with
  | dials token hr hr' hd ha => exact ht.dials hr hr' hd ha token
  | opens n m o hp hn hr ha ho => exact ht.opens hp hn hr ha ho
  | greets deviceId name capabilities given n hp hd => exact hd ▸ ht.greets hp deviceId name capabilities given
  | retries hp hp' ha => exact ht.retries hp hp' ha _
  | other hos ha hr htr hn hd =>
    obtain ⟨hopened, hgreeted, houtcomes⟩ := plain_append tr hos
    refine ⟨?_, fun h => ?_, fun h => ?_⟩
    · rw [hopened, ha, ht.attempt]
    · obtain ⟨hnil, hcons, hsame⟩ := ht.resting (hr h)
      rw [hopened, hgreeted, houtcomes]
      exact ⟨hnil, hcons, fun h => hsame h.prefix⟩
    · obtain ⟨before, x, hos, hc, hx, hx', hsame⟩ := ht.underWay (htr h)
      rw [hopened, hgreeted, houtcomes]
      exact ⟨before, x, hos, hc, fun h => hx (hn h), fun h => hx' (hd h), fun h => hsame h.prefix⟩

theorem run_tally (h : Run (system localId keepalive token) always tr d) : Tally tr d := by
  refine h.invariant (I := Tally) (fun d h0 => ?_) (fun tr d a d' os _ hi _ hstep => hi.move (step_retryMove hstep))
  rw [h0]
  exact ⟨rfl, fun _ => ⟨fun _ => ⟨rfl, rfl⟩, fun h => absurd rfl h, fun _ => rfl⟩, fun h => by cases h⟩

/-! ## The retries of a run -/

theorem RetryMove.reconnecting {attempt : UInt32} {delay : Time} {pre post : List Obs} (h : RetryMove d d' os)
    (he : os = pre ++ .event (.reconnecting attempt delay) :: post) :
    pre = [] ∧ d.pc = .retry ∧ delay = Backoff.delay d.attempt := by
  have hmem : .event (.reconnecting attempt delay) ∈ os := by simp [he]
  cases h with
  | retries hp _ _ =>
    cases pre with
    | nil =>
      cases he
      exact ⟨rfl, hp, rfl⟩
    | cons o pre => simp at he
  | opens n m o _ _ _ _ ho =>
    simp only [List.mem_cons, List.not_mem_nil, or_false, reduceCtorEq, false_or] at hmem
    rw [← hmem] at ho
    cases ho
  | other hos _ _ _ _ _ => cases hos _ hmem
  | _ => simp at hmem

/-- A retry is announced by a loop that has run up to there. -/
theorem run_reconnecting (h : Run (system localId keepalive token) always tr d) :
    ∀ pre attempt delay post, tr = pre ++ .event (.reconnecting attempt delay) :: post →
      ∃ d', Run (system localId keepalive token) always pre d' ∧ d'.pc = .retry ∧ delay = Backoff.delay d'.attempt := by
  induction h with
  | init _ =>
    intro pre attempt delay post he
    simp at he
  | @step tr d a d' os hr _ hstep ih =>
    intro pre attempt delay post he
    have hmove := step_retryMove hstep
    rcases List.append_eq_append_iff.mp he with ⟨mid, rfl, hmid⟩ | ⟨mid, rfl, hmid⟩
    · obtain ⟨rfl, hp, hd⟩ := hmove.reconnecting hmid
      rw [List.append_nil]
      exact ⟨d, hr, hp, hd⟩
    · cases mid with
      | nil =>
        have hmid : os = [] ++ .event (.reconnecting attempt delay) :: post := hmid.symm
        obtain ⟨-, hp, hd⟩ := hmove.reconnecting hmid
        rw [List.append_nil] at hr
        exact ⟨d, hr, hp, hd⟩
      | cons o mid =>
        simp only [List.cons_append, List.cons.injEq] at hmid
        obtain ⟨rfl, -⟩ := hmid
        exact ih pre attempt delay mid rfl

/-- What is announced counts the retries since the last session that was opened. -/
theorem delay_of_tally (ht : Tally tr d) :
    Backoff.delay d.attempt = min (secs (2 ^ retriesSince isOpened tr)) Backoff.cap := by
  rw [Backoff.delay_eq, ht.attempt]
  exact Backoff.min_pow_min (by decide)

/-- Retries back off from the last handshake exactly when none follows a session
that reported no peer, unless that was the session of the first attempt. -/
theorem run_backs_off (h : Run (system localId keepalive token) always tr d) : BacksOff tr ↔ Heard tr := by
  constructor
  · intro hb pre attempt delay post he before hos
    by_contra hne
    obtain ⟨d', hr, hp, hd⟩ := run_reconnecting h pre attempt delay post he
    have ht := run_tally hr
    obtain ⟨before', x, hos', hc, -, -, -⟩ := ht.underWay (by rw [hp]; rfl)
    obtain ⟨rfl, hx⟩ := List.append_inj' (hos.symm.trans hos') rfl
    simp only [List.cons.injEq, and_true] at hx
    subst hx
    have hzero := hc.opened (by simp)
    have hpos := hc.later hne (by simp)
    -- the announced delay is one second, the one asked for at least two
    have hdelay := (hb pre attempt delay post he).symm.trans (hd.trans (delay_of_tally ht))
    rw [hzero] at hdelay
    have hpow : 2 ^ 1 ≤ 2 ^ retriesSince isGreeting pre := Nat.pow_le_pow_right Nat.two_pos hpos
    have htwo : secs 2 ≤ min (secs (2 ^ retriesSince isGreeting pre)) (secs 60) :=
      Nat.le_min.mpr ⟨Nat.mul_le_mul_right _ hpow, by decide⟩
    rw [hdelay] at htwo
    exact absurd htwo (by decide)
  · intro hh pre attempt delay post he
    obtain ⟨d', hr, hp, rfl⟩ := run_reconnecting h pre attempt delay post he
    have ht := run_tally hr
    obtain ⟨before, x, hos, -, -, -, hsame⟩ := ht.underWay (by rw [hp]; rfl)
    rw [delay_of_tally ht]
    rw [he] at hh
    rcases hsame hh.prefix with ⟨hb, rfl⟩ | heq
    · exact absurd (hh pre attempt _ post rfl before hos) hb
    · rw [heq]
      rfl

end

/-- The first attempt fails, the second reaches the peer, and the session is lost. -/
def lostAgain : List Act :=
  [.dial true, .connect false, .retry, .wake, .dial true, .connect true, .openBi true,
    .event (.peerHandshake (Bytes.fill 32 1) "pc" [] none), .event (.closed (.connectionLost "timed out")), .retry,
    .wake, .dial false, .retry]

theorem lostAgain_enabled : (exec (system phone (secs 20) none) anyway [] (initial phone (secs 20) none)
    lostAgain).isSome = true := by
  decide +kernel

theorem run_backs_off_lostAgain :
    let r := (exec (system phone (secs 20) none) anyway [] (initial phone (secs 20) none) lostAgain).get
      lostAgain_enabled
    BacksOff r.1 ↔ Heard r.1 :=
  run_backs_off (run_of_anyway rfl lostAgain_enabled)

/-- A peer of another version takes the second connection and closes it. -/
def turnedAway : List Act :=
  [.dial true, .connect false, .retry, .wake, .dial true, .connect true, .openBi true,
    .event (.closed (.versionMismatch 1 2)), .retry]

theorem turnedAway_enabled : (exec (system phone (secs 20) none) anyway [] (initial phone (secs 20) none)
    turnedAway).isSome = true := by
  decide +kernel

/-- The second retry waits one second as the first did. -/
theorem turnedAway_restarts : ∃ tr d, Run (system phone (secs 20) none) always tr d ∧
    (∃ pre, tr = pre ++ [.event (.reconnecting 0 (secs 1))] ∧ retriesSince isGreeting pre = 1) ∧ ¬ BacksOff tr := by
  refine ⟨_, _, run_of_anyway rfl turnedAway_enabled, ⟨_, rfl, by decide +kernel⟩, fun h => ?_⟩
  have hdelay := h _ 0 (secs 1) [] rfl
  revert hdelay
  decide +kernel

end Dialer

end PenguinSync
