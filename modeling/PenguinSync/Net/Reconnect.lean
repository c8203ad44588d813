import Mathlib.Data.List.ModifyLast
import PenguinSync.Lib.Lts
import PenguinSync.Net.Session

/-!
# The dialer's reconnect loop

The loop is followed from one await to the next, and its task can be aborted
at each of them. A connection, and the session on it, is known by how many the
loop had brought up before.
-/

namespace PenguinSync

open Lts

namespace Backoff

def base : Time := secs 1

def cap : Time := secs 60

/-- A `Duration` counts its seconds in 64 bits. -/
def checkedMul (d : Time) (n : UInt32) : Option Time :=
  if d * n.toNat < secs (2 ^ 64) then some (d * n.toNat) else none

def checkedShl (x n : UInt32) : Option UInt32 := if n < 32 then some (x <<< n) else none

def delay (attempt : UInt32) : Time :=
  let factor := (checkedShl 1 attempt).getD 0xFFFFFFFF
  min ((checkedMul base factor).getD cap) cap

end Backoff

def saturatingAdd (n m : UInt32) : UInt32 :=
  if n.toNat + m.toNat < 2 ^ 32 then n + m else 0xFFFFFFFF

abbrev SessionHandle := Nat

inductive DialerEvent where
  | connected (handle : SessionHandle)
  | session (e : SessionEvent)
  | reconnecting (attempt : UInt32) (delay : Time)
  deriving DecidableEq

namespace Dialer

/-- Where the loop awaits or what it does next. -/
inductive Pc where
  | dial
  | connecting (token : Option TokenBytes)
  | opening (token : Option TokenBytes) (connection : Nat)
  | draining (session : SessionHandle)
  | retry
  | sleeping
  | gone
  deriving DecidableEq

end Dialer

structure Dialer where
  localId : LocalIdentity
  keepaliveInterval : Time
  pairingToken : Option TokenBytes
  attempt : UInt32
  connections : Nat
  receiverDropped : Bool
  pc : Dialer.Pc
  deriving DecidableEq

namespace Dialer

inductive Act where
  | dial (ok : Bool)
  | connect (ok : Bool)
  | openBi (ok : Bool)
  | event (e : SessionEvent)
  | ended
  | retry
  | wake
  | abort
  | dropReceiver
  deriving DecidableEq

inductive Obs where
  | attempted (token : Option TokenBytes)
  | opened (h : SessionHandle) (m : ConnectionMachine)
  | event (e : DialerEvent)
  | hungUp (h : SessionHandle)
  deriving DecidableEq

def isClosed : SessionEvent → Bool
  | .closed _ => true
  | _ => false

def awaits : Pc → Bool
  | .connecting _ | .opening _ _ | .draining _ | .sleeping => true
  | _ => false

def send (d : Dialer) (e : DialerEvent) : List Obs := if d.receiverDropped then [] else [.event e]

def step (d : Dialer) : Act → Option (Dialer × List Obs)
  | .dial ok =>
    if d.pc = .dial then
      some ({ d with pairingToken := none, pc := if ok then .connecting d.pairingToken else .retry },
        [.attempted d.pairingToken])
    else none
  | .connect ok =>
    match d.pc with
    | .connecting token =>
      if ok then some ({ d with connections := d.connections + 1, pc := .opening token d.connections }, [])
      else some ({ d with pc := .retry }, [])
    | _ => none
  | .openBi ok =>
    match d.pc with
    | .opening token n =>
      if ok then
        let m := ConnectionMachine.new d.localId d.keepaliveInterval token
        if d.receiverDropped then some ({ d with attempt := 0, pc := .gone }, [.opened n m, .hungUp n])
        else some ({ d with attempt := 0, pc := .draining n }, [.opened n m, .event (.connected n)])
      else some ({ d with pc := .retry }, [])
    | _ => none
  | .event e =>
    match d.pc with
    | .draining n => some ({ d with pc := if isClosed e then .retry else .draining n }, d.send (.session e))
    | _ => none
  | .ended =>
    match d.pc with
    | .draining _ => some ({ d with pc := .retry }, [])
    | _ => none
  | .retry =>
    if d.pc = .retry then
      if d.receiverDropped then some ({ d with pc := .gone }, [])
      else some ({ d with attempt := saturatingAdd d.attempt 1, pc := .sleeping },
        d.send (.reconnecting d.attempt (Backoff.delay d.attempt)))
    else none
  | .wake => if d.pc = .sleeping then some ({ d with pc := .dial }, []) else none
  | .abort => if awaits d.pc then some ({ d with pc := .gone }, []) else none
  | .dropReceiver => some ({ d with receiverDropped := true }, [])

def initial (localId : LocalIdentity) (keepaliveInterval : Time) (pairingToken : Option TokenBytes) : Dialer :=
  { localId, keepaliveInterval, pairingToken, attempt := 0, connections := 0, receiverDropped := false, pc := .dial }

def system (localId : LocalIdentity) (keepaliveInterval : Time) (pairingToken : Option TokenBytes) :
    System Dialer Act Obs :=
  { init := (· = initial localId keepaliveInterval pairingToken), step }

/-! ## The attempts of a run -/

/-- A call of `connect_once`, and the machine of the session it returned. -/
structure Attempt where
  token : Option TokenBytes
  session : Option ConnectionMachine
  deriving DecidableEq

def note (as : List Attempt) : Obs → List Attempt
  | .attempted token => as ++ [⟨token, none⟩]
  | .opened _ m => as.modifyLast fun a => { a with session := some m }
  | _ => as

def attempts (tr : List Obs) : List Attempt := tr.foldl note []

/-- The attempt was handed `token`, and the driving task of the session it
yielded starts with a handshake that carries it. -/
def Attempt.Presents (a : Attempt) (token : Option TokenBytes) : Prop :=
  a.token = token ∧ ∀ m, a.session = some m →
    ∃ s h, (Session.new m).step (.start true) = some (s, [.sent (.handshake h)]) ∧ h.pairingToken = token

/-- Every attempt up to and including the first that yields a session presents
`token`, and every later one presents none. -/
def LastsUntilConnected (token : TokenBytes) (as : List Attempt) : Prop :=
  ∀ (k : Nat) (a : Attempt), as[k]? = some a →
    a.Presents (if (as.take k).any (·.session.isSome) then none else some token)

def FirstYields (as : List Attempt) : Prop := ∀ a b rest, as = a :: b :: rest → a.session ≠ none

section
variable {localId : LocalIdentity} {keepalive : Time} {token : TokenBytes} {given : Option TokenBytes}
  {tr os : List Obs} {d d' : Dialer} {a : Act} {as : List Attempt}

theorem attempts_append : attempts (tr ++ os) = os.foldl note (attempts tr) := List.foldl_append

def trying : Pc → Option (Option TokenBytes)
  | .connecting token | .opening token _ => some token
  | _ => none

inductive AttemptMove (d d' : Dialer) : List Obs → Prop
  | begins : d'.pairingToken = none → (∀ t, trying d'.pc = some t → t = d.pairingToken) →
      AttemptMove d d' [.attempted d.pairingToken]
  | yields {t : Option TokenBytes} {h : SessionHandle} {os : List Obs} : trying d.pc = some t →
      trying d'.pc = none → d'.pairingToken = d.pairingToken → (∀ as, os.foldl note as = as) →
      AttemptMove d d' (.opened h (.new d.localId d.keepaliveInterval t) :: os)
  | other {os : List Obs} : (∀ t, trying d'.pc = some t → trying d.pc = some t) →
      d'.pairingToken = d.pairingToken → (∀ as, os.foldl note as = as) → AttemptMove d d' os

theorem send_notes (d : Dialer) (e : DialerEvent) : ∀ as, (d.send e).foldl note as = as := by
  intro as
  unfold send
  split <;> rfl

theorem step_attemptMove (h : step d a = some (d', os)) : AttemptMove d d' os := by
  cases a with
  | dial ok =>
    simp only [step, Option.ite_none_right_eq_some, Option.some.injEq, Prod.mk.injEq] at h
    obtain ⟨-, rfl, rfl⟩ := h
    refine .begins rfl fun t ht => ?_
    cases ok <;> simp [trying] at ht
    exact ht.symm
  | connect ok =>
    simp only [step] at h
    split at h
    · rename_i token hp
      cases ok <;> cases h
      · exact .other (by simp [trying]) rfl (fun _ => rfl)
      · exact .other (by simp [trying, hp]) rfl (fun _ => rfl)
    · cases h
  | openBi ok =>
    simp only [step] at h
    split at h
    · rename_i token n hp
      have ht : trying d.pc = some token := by rw [hp]; rfl
      split at h
      · split at h <;> cases h
        · exact .yields ht rfl rfl (fun _ => rfl)
        · exact .yields ht rfl rfl (fun _ => rfl)
      · cases h
        exact .other (by simp [trying]) rfl (fun _ => rfl)
    · cases h
  | event e =>
    simp only [step] at h
    split at h
    · cases h
      refine .other ?_ rfl (send_notes d _)
      cases isClosed e <;> simp [trying]
    · cases h
  | ended =>
    simp only [step] at h
    split at h <;> cases h
    exact .other (by simp [trying]) rfl (fun _ => rfl)
  | retry =>
    simp only [step, Option.ite_none_right_eq_some] at h
    obtain ⟨-, h⟩ := h
    split at h <;> cases h
    · exact .other (by simp [trying]) rfl (fun _ => rfl)
    · exact .other (by simp [trying]) rfl (send_notes d _)
  | wake =>
    simp only [step, Option.ite_none_right_eq_some, Option.some.injEq, Prod.mk.injEq] at h
    obtain ⟨-, rfl, rfl⟩ := h
    exact .other (by simp [trying]) rfl (fun _ => rfl)
  | abort =>
    simp only [step, Option.ite_none_right_eq_some, Option.some.injEq, Prod.mk.injEq] at h
    obtain ⟨-, rfl, rfl⟩ := h
    exact .other (by simp [trying]) rfl (fun _ => rfl)
  | dropReceiver =>
    cases h
    exact .other (fun _ h => h) rfl (fun _ => rfl)

/-! ## Which attempt carries the token -/

def Attempt.Carries (a : Attempt) (token : Option TokenBytes) : Prop :=
  a.token = token ∧ ∀ m, a.session = some m → m.outgoingPairingToken = token

theorem Attempt.presents_iff {b : Attempt} : b.Presents given ↔ b.Carries given := by
  have hs : ∀ m : ConnectionMachine, (∃ s h, (Session.new m).step (.start true) = some (s, [.sent (.handshake h)]) ∧
      h.pairingToken = given) ↔ m.outgoingPairingToken = given := by
    intro m
    constructor
    · rintro ⟨s, h, hstep, ht⟩
      cases hstep
      exact ht
    · intro ht
      exact ⟨_, m.ownHandshake, rfl, ht⟩
  unfold Presents Carries
  simp only [hs]

/-- The first attempt takes the token; the attempt under way has no session yet. -/
structure TokenInv (given : Option TokenBytes) (as : List Attempt) (d : Dialer) : Prop where
  unspent : as = [] → d.pairingToken = given
  spent : as ≠ [] → d.pairingToken = none
  carries : ∀ (k : Nat) (a : Attempt), as[k]? = some a → a.Carries (if k = 0 then given else none)
  pending : ∀ t, trying d.pc = some t → ∃ before, as = before ++ [⟨t, none⟩]

theorem get_concat {x : Attempt} {k : Nat} {b : Attempt} (h : (as ++ [x])[k]? = some b) :
    as[k]? = some b ∨ k = as.length ∧ b = x := by
  have hlt := get_lt h
  rw [List.length_append, List.length_singleton] at hlt
  rcases get_of_append h with h | ⟨hk, hb⟩
  · exact Or.inl h
  · exact Or.inr ⟨by omega, List.mem_singleton.mp hb⟩

theorem TokenInv.move (hi : TokenInv given as d) (h : AttemptMove d d' os) :
    TokenInv given (os.foldl note as) d' := by
  cases h with
  | begins hn ht =>
    refine ⟨fun h => by simp [note] at h, fun _ => hn, fun k b hk => ?_, fun t h => ?_⟩
    · rcases get_concat hk with hk | ⟨rfl, rfl⟩
      · exact hi.carries k b hk
      · refine ⟨?_, nofun⟩
        by_cases he : as = []
        · rw [hi.unspent he, if_pos (by simp [he])]
        · rw [hi.spent he, if_neg (by simpa using he)]
    · rw [ht t h]
      exact ⟨as, rfl⟩
  | @yields t h os ht hn hp hos =>
    obtain ⟨before, rfl⟩ := hi.pending t ht
    have hlast : note (before ++ [⟨t, none⟩]) (.opened h (.new d.localId d.keepaliveInterval t)) =
        before ++ [⟨t, some (.new d.localId d.keepaliveInterval t)⟩] := List.modifyLast_concat _ _ _
    rw [List.foldl_cons, hos, hlast]
    refine ⟨fun h => by simp at h, fun _ => hp.trans (hi.spent (by simp)), fun k b hk => ?_, fun t h => ?_⟩
    · rcases get_concat hk with hk | ⟨rfl, rfl⟩
      · exact hi.carries k b (get_append hk _)
      · have hc := hi.carries _ _ (get_snoc before _ [])
        refine ⟨hc.1, fun m hm => ?_⟩
        cases hm
        exact hc.1
    · rw [hn] at h
      cases h
  | other ht hp hos =>
    rw [hos]
    exact ⟨fun h => hp.trans (hi.unspent h), fun h => hp.trans (hi.spent h), hi.carries, fun t h => hi.pending t (ht t h)⟩

theorem run_tokenInv (h : Run (system localId keepalive given) always tr d) : TokenInv given (attempts tr) d := by
  refine h.invariant (I := fun tr d => TokenInv given (attempts tr) d) (fun d h0 => ?_)
    (fun tr d a d' os _ hi _ hstep => ?_)
  · rw [h0]
    exact ⟨fun _ => rfl, fun h => absurd rfl h, fun k a hk => by simp [attempts] at hk, fun t ht => by cases ht⟩
  · rw [attempts_append]
    exact hi.move (step_attemptMove hstep)

/-- Where only the first attempt carries a token, it lasts until the first
session exactly when the first attempt yields one or is the only one. -/
theorem lastsUntilConnected_iff
    (hc : ∀ (k : Nat) (a : Attempt), as[k]? = some a → a.Carries (if k = 0 then some token else none)) :
    LastsUntilConnected token as ↔ FirstYields as := by
  constructor
  · rintro hl a b rest rfl hn
    have hb := Attempt.presents_iff.mp (hl 1 b rfl)
    have hnone := (hc 1 b rfl).1
    rw [hb.1] at hnone
    simp [hn] at hnone
  · intro hf k a hk
    rw [Attempt.presents_iff]
    have ha := hc k a hk
    cases k with
    | zero => simpa using ha
    | succ k =>
      match as, hk, hf with
      | [b], hk, _ => simp at hk
      | b :: c :: rest, hk, hf =>
        have hb : b.session.isSome = true := by
          rw [Option.isSome_iff_ne_none]
          exact hf b c rest rfl
        simpa [hb] using ha

/-- The token is taken by the first attempt, whatever comes of it: it lasts
until the first session exactly when no attempt follows a failed first one. -/
theorem run_token_lasts (h : Run (system localId keepalive (some token)) always tr d) :
    LastsUntilConnected token (attempts tr) ↔ FirstYields (attempts tr) :=
  lastsUntilConnected_iff (run_tokenInv h).carries

end

def phone : LocalIdentity := ⟨Bytes.fill 32 2, "phone", []⟩

def scanned : TokenBytes := Bytes.fill tokenLen 7

def reached : List Act :=
  [.dial true, .connect true, .openBi true, .event (.closed (.connectionLost "timed out")), .retry, .wake, .dial true,
    .connect true, .openBi true]

theorem reached_enabled : (exec (system phone (secs 20) (some scanned)) anyway []
    (initial phone (secs 20) (some scanned)) reached).isSome = true := by
  decide +kernel

theorem run_token_lasts_reached :
    let r := (exec (system phone (secs 20) (some scanned)) anyway [] (initial phone (secs 20) (some scanned))
      reached).get reached_enabled
    LastsUntilConnected scanned (attempts r.1) ↔ FirstYields (attempts r.1) :=
  run_token_lasts (run_of_anyway rfl reached_enabled)

/-- The first attempt times out in the QUIC handshake; the second reaches the daemon. -/
def unanswered : List Act :=
  [.dial true, .connect false, .retry, .wake, .dial true, .connect true, .openBi true]

theorem unanswered_enabled : (exec (system phone (secs 20) (some scanned)) anyway []
    (initial phone (secs 20) (some scanned)) unanswered).isSome = true := by
  decide +kernel

/-- The only attempt to yield a session presents no token. -/
theorem unanswered_tokenless : ∃ tr d, Run (system phone (secs 20) (some scanned)) always tr d ∧
    attempts tr = [⟨some scanned, none⟩, ⟨none, some (.new phone (secs 20) none)⟩] ∧
    ¬ LastsUntilConnected scanned (attempts tr) := by
  refine ⟨_, _, run_of_anyway rfl unanswered_enabled, by decide +kernel, fun h => ?_⟩
  have hp := (Attempt.presents_iff.mp (h 1 ⟨none, some (.new phone (secs 20) none)⟩ (by decide +kernel))).1
  exact absurd hp (by decide +kernel)

end Dialer

end PenguinSync
