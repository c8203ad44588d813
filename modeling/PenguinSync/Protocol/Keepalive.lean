import Mathlib.Data.List.Chain
import PenguinSync.Lib.Lts
import PenguinSync.Protocol.History

/-!
# Keepalive

What is read off the log of a machine is enough to tell which ping it waits
for. A ping is waited for until its pong, the timeout or the next ping.
-/

namespace PenguinSync

open Lts

abbrev LogEntry := Event × List Action

/-- A tick at time `s` that sent a ping with the nonce `n`. -/
def PingedAt (n : UInt64) (s : Time) (e : LogEntry) : Prop := e.1 = .tick s ∧ .send (.ping ⟨n⟩) ∈ e.2

/-- What ends the wait for a ping with the nonce `n`. -/
def Settles (n : UInt64) (e : LogEntry) : Prop :=
  e.1 = .received (.pong ⟨n⟩) ∨ .keepaliveTimedOut ∈ e.2 ∨ ∃ p, .send (.ping p) ∈ e.2

/-- The last ping was sent at tick time `s` with the nonce `n`, and neither its pong nor a timeout came since. -/
def Unanswered (n : UInt64) (s : Time) (log : Log) : Prop := Since (PingedAt n s) (Settles n) log

def Accepted (e : LogEntry) : Prop :=
  ∃ h, e.1 = .received (.handshake h) ∧ h.version = protocolVersion ∧ h.report ∈ e.2

def IsTick (e : LogEntry) : Prop := ∃ now, e.1 = .tick now

def Matching (log : Log) (ev : Event) : Prop := ∃ n s, Unanswered n s log ∧ ev = .received (.pong ⟨n⟩)

def Event.tick? : Event → Option Time
  | .tick now => some now
  | _ => none

def Log.ticks (log : Log) : List Time := log.filterMap fun e => e.1.tick?

theorem unanswered_snoc {n : UInt64} {s : Time} {log : Log} {e : LogEntry} :
    Unanswered n s (log ++ [e]) ↔ PingedAt n s e ∨ Unanswered n s log ∧ ¬ Settles n e := by
  unfold Unanswered
  rw [since_append, since_singleton]
  simp only [List.mem_singleton, forall_eq]

/-! ## Histories in two parts -/

section
variable {m₀ m : ConnectionMachine} {log pre post : Log} {ev : Event} {acts : List Action}

theorem History.last_call (h : History m₀ (log ++ [(ev, acts)]) m) :
    ∃ m₁ nonce clock, History m₀ log m₁ ∧ Call m₁ nonce clock ev m acts := by
  generalize hl : log ++ [(ev, acts)] = l at h
  cases h with
  | new => simp at hl
  | @call log' m₁ ev' nonce clock _ acts' hh hc =>
    obtain ⟨rfl, he⟩ := List.append_inj' hl rfl
    simp only [List.cons.injEq, Prod.mk.injEq, and_true] at he
    obtain ⟨rfl, rfl⟩ := he
    exact ⟨m₁, nonce, clock, hh, handle_call hc⟩

theorem History.split (h : History m₀ (pre ++ post) m) : ∃ m₁, History m₀ pre m₁ ∧ History m₁ post m := by
  generalize hl : pre ++ post = l at h
  induction h generalizing post with
  | new =>
    obtain ⟨rfl, rfl⟩ := List.append_eq_nil_iff.mp hl
    exact ⟨m₀, .new, .new⟩
  | @call log m₁ ev nonce clock m' acts hh hc ih =>
    rcases List.eq_nil_or_concat post with rfl | ⟨post', x, rfl⟩
    · rw [List.append_nil] at hl
      exact ⟨m', hl ▸ .call hh hc, .new⟩
    · rw [List.concat_eq_append, ← List.append_assoc] at hl
      obtain ⟨hl, hx⟩ := List.append_inj' hl rfl
      obtain ⟨m₂, h1, h2⟩ := ih hl
      rw [List.concat_eq_append, hx]
      exact ⟨m₂, h1, .call h2 hc⟩

theorem History.at_call (h : History m₀ (pre ++ (ev, acts) :: post) m) :
    ∃ m₁ m₂ nonce clock, History m₀ pre m₁ ∧ Call m₁ nonce clock ev m₂ acts ∧ History m₂ post m := by
  rw [List.append_cons] at h
  obtain ⟨m₂, h1, h2⟩ := h.split
  obtain ⟨m₁, nonce, clock, h1, hc⟩ := h1.last_call
  exact ⟨m₁, m₂, nonce, clock, h1, hc, h2⟩

end

/-! ## The machine and its log -/

/-- What the fields that keepalive rests on say about the log. -/
structure Keepalive (interval : Time) (log : Log) (m : ConnectionMachine) : Prop where
  every : m.keepaliveInterval = interval
  quiet : m.phase = .awaitingPeerHandshake → m.pendingPing = none ∧ m.lastPingSent = none
  accepted : m.phase = .ready → ∃ e ∈ log, Accepted e
  pending : ∀ n s, m.pendingPing = some (n, s) ↔ Unanswered n s log
  last : ∀ e ∈ log, ∀ n s, PingedAt n s e → ∃ l, m.lastPingSent = some l ∧ s ≤ l
  fresh : Since Accepted IsTick log → m.phase = .ready ∧ m.pendingPing = none ∧ m.lastPingSent = none

section
variable {interval : Time} {log : Log} {m m' : ConnectionMachine} {ev : Event} {nonce : UInt64} {clock : Time}
  {acts : List Action}

theorem Keepalive.new (localId : LocalIdentity) (token : Option TokenBytes) :
    Keepalive interval [] (.new localId interval token) where
  every := rfl
  quiet := fun _ => ⟨rfl, rfl⟩
  accepted := by
    intro h
    cases h
  pending := by
    intro n s
    constructor
    · intro h
      cases h
    · intro h
      exact absurd h not_since_nil
  last := by
    intro e he
    cases he
  fresh := fun h => absurd h not_since_nil

theorem Keepalive.pending_call (hk : Keepalive interval log m) (hc : Call m nonce clock ev m' acts) (n : UInt64)
    (s : Time) : m'.pendingPing = some (n, s) ↔ Unanswered n s (log ++ [(ev, acts)]) := by
  rw [unanswered_snoc, ← hk.pending]
  cases hc with
  | premature msg hp _ => simp [PingedAt, (hk.quiet hp).1]
  | ponged p sentAt _ hp =>
    obtain ⟨k⟩ := p
    constructor
    · intro h
      cases h
    · rintro (⟨h, -⟩ | ⟨h, hn⟩)
      · cases h
      · rw [hp] at h
        cases h
        exact absurd (Or.inl rfl) hn
  | stale p _ hp =>
    obtain ⟨k⟩ := p
    have hne : m.pendingPing = some (n, s) → n ≠ k := by
      rintro h rfl
      exact hp s h
    simp only [PingedAt, Settles]
    constructor
    · intro h
      exact Or.inr ⟨h, by simpa using fun hk => hne h hk.symm⟩
    · rintro (⟨h, -⟩ | ⟨h, -⟩)
      · cases h
      · exact h
  | lost now sentAt k _ hp _ => simp [PingedAt, Settles]
  | pinged now l _ hp _ _ =>
    simp only [PingedAt, Settles, Option.some.injEq, Prod.mk.injEq, Event.tick.injEq, List.mem_singleton,
      Action.send.injEq, Message.ping.injEq, Ping.mk.injEq, exists_eq, or_true, not_true_eq_false, and_false, or_false]
    constructor
    · rintro ⟨rfl, rfl⟩
      exact ⟨rfl, rfl⟩
    · rintro ⟨rfl, rfl⟩
      exact ⟨rfl, rfl⟩
  | _ => simp [PingedAt, Settles]

theorem Keepalive.last_call (hk : Keepalive interval log m) (hI : 0 < interval) (hc : Call m nonce clock ev m' acts) :
    ∀ e ∈ log ++ [(ev, acts)], ∀ n s, PingedAt n s e → ∃ l, m'.lastPingSent = some l ∧ s ≤ l := by
  intro e he n s hs
  rcases List.mem_append.mp he with he | he
  · obtain ⟨l, hl, hsl⟩ := hk.last e he n s hs
    cases hc with
    | baseline now _ _ hn =>
      rw [hn] at hl
      cases hl
    | pinged now l' _ _ hl' hd =>
      rw [hl'] at hl
      cases hl
      rw [hk.every] at hd
      have hlt : l < now := Nat.lt_of_sub_pos (Nat.lt_of_lt_of_le hI hd)
      exact ⟨now, rfl, Nat.le_trans hsl (Nat.le_of_lt hlt)⟩
    | _ => exact ⟨l, hl, hsl⟩
  · rw [List.mem_singleton] at he
    subst he
    cases hc with
    | pinged now l' _ _ _ _ =>
      cases hs.1
      exact ⟨s, rfl, Nat.le_refl _⟩
    | _ => simp [PingedAt] at hs

theorem Keepalive.fresh_call (hk : Keepalive interval log m) (hc : Call m nonce clock ev m' acts)
    (hs : Since Accepted IsTick (log ++ [(ev, acts)])) :
    m'.phase = .ready ∧ m'.pendingPing = none ∧ m'.lastPingSent = none := by
  rw [since_append, since_singleton] at hs
  rcases hs with ⟨h, rfl, -, ha⟩ | ⟨hs, ht⟩
  · cases hc with
    | opened _ hp _ => exact ⟨rfl, hk.quiet hp⟩
    | rejected _ _ _ => simp [Handshake.report] at ha
    | repeated _ _ => cases ha
    | premature _ _ hn => exact absurd rfl (hn h)
  · have ht : ¬ IsTick (ev, acts) := ht _ (List.mem_singleton_self _)
    obtain ⟨hr, hp, hl⟩ := hk.fresh hs
    cases hc with
    | baseline now _ _ _ => exact absurd ⟨now, rfl⟩ ht
    | pinged now _ _ _ _ _ => exact absurd ⟨now, rfl⟩ ht
    | lost now _ _ _ _ _ => exact absurd ⟨now, rfl⟩ ht
    | opened _ _ _ => exact ⟨rfl, hp, hl⟩
    | ponged _ _ _ _ => exact ⟨hr, rfl, hl⟩
    | _ => exact ⟨hr, hp, hl⟩

theorem Keepalive.call (hk : Keepalive interval log m) (hI : 0 < interval) (hc : Call m nonce clock ev m' acts) :
    Keepalive interval (log ++ [(ev, acts)]) m' where
  every := by
    rw [← hk.every]
    cases hc <;> rfl
  quiet := by
    intro hp
    have hq : m.phase = .awaitingPeerHandshake := by
      rw [← not_ready]
      intro hr
      rw [hc.ready hr] at hp
      cases hp
    cases hc with
    | opened _ _ _ => cases hp
    | ponged _ _ hr _ | lost _ _ _ hr _ _ | baseline _ hr _ _ | pinged _ _ hr _ _ _ =>
      rw [hq] at hr
      cases hr
    | _ => exact hk.quiet hq
  accepted := by
    intro hr
    by_cases hp : m.phase = .ready
    · obtain ⟨e, he, ha⟩ := hk.accepted hp
      exact ⟨e, List.mem_append_left _ he, ha⟩
    · refine ⟨_, List.mem_append_right _ (List.mem_singleton_self _), ?_⟩
      cases hc with
      | opened h _ hv => exact ⟨h, rfl, hv, List.mem_singleton_self _⟩
      | _ => exact absurd hr hp
  pending := hk.pending_call hc
  last := hk.last_call hI hc
  fresh := hk.fresh_call hc

theorem History.keepalive {localId : LocalIdentity} {token : Option TokenBytes} (hI : 0 < interval)
    (h : History (.new localId interval token) log m) : Keepalive interval log m := by
  induction h with
  | new => exact .new localId token
  | call _ hc ih => exact ih.call hI (handle_call hc)

end

/-! ## One call after a history -/

section
variable {interval : Time} {log : Log} {m m' : ConnectionMachine} {ev : Event} {nonce : UInt64} {clock : Time}
  {acts : List Action}

theorem Keepalive.timedOut_iff {now : Time} (hk : Keepalive interval log m)
    (hc : Call m nonce clock (.tick now) m' acts) :
    .keepaliveTimedOut ∈ acts ↔ ∃ n s, Unanswered n s log ∧ 3 * interval ≤ now - s := by
  have hnone : m.pendingPing = none → ¬ ∃ n s, Unanswered n s log ∧ 3 * interval ≤ now - s := by
    rintro hp ⟨n, s, hu, -⟩
    rw [← hk.pending, hp] at hu
    cases hu
  have hI := hk.every
  cases hc with
  | early _ hp => simpa using hnone (hk.quiet hp).1
  | waiting _ sentAt n _ hp hlt =>
    constructor
    · intro h
      cases h
    · rintro ⟨k, s, hu, hle⟩
      rw [← hk.pending, hp] at hu
      cases hu
      rw [hI, Nat.mul_comm] at hlt
      exact absurd hle (Nat.not_le.mpr hlt)
  | lost _ sentAt n _ hp hle =>
    rw [hI, Nat.mul_comm] at hle
    exact ⟨fun _ => ⟨n, sentAt, (hk.pending _ _).mp hp, hle⟩, fun _ => List.mem_singleton_self _⟩
  | baseline _ _ hp _ => simpa using hnone hp
  | undue _ _ _ hp _ _ => simpa using hnone hp
  | pinged _ _ _ hp _ _ => simpa using hnone hp

theorem Keepalive.ping_spaced {p : Ping} (hk : Keepalive interval log m) (hI : 0 < interval)
    (hc : Call m nonce clock ev m' acts) (hp : .send (.ping p) ∈ acts) :
    ∃ s, ev = .tick s ∧ (∀ e ∈ log, ∀ n s', PingedAt n s' e → s' + interval ≤ s) ∧ ∃ e ∈ log, Accepted e := by
  cases hc with
  | pinged now last hr _ hl hd =>
    refine ⟨now, rfl, fun e he n s' hs => ?_, hk.accepted hr⟩
    obtain ⟨l, hl', hsl⟩ := hk.last e he n s' hs
    rw [hl] at hl'
    cases hl'
    rw [hk.every] at hd
    have hlt : last < now := Nat.lt_of_sub_pos (Nat.lt_of_lt_of_le hI hd)
    calc s' + interval ≤ last + (now - last) := Nat.add_le_add hsl hd
      _ = now := Nat.add_sub_cancel' (Nat.le_of_lt hlt)
  | _ => simp at hp

theorem Keepalive.ponged_answers {rtt : Time} (hk : Keepalive interval log m) (hc : Call m nonce clock ev m' acts)
    (hp : .ponged rtt ∈ acts) : ∃ n s, ev = .received (.pong ⟨n⟩) ∧ Unanswered n s log := by
  cases hc with
  | ponged p sentAt _ hw => exact ⟨p.nonce, sentAt, rfl, (hk.pending _ _).mp hw⟩
  | _ => simp at hp

theorem Call.one_ping {p q : Ping} (hc : Call m nonce clock ev m' acts) (hp : .send (.ping p) ∈ acts)
    (hq : .send (.ping q) ∈ acts) : p = q := by
  cases hc with
  | pinged now last _ _ _ _ =>
    simp only [List.mem_singleton, Action.send.injEq, Message.ping.injEq] at hp hq
    rw [hp, hq]
  | _ => simp at hp

end

/-! ## Pongs and the pings they answer -/

def PongedAt (log : Log) (j : Nat) : Prop := ∃ ev acts rtt, log[j]? = some (ev, acts) ∧ .ponged rtt ∈ acts

/-- The pong at `j` has the nonce of the ping sent at `i`, which was waited for in between. -/
def Answers (log : Log) (j i : Nat) : Prop :=
  i < j ∧ ∃ n s e acts, log[j]? = some (.received (.pong ⟨n⟩), acts) ∧ log[i]? = some e ∧ PingedAt n s e ∧
    NoneBetween (Settles n) i j log

section
variable {interval : Time} {localId : LocalIdentity} {token : Option TokenBytes} {log : Log} {m : ConnectionMachine}
  {i j : Nat}

theorem split_at {e : LogEntry} (h : log[j]? = some e) : log = log.take j ++ e :: log.drop (j + 1) := by
  obtain ⟨hj, rfl⟩ := List.getElem?_eq_some_iff.mp h
  rw [← List.drop_eq_getElem_cons hj, List.take_append_drop]

theorem Unanswered.position {n : UInt64} {s : Time} (h : Unanswered n s (log.take j)) :
    ∃ i e, i < j ∧ log[i]? = some e ∧ PingedAt n s e ∧ NoneBetween (Settles n) i j log := by
  obtain ⟨pre, e, post, hl, hs, hn⟩ := h
  have hlen : (log.take j).length = pre.length + (post.length + 1) := by
    rw [hl, List.length_append, List.length_cons]
  have hle : (log.take j).length ≤ j := List.length_take_le _ _
  have hat : ∀ k, k < j → log[k]? = (pre ++ e :: post)[k]? := by
    intro k hk
    rw [← hl, List.getElem?_take_of_lt hk]
  refine ⟨pre.length, e, by omega, ?_, hs, ?_⟩
  · rw [hat _ (by omega), get_snoc]
  · intro k x hik hkj hx
    rw [hat k hkj] at hx
    exact noneAfter_last pre hn k x hik (get_lt hx) hx

theorem History.answers (hI : 0 < interval) (h : History (.new localId interval token) log m) (hj : PongedAt log j) :
    ∃ i, Answers log j i := by
  obtain ⟨ev, acts, rtt, hev, hp⟩ := hj
  have hlog := split_at hev
  rw [hlog] at h
  obtain ⟨m₁, m₂, nonce, clock, h1, hc, -⟩ := h.at_call
  obtain ⟨n, s, rfl, hu⟩ := (h1.keepalive hI).ponged_answers hc hp
  obtain ⟨i, e, hij, he, hs, hn⟩ := hu.position
  exact ⟨i, hij, n, s, e, acts, hev, he, hs, hn⟩

/-- A pong settles the ping it answers, so the next one answers another. -/
theorem History.answers_distinct {j' : Nat} (h : History (.new localId interval token) log m)
    (hj : Answers log j i) (hj' : Answers log j' i) : ¬ j < j' := by
  obtain ⟨hij, n, s, e, acts, hev, he, hs, -⟩ := hj
  obtain ⟨-, n', s', e', acts', hev', he', hs', hn⟩ := hj'
  rw [he] at he'
  cases he'
  obtain ⟨ev, as⟩ := e
  rw [split_at he] at h
  obtain ⟨m₁, m₂, nonce, clock, -, hc, -⟩ := h.at_call
  have hnn : n = n' := by
    have hp := hc.one_ping hs.2 hs'.2
    cases hp
    rfl
  intro hlt
  exact hn j _ hij hlt hev (Or.inl (by rw [hnn]))

end

/-! ## A peer that falls silent -/

def Paced (δ : Time) (ts : List Time) : Prop := ts.IsChain fun a b => b ≤ a + δ

/-- Until its timeout a silent peer is left at most an interval before the ping and three after it. -/
structure Silent (interval δ t₀ : Time) (suf : Log) (m : ConnectionMachine) : Prop where
  ready : m.phase = .ready
  every : m.keepaliveInterval = interval
  due : (m.pendingPing = none ∧ m.lastPingSent = some t₀ ∧ ∀ now ∈ t₀ :: suf.ticks, now < t₀ + interval) ∨
    ∃ n s, m.pendingPing = some (n, s) ∧ s < t₀ + interval + δ ∧ ∀ now ∈ t₀ :: suf.ticks, now < s + 3 * interval

def TimedOutBy (bound : Time) (suf : Log) : Prop :=
  ∃ now acts, (.tick now, acts) ∈ suf ∧ .keepaliveTimedOut ∈ acts ∧ now < bound

section
variable {interval δ t₀ : Nat} {suf log : Log} {m m' : ConnectionMachine} {ev : Event} {nonce : UInt64} {clock : Time}
  {acts : List Action}

theorem ticks_snoc (log : Log) (e : LogEntry) : Log.ticks (log ++ [e]) = log.ticks ++ e.1.tick?.toList := by
  unfold Log.ticks
  rw [List.filterMap_append]
  cases h : e.1.tick? <;> simp [h]

theorem Silent.other (hs : Silent interval δ t₀ suf m) (ht : ev.tick? = none) (hr : m'.phase = .ready)
    (hi : m'.keepaliveInterval = m.keepaliveInterval) (hp : m'.pendingPing = m.pendingPing)
    (hl : m'.lastPingSent = m.lastPingSent) : Silent interval δ t₀ (suf ++ [(ev, acts)]) m' where
  ready := hr
  every := hi.trans hs.every
  due := by
    have hticks : Log.ticks (suf ++ [(ev, acts)]) = suf.ticks := by rw [ticks_snoc, ht]; exact List.append_nil _
    rw [hticks, hp, hl]
    exact hs.due

theorem Silent.tick {now : Nat} (hI : 0 < interval) (hs : Silent interval δ t₀ suf m)
    (hc : Call m nonce clock (.tick now) m' acts) (hnow : ∃ T ∈ t₀ :: suf.ticks, now ≤ T + δ) :
    Silent interval δ t₀ (suf ++ [(.tick now, acts)]) m' ∨
      .keepaliveTimedOut ∈ acts ∧ now < t₀ + 4 * interval + 2 * δ := by
  obtain ⟨T, hT, hgap⟩ := hnow
  have hall : ∀ {b : Nat}, (∀ t ∈ t₀ :: suf.ticks, t < b) → now < b →
      ∀ t ∈ t₀ :: Log.ticks (suf ++ [(.tick now, acts)]), t < b := by
    intro b hb hn t ht
    rw [ticks_snoc, ← List.cons_append] at ht
    rcases List.mem_append.mp ht with ht | ht
    · exact hb t ht
    · rw [List.mem_singleton.mp ht]
      exact hn
  have hbefore : ∀ {b : Nat}, (∀ t ∈ t₀ :: suf.ticks, t < b) → now < b + δ := fun hb =>
    Nat.lt_of_le_of_lt hgap (Nat.add_lt_add_right (hb T hT) δ)
  rcases hs.due with ⟨hp, hl, hb⟩ | ⟨n, (s : Nat), hp, hsent, hb⟩
  · -- no ping was sent yet: either it is sent now or now is still within the first interval
    have hlate := hbefore hb
    cases hc with
    | early _ hr => exact absurd (hs.ready.symm.trans hr) (by simp)
    | waiting _ _ _ _ hr _ => exact absurd (hp.symm.trans hr) (by simp)
    | lost _ _ _ _ hr _ => exact absurd (hp.symm.trans hr) (by simp)
    | baseline _ _ _ hr => exact absurd (hl.symm.trans hr) (by simp)
    | undue _ last _ _ hlast hd =>
      rw [hl] at hlast
      cases hlast
      have hd : now - t₀ < interval := hs.every ▸ hd
      exact Or.inl ⟨hs.ready, hs.every, Or.inl ⟨hp, hl, hall hb (by omega)⟩⟩
    | pinged _ last _ _ hlast hd =>
      rw [hl] at hlast
      cases hlast
      have hd : interval ≤ now - t₀ := hs.every ▸ hd
      refine Or.inl ⟨hs.ready, hs.every, Or.inr ⟨nonce, now, rfl, hlate, hall (fun t ht => ?_) (by omega)⟩⟩
      have ht : t < t₀ + interval := hb t ht
      show t < now + 3 * interval
      omega
  · -- a ping is out: either it is given up on now or now is within three intervals of it
    have hlate := hbefore hb
    cases hc with
    | early _ hr => exact absurd (hs.ready.symm.trans hr) (by simp)
    | baseline _ _ hr _ => exact absurd (hp.symm.trans hr) (by simp)
    | undue _ _ _ hr _ _ => exact absurd (hp.symm.trans hr) (by simp)
    | pinged _ _ _ hr _ _ => exact absurd (hp.symm.trans hr) (by simp)
    | waiting _ sentAt k _ hw hlt =>
      rw [hp] at hw
      cases hw
      have hlt : now - s < interval * 3 := hs.every ▸ hlt
      exact Or.inl ⟨hs.ready, hs.every, Or.inr ⟨n, s, hp, hsent, hall hb (by omega)⟩⟩
    | lost _ sentAt k _ _ _ =>
      have hsent : s < t₀ + interval + δ := hsent
      exact Or.inr ⟨List.mem_singleton_self _, by omega⟩

/-- While the peer's pongs do not match, every call keeps the bounds or is the timeout. -/
theorem Silent.call (hI : 0 < interval) (hs : Silent interval δ t₀ suf m) (hk : Keepalive interval log m)
    (hc : Call m nonce clock ev m' acts) (hnow : ∀ now, ev = .tick now → ∃ T ∈ t₀ :: suf.ticks, now ≤ T + δ)
    (hm : ¬ Matching log ev) :
    Silent interval δ t₀ (suf ++ [(ev, acts)]) m' ∨ TimedOutBy (t₀ + 4 * interval + 2 * δ) (suf ++ [(ev, acts)]) := by
  by_cases ht : IsTick (ev, acts)
  · obtain ⟨now, rfl⟩ := ht
    rcases hs.tick hI hc (hnow now rfl) with h | ⟨ha, hb⟩
    · exact Or.inl h
    · exact Or.inr ⟨now, acts, List.mem_append_right _ (List.mem_singleton_self _), ha, hb⟩
  · have hsame : m'.keepaliveInterval = m.keepaliveInterval ∧ m'.pendingPing = m.pendingPing ∧
        m'.lastPingSent = m.lastPingSent := by
      cases hc with
      | ponged p sentAt _ hp => exact absurd ⟨_, _, (hk.pending _ _).mp hp, rfl⟩ hm
      | lost now _ _ _ _ _ | baseline now _ _ _ | pinged now _ _ _ _ _ => exact absurd ⟨now, rfl⟩ ht
      | _ => exact ⟨rfl, rfl, rfl⟩
    refine Or.inl (hs.other ?_ (hc.ready hs.ready) hsame.1 hsame.2.1 hsame.2.2)
    cases ev with
    | tick now => exact absurd ⟨now, rfl⟩ ht
    | _ => rfl

theorem Silent.bound (hs : Silent interval δ t₀ suf m) :
    ∀ now ∈ Log.ticks suf, now < t₀ + 4 * interval + 2 * δ := by
  intro (now : Nat) hn
  rcases hs.due with ⟨-, -, hb⟩ | ⟨n, (s : Nat), -, hsent, hb⟩
  · have hlt : now < t₀ + interval := hb now (List.mem_cons_of_mem _ hn)
    show now < t₀ + 4 * interval + 2 * δ
    omega
  · have hsent : s < t₀ + interval + δ := hsent
    have hlt : now < s + 3 * interval := hb now (List.mem_cons_of_mem _ hn)
    show now < t₀ + 4 * interval + 2 * δ
    omega

/-- A peer silent since the first tick after the handshake is timed out in time, or its time has not come. -/
theorem History.silent {localId : LocalIdentity} {token : Option TokenBytes} {pre : Log} (hI : 0 < interval)
    (h : History (.new localId interval token) (pre ++ (.tick t₀, acts) :: suf) m)
    (hfirst : Since Accepted IsTick pre) (hpaced : Paced δ (t₀ :: suf.ticks))
    (hm : ∀ mid ev as post, suf = mid ++ (ev, as) :: post → ¬ Matching (pre ++ (.tick t₀, acts) :: mid) ev) :
    Silent interval δ t₀ suf m ∨ TimedOutBy (t₀ + 4 * interval + 2 * δ) suf := by
  induction suf using List.reverseRecOn generalizing m with
  | nil =>
    obtain ⟨m₁, nonce, clock, h1, hc⟩ := h.last_call
    have hk := h1.keepalive hI
    obtain ⟨hr, hp, hl⟩ := hk.fresh hfirst
    refine Or.inl ?_
    cases hc with
    | baseline _ _ _ _ =>
      refine ⟨hr, hk.every, Or.inl ⟨hp, rfl, fun now hn => ?_⟩⟩
      rw [List.mem_singleton.mp hn]
      exact Nat.lt_add_of_pos_right hI
    | early _ hr' => exact absurd (hr.symm.trans hr') (by simp)
    | waiting _ _ _ _ hp' _ => exact absurd (hp.symm.trans hp') (by simp)
    | lost _ _ _ _ hp' _ => exact absurd (hp.symm.trans hp') (by simp)
    | undue _ _ _ _ hl' _ => exact absurd (hl.symm.trans hl') (by simp)
    | pinged _ _ _ _ hl' _ => exact absurd (hl.symm.trans hl') (by simp)
  | append_singleton suf e ih =>
    obtain ⟨ev, as⟩ := e
    rw [← List.cons_append, ← List.append_assoc] at h
    obtain ⟨m₁, nonce, clock, h1, hc⟩ := h.last_call
    rw [ticks_snoc, ← List.cons_append, Paced, List.isChain_append] at hpaced
    obtain ⟨hchain, -, hgap⟩ := hpaced
    have hm' : ∀ mid ev' as' post, suf = mid ++ (ev', as') :: post →
        ¬ Matching (pre ++ (.tick t₀, acts) :: mid) ev' := by
      intro mid ev' as' post he
      exact hm mid ev' as' (post ++ [(ev, as)]) (by rw [he, List.append_assoc, List.cons_append])
    rcases ih h1 hchain hm' with hs | ⟨now, as', hin, ha, hb⟩
    · refine hs.call hI (h1.keepalive hI) hc ?_ (hm suf ev as [] rfl)
      rintro now rfl
      obtain ⟨T, hT⟩ : ∃ T, (t₀ :: Log.ticks suf).getLast? = some T := ⟨_, List.getLast?_eq_some_getLast (by simp)⟩
      exact ⟨T, List.mem_of_getLast? hT, hgap T hT now rfl⟩
    · exact Or.inr ⟨now, as', List.mem_append_left _ hin, ha, hb⟩

end

/-! ## Keepalive over every history -/

/-- A tick gives the peer up exactly when the last ping was left unanswered for
three intervals. Pings are an interval apart and follow an accepted handshake,
each round trip reported is that of a ping of its own, and a peer that falls
silent is given up within four intervals and two gaps of the first tick. -/
theorem History.detects_dead {interval : Nat} {localId : LocalIdentity} {token : Option TokenBytes} {log : Log}
    {m : ConnectionMachine} (h : History (.new localId interval token) log m) (hI : 0 < interval) :
    (∀ pre now acts post, log = pre ++ (.tick now, acts) :: post →
      (.keepaliveTimedOut ∈ acts ↔ ∃ n s, Unanswered n s pre ∧ 3 * interval ≤ now - s)) ∧
    (∀ pre ev acts post p, log = pre ++ (ev, acts) :: post → .send (.ping p) ∈ acts →
      ∃ s, ev = .tick s ∧ (∀ e ∈ pre, ∀ n s', PingedAt n s' e → s' + interval ≤ s) ∧ ∃ e ∈ pre, Accepted e) ∧
    (∃ ping : Nat → Nat, (∀ j, PongedAt log j → Answers log j (ping j)) ∧
      ∀ j j', PongedAt log j → PongedAt log j' → ping j = ping j' → j = j') ∧
    ∀ δ pre t₀ acts suf, log = pre ++ (.tick t₀, acts) :: suf → Since Accepted IsTick pre →
      Paced δ (t₀ :: Log.ticks suf) →
      (∀ mid ev as post, suf = mid ++ (ev, as) :: post → ¬ Matching (pre ++ (.tick t₀, acts) :: mid) ev) →
      TimedOutBy (t₀ + 4 * interval + 2 * δ) suf ∨ ∀ now ∈ Log.ticks suf, now < t₀ + 4 * interval + 2 * δ := by
  refine ⟨?_, ?_, ?_, ?_⟩
  · rintro pre now acts post rfl
    obtain ⟨m₁, m₂, nonce, clock, h1, hc, -⟩ := h.at_call
    exact (h1.keepalive hI).timedOut_iff hc
  · rintro pre ev acts post p rfl hp
    obtain ⟨m₁, m₂, nonce, clock, h1, hc, -⟩ := h.at_call
    exact (h1.keepalive hI).ping_spaced hI hc hp
  · have hex : ∀ j, ∃ i, PongedAt log j → Answers log j i := by
      intro j
      by_cases hj : PongedAt log j
      · exact (h.answers hI hj).imp fun _ hi _ => hi
      · exact ⟨0, fun h => absurd h hj⟩
    choose ping hping using hex
    refine ⟨ping, hping, fun j j' hj hj' heq => ?_⟩
    have h1 := hping j hj
    have h2 := hping j' hj'
    rw [← heq] at h2
    exact Nat.le_antisymm (Nat.le_of_not_lt (h.answers_distinct h2 h1)) (Nat.le_of_not_lt (h.answers_distinct h1 h2))
  · rintro δ pre t₀ acts suf rfl hfirst hpaced hm
    rcases h.silent hI hfirst hpaced hm with hs | ht
    · exact Or.inr hs.bound
    · exact Or.inl ht

def replay : ConnectionMachine → List (Event × UInt64 × Time) → Log × ConnectionMachine
  | m, [] => ([], m)
  | m, (ev, nonce, clock) :: calls =>
    let r := m.handle ev nonce clock
    let rest := replay r.1 calls
    ((ev, r.2) :: rest.1, rest.2)

theorem History.replay {m₀ : ConnectionMachine} : ∀ (calls : List (Event × UInt64 × Time)) {log : Log}
    {m : ConnectionMachine}, History m₀ log m →
      History m₀ (log ++ (replay m calls).1) (replay m calls).2
  | [], log, m, h => by
    rw [PenguinSync.replay, List.append_nil]
    exact h
  | (ev, nonce, clock) :: calls, log, m, h => by
    have hcall : History m₀ (log ++ [(ev, (m.handle ev nonce clock).2)]) (m.handle ev nonce clock).1 := .call h rfl
    have hrest := History.replay calls hcall
    rw [List.append_assoc] at hrest
    exact hrest

/-- The peer answers the first ping twice and the second not at all. -/
def fallsSilent : List (Event × UInt64 × Time) :=
  [(.started, 0, 0), (.received (.handshake ⟨protocolVersion, Bytes.fill 32 2, "phone", [], none⟩), 0, 0),
    (.tick (secs 1), 0, 0), (.tick (secs 16), 7, 0), (.received (.pong ⟨7⟩), 0, secs 17),
    (.received (.pong ⟨7⟩), 0, secs 17), (.tick (secs 31), 8, 0), (.received (.pong ⟨7⟩), 0, secs 32),
    (.tick (secs 75), 0, 0), (.tick (secs 76), 0, 0)]

def fallsSilentFrom : ConnectionMachine := .new ⟨Bytes.fill 32 1, "pc", []⟩ (secs 15) none

theorem detects_dead_fallsSilent : ∃ n s, Unanswered n s ((replay fallsSilentFrom fallsSilent).1.take 9) ∧
    3 * secs 15 ≤ secs 76 - s :=
  ((History.detects_dead (History.replay fallsSilent .new) (by decide)).1 _ (secs 76) _ [] rfl).mp
    (List.mem_singleton_self Action.keepaliveTimedOut)

end PenguinSync
