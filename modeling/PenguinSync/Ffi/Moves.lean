import PenguinSync.Ffi.Core

/-!
# What one step of the core does

The steps of a run are told apart by what they do to its connections and to
the events it has sent; the steps of the core by what they do to its runs and
to the slot.
-/

namespace PenguinSync

open Lts

namespace Ffi

def drained : Dialer.Pc → Option SessionHandle
  | .draining h => some h
  | _ => none

def held : Dialer.Pc → Option SessionHandle
  | .opening _ h | .draining h => some h
  | _ => none

theorem drained_iff {pc : Dialer.Pc} {h : SessionHandle} : drained pc = some h ↔ pc = .draining h := by
  cases pc <;> simp [drained]

theorem drained_of_held {pc : Dialer.Pc} (h : held pc = none) : drained pc = none := by
  cases pc with
  | draining => cases h
  | _ => rfl

def marks : DialerEvent → Bool
  | .connected _ | .session (.closed _) => true
  | _ => false

namespace PairRun

/-- `aside` is a step of the dial task while it drains no session, and leaves it without a connection. -/
inductive Move (r : PairRun) : Act → PairRun → List (SessionHandle × Output) → Prop
  | aside {a : Act} {d : Dialer} {es channel : List DialerEvent} : r.dialer.pc ≠ .gone →
      drained r.dialer.pc = none → held d.pc = none → d.connections = r.dialer.connections →
      channel = r.channel ++ es → (∀ e ∈ es, marks e = false) → Move r a { r with dialer := d, channel } []
  | established {d : Dialer} {t : Option TokenBytes} : r.dialer.pc = .connecting t →
      d.pc = .opening t r.dialer.connections → d.connections = r.dialer.connections + 1 →
      Move r (.connect true) { r with dialer := d } []
  | opened {d : Dialer} {t : Option TokenBytes} {h : SessionHandle} {m : ConnectionMachine} :
      r.dialer.pc = .opening t h → d.pc = .draining h → d.connections = r.dialer.connections →
      Move r (.openBi true)
        { r.setConn h { r.conns h with session := some (.new m) } with
          dialer := d, channel := r.channel ++ [.connected h] } []
  | passed {d : Dialer} {h : SessionHandle} {e : SessionEvent} {rest : List SessionEvent} :
      r.dialer.pc = .draining h → (r.conns h).events = e :: rest → Dialer.isClosed e = false →
      d.pc = .draining h → d.connections = r.dialer.connections →
      Move r .drain
        { r.setConn h { r.conns h with events := rest } with
          dialer := d, channel := r.channel ++ [.session e] } []
  | closed {d : Dialer} {h : SessionHandle} {e : SessionEvent} {rest : List SessionEvent} :
      r.dialer.pc = .draining h → (r.conns h).events = e :: rest → Dialer.isClosed e = true →
      d.pc = .retry → d.connections = r.dialer.connections →
      Move r .drain
        { r.setConn h { r.conns h with events := rest } with
          dialer := d, channel := r.channel ++ [.session e] } []
  | ended {d : Dialer} {h : SessionHandle} : r.dialer.pc = .draining h → (r.conns h).events = [] → ¬ r.drives h →
      d.pc = .retry → d.connections = r.dialer.connections → Move r .drain { r with dialer := d } []
  | aborted {d : Dialer} {h : SessionHandle} : r.cancelled = true → r.dialer.pc = .draining h → d.pc = .gone →
      d.connections = r.dialer.connections → Move r .abort { r with dialer := d } []
  | drove {h : SessionHandle} {act : Session.Act} {s s' : Session} {outs : List Output} :
      (r.conns h).session = some s → s.step act = some (s', outs) →
      Move r (.drive h act)
        (r.setConn h
          { closed := (r.conns h).closed || outs.any severs
            session := some s'
            events := if r.dialer.pc = .draining h then (r.conns h).events ++ outs.filterMap Output.event?
              else (r.conns h).events }) (outs.map (h, ·))
  | lost {h : SessionHandle} : h < r.dialer.connections →
      Move r (.lose h) (r.setConn h { r.conns h with closed := true }) []

variable {r r' : PairRun} {a : Act} {outs : List (SessionHandle × Output)}

theorem task_some {act : Dialer.Act} (h : r.task act = some r') :
    ∃ d os, r.dialer.step act = some (d, os) ∧ r' = os.foldl absorb { r with dialer := d } := by
  unfold task at h
  split at h
  · rename_i d os hs
    cases h
    exact ⟨d, os, hs, rfl⟩
  · cases h

theorem Move.quiet {d : Dialer} {pc : Dialer.Pc} (hp : r.dialer.pc = pc) (hg : pc ≠ .gone) (hd : drained pc = none)
    (hh : held d.pc = none) (hc : d.connections = r.dialer.connections) : Move r a { r with dialer := d } [] :=
  .aside (hp ▸ hg) (hp ▸ hd) hh hc (List.append_nil _).symm nofun

theorem step_move (hl : r.dialer.receiverDropped = false) (h : r.step a = some (r', outs)) :
    Move r a r' outs ∧ r'.dialer.receiverDropped = false := by
  cases a with
  | dial ok =>
    simp only [step, Option.map_eq_some_iff, Prod.mk.injEq] at h
    obtain ⟨r₁, ht, rfl, rfl⟩ := h
    obtain ⟨d, os, hs, rfl⟩ := task_some ht
    simp only [Dialer.step, Option.ite_none_right_eq_some, Option.some.injEq, Prod.mk.injEq] at hs
    obtain ⟨hp, rfl, rfl⟩ := hs
    refine ⟨.quiet hp (fun hg => by cases hg) rfl ?_ rfl, hl⟩
    cases ok <;> rfl
  | connect ok =>
    simp only [step, Option.map_eq_some_iff, Prod.mk.injEq] at h
    obtain ⟨r₁, ht, rfl, rfl⟩ := h
    obtain ⟨d, os, hs, rfl⟩ := task_some ht
    simp only [Dialer.step] at hs
    split at hs
    · rename_i token hp
      cases ok <;> cases hs
      · exact ⟨.quiet hp (fun hg => by cases hg) rfl rfl rfl, hl⟩
      · exact ⟨.established hp rfl rfl, hl⟩
    · cases hs
  | openBi ok =>
    simp only [step, Option.map_eq_some_iff, Prod.mk.injEq] at h
    obtain ⟨r₁, ht, rfl, rfl⟩ := h
    obtain ⟨d, os, hs, rfl⟩ := task_some ht
    simp only [Dialer.step, hl] at hs
    split at hs
    · rename_i token n hp
      cases ok <;> cases hs
      · exact ⟨.quiet hp (fun hg => by cases hg) rfl rfl rfl, rfl⟩
      · exact ⟨.opened hp rfl rfl, rfl⟩
    · cases hs
  | drain =>
    simp only [step] at h
    split at h
    · rename_i n hp
      split at h
      · rename_i e rest he
        simp only [Option.map_eq_some_iff, Prod.mk.injEq] at h
        obtain ⟨r₁, ht, rfl, rfl⟩ := h
        obtain ⟨d, os, hs, rfl⟩ := task_some ht
        have hp' : (r.setConn n { r.conns n with events := rest }).dialer.pc = .draining n := hp
        simp only [Dialer.step, hp', Dialer.send, show (r.setConn n _).dialer.receiverDropped = false from hl] at hs
        cases hs
        cases hc : Dialer.isClosed e
        · exact ⟨.passed hp he hc rfl rfl, rfl⟩
        · exact ⟨.closed hp he hc rfl rfl, rfl⟩
      · rename_i he
        split at h
        · cases h
        · rename_i hd
          simp only [Option.map_eq_some_iff, Prod.mk.injEq] at h
          obtain ⟨r₁, ht, rfl, rfl⟩ := h
          obtain ⟨d, os, hs, rfl⟩ := task_some ht
          simp only [Dialer.step, hp] at hs
          cases hs
          exact ⟨.ended hp he hd rfl rfl, hl⟩
    · cases h
  | retry =>
    simp only [step, Option.map_eq_some_iff, Prod.mk.injEq] at h
    obtain ⟨r₁, ht, rfl, rfl⟩ := h
    obtain ⟨d, os, hs, rfl⟩ := task_some ht
    simp only [Dialer.step, Option.ite_none_right_eq_some, hl, Dialer.send] at hs
    obtain ⟨hp, hs⟩ := hs
    cases hs
    exact ⟨.aside (fun hg => by cases hp.symm.trans hg) (by rw [hp]; rfl) rfl rfl rfl (by simp [marks]), rfl⟩
  | wake =>
    simp only [step, Option.map_eq_some_iff, Prod.mk.injEq] at h
    obtain ⟨r₁, ht, rfl, rfl⟩ := h
    obtain ⟨d, os, hs, rfl⟩ := task_some ht
    simp only [Dialer.step, Option.ite_none_right_eq_some, Option.some.injEq, Prod.mk.injEq] at hs
    obtain ⟨hp, rfl, rfl⟩ := hs
    exact ⟨.quiet hp (fun hg => by cases hg) rfl rfl rfl, hl⟩
  | abort =>
    simp only [step, Option.ite_none_right_eq_some, Option.map_eq_some_iff, Prod.mk.injEq] at h
    obtain ⟨hc, r₁, ht, rfl, rfl⟩ := h
    obtain ⟨d, os, hs, rfl⟩ := task_some ht
    simp only [Dialer.step, Option.ite_none_right_eq_some, Option.some.injEq, Prod.mk.injEq] at hs
    obtain ⟨hw, rfl, rfl⟩ := hs
    refine ⟨?_, hl⟩
    cases hd : drained r.dialer.pc with
    | none =>
      have hg : r.dialer.pc ≠ .gone := fun hp => by
        rw [hp] at hw
        cases hw
      exact .quiet rfl hg hd rfl rfl
    | some n => exact .aborted hc (drained_iff.mp hd) rfl rfl
  | drive n act =>
    simp only [step] at h
    split at h
    · rename_i s hs
      split at h
      · rename_i s' os hstep
        cases h
        exact ⟨.drove hs hstep, hl⟩
      · cases h
    · cases h
  | lose n =>
    simp only [step, Option.ite_none_right_eq_some, Option.some.injEq, Prod.mk.injEq] at h
    obtain ⟨hn, rfl, rfl⟩ := h
    exact ⟨.lost hn, hl⟩

/-! ## What holds of every run -/

/-- The newest connection is the one the dial task holds; the session it drains
has its driving task, which sends `Closed` last and then only. -/
structure Sound (r : PairRun) : Prop where
  listening : r.dialer.receiverDropped = false
  newest : ∀ h, held r.dialer.pc = some h → h + 1 = r.dialer.connections
  driven : ∀ h, r.dialer.pc = .draining h → ∃ s, (r.conns h).session = some s ∧
    ClosedLast (r.conns h).events (s.stage = .done) ∧ (s.stage = .done → ∃ e, .closed e ∈ (r.conns h).events)
  unopened : ∀ h, r.dialer.connections ≤ h ∨ (∃ t, r.dialer.pc = .opening t h) →
    (r.conns h).session = none ∧ (r.conns h).events = []

theorem held_draining {h : SessionHandle} (hp : r.dialer.pc = .draining h) : held r.dialer.pc = some h := by
  rw [hp]; rfl

theorem held_opening {t : Option TokenBytes} {h : SessionHandle} (hp : r.dialer.pc = .opening t h) :
    held r.dialer.pc = some h := by
  rw [hp]; rfl

theorem setConn_self (r : PairRun) (h : SessionHandle) (c : Conn) : (r.setConn h c).conns h = c :=
  Function.update_self ..

theorem setConn_of_ne {h k : SessionHandle} (hk : k ≠ h) (c : Conn) : (r.setConn h c).conns k = r.conns k :=
  Function.update_of_ne hk ..

theorem Sound.letGo (hr : r.Sound) (hl : r'.dialer.receiverDropped = false) (hh : held r'.dialer.pc = none)
    (hc : r'.dialer.connections = r.dialer.connections)
    (hk : ∀ h, r.dialer.connections ≤ h → r'.conns h = r.conns h) : r'.Sound := by
  refine ⟨hl, fun h hp => ?_, fun h hp => ?_, fun h hp => ?_⟩
  · rw [hh] at hp
    cases hp
  · rw [held_draining hp] at hh
    cases hh
  · rcases hp with hp | ⟨t, hp⟩
    · rw [hc] at hp
      rw [hk h hp]
      exact hr.unopened h (Or.inl hp)
    · rw [held_opening hp] at hh
      cases hh

theorem Sound.setConn {h : SessionHandle} {c : Conn} (hr : r.Sound)
    (hu : (r.conns h).session = none ∧ (r.conns h).events = [] → c.session = none ∧ c.events = [])
    (hd : r.dialer.pc = .draining h → ∃ s, c.session = some s ∧ ClosedLast c.events (s.stage = .done) ∧
      (s.stage = .done → ∃ e, .closed e ∈ c.events)) : (r.setConn h c).Sound := by
  refine ⟨hr.listening, hr.newest, fun k hp => ?_, fun k hp => ?_⟩
  · by_cases hk : k = h
    · subst hk
      rw [setConn_self]
      exact hd hp
    · rw [setConn_of_ne hk]
      exact hr.driven k hp
  · have hn := hr.unopened k hp
    by_cases hk : k = h
    · subst hk
      rw [setConn_self]
      exact hu hn
    · rw [setConn_of_ne hk]
      exact hn

theorem Sound.move (hr : r.Sound) (hl : r'.dialer.receiverDropped = false) (h : Move r a r' outs) : r'.Sound := by
  have hlt : ∀ {n k : SessionHandle}, held r.dialer.pc = some n → r.dialer.connections ≤ k → k ≠ n := by
    intro n k hn hk he
    have := hr.newest n hn
    subst he
    exact absurd hk (by simp [← this])
  cases h with
  | aside _ _ hh hc => exact hr.letGo hl hh hc (fun _ _ => rfl)
  | @established d t hp hd hc =>
    refine ⟨hl, fun h hh => ?_, fun h hh => ?_, fun h hh => hr.unopened h (Or.inl ?_)⟩
    · rw [hd] at hh
      cases hh
      exact hc.symm
    · rw [hd] at hh
      cases hh
    · rcases hh with hh | ⟨t', hh⟩
      · rw [hc] at hh
        exact Nat.le_of_succ_le hh
      · rw [hd] at hh
        cases hh
        exact Nat.le_refl _
  | @opened d t n m hp hd hc =>
    have hn := held_opening hp
    have hnew := hr.unopened n (Or.inr ⟨t, hp⟩)
    refine ⟨hl, fun h hh => ?_, fun h hh => ?_, fun h hh => ?_⟩
    · rw [hd] at hh
      cases hh
      rw [hc]
      exact hr.newest n hn
    · rw [hd] at hh
      cases hh
      refine ⟨.new m, by rw [setConn_self], ?_, nofun⟩
      rw [setConn_self, hnew.2]
      exact closedLast_nil
    · rcases hh with hh | ⟨t', hh⟩
      · rw [hc] at hh
        rw [setConn_of_ne (hlt hn hh)]
        exact hr.unopened h (Or.inl hh)
      · rw [hd] at hh
        cases hh
  | @passed d n e rest hp he hne hd hc =>
    have hn := held_draining hp
    obtain ⟨s, hs, hlast, hdone⟩ := hr.driven n hp
    rw [he] at hlast hdone
    refine ⟨hl, fun h hh => ?_, fun h hh => ?_, fun h hh => ?_⟩
    · rw [hd] at hh
      cases hh
      rw [hc]
      exact hr.newest n hn
    · rw [hd] at hh
      cases hh
      refine ⟨s, ?_, ?_, fun hs => ?_⟩
      · rw [setConn_self]
        exact hs
      · rw [setConn_self]
        exact hlast.tail
      · obtain ⟨x, hx⟩ := hdone hs
        rw [setConn_self]
        rcases List.mem_cons.mp hx with rfl | hx
        · cases hne
        · exact ⟨x, hx⟩
    · rcases hh with hh | ⟨t', hh⟩
      · rw [hc] at hh
        rw [setConn_of_ne (hlt hn hh)]
        exact hr.unopened h (Or.inl hh)
      · rw [hd] at hh
        cases hh
  | closed hp _ _ hd hc =>
    exact hr.letGo hl (by rw [hd]; rfl) hc (fun k hk => setConn_of_ne (hlt (held_draining hp) hk) _)
  | ended hp _ _ hd hc => exact hr.letGo hl (by rw [hd]; rfl) hc (fun _ _ => rfl)
  | aborted _ hp hd hc => exact hr.letGo hl (by rw [hd]; rfl) hc (fun _ _ => rfl)
  | @drove n act s s' os hs hstep =>
    refine hr.setConn (fun hn => ?_) (fun hp => ⟨s', rfl, ?_⟩)
    · rw [hs] at hn
      cases hn.1
    · obtain ⟨s₀, hs₀, hlast, -⟩ := hr.driven n hp
      obtain rfl := Option.some.inj (hs.symm.trans hs₀)
      obtain ⟨hstage, hos⟩ := Session.step_closedLast hstep
      rw [if_pos hp]
      refine ⟨ClosedLast.append (fun e => hlast.not_mem hstage e) hos, fun hd => ?_⟩
      obtain ⟨e, he⟩ := Session.step_closes hstep hd
      exact ⟨e, List.mem_append_right _ he⟩
  | @lost n _ => exact hr.setConn id (hr.driven n)

theorem sound_idle : idle.Sound :=
  ⟨rfl, nofun, nofun, fun _ _ => ⟨rfl, rfl⟩⟩

theorem sound_start (cfg : Config) (payload : QrPayload) : (start cfg payload).Sound :=
  ⟨rfl, nofun, nofun, fun _ _ => ⟨rfl, rfl⟩⟩

theorem Sound.closed_done (hr : r.Sound) {h : SessionHandle} {e : SessionEvent} {rest : List SessionEvent}
    (hp : r.dialer.pc = .draining h) (he : (r.conns h).events = e :: rest) (hc : Dialer.isClosed e = true) :
    ¬ r.drives h := by
  obtain ⟨s, hs, hlast, -⟩ := hr.driven h hp
  rintro ⟨s', hs', hd⟩
  obtain rfl := Option.some.inj (hs.symm.trans hs')
  cases e with
  | closed reason =>
    rw [he] at hlast
    exact hd hlast.head.2
  | _ => cases hc

theorem Sound.drives (hr : r.Sound) {h : SessionHandle} (hp : r.dialer.pc = .draining h)
    (he : (r.conns h).events = []) : r.drives h := by
  obtain ⟨s, hs, -, hdone⟩ := hr.driven h hp
  refine ⟨s, hs, fun hd => ?_⟩
  obtain ⟨e, hm⟩ := hdone hd
  rw [he] at hm
  cases hm

end PairRun

/-! ## The session a forwarder has been told of -/

def track (p : Option SessionHandle) : DialerEvent → Option SessionHandle
  | .connected h => some h
  | .session (.closed _) => none
  | _ => p

def follow (p : Option SessionHandle) (es : List DialerEvent) : Option SessionHandle := es.foldl track p

section
variable {p : Option SessionHandle} {e : DialerEvent} {es es' : List DialerEvent}

theorem follow_append : follow p (es ++ es') = follow (follow p es) es' := List.foldl_append

theorem follow_cons : follow p (e :: es) = follow (track p e) es := rfl

theorem track_unmarked (h : marks e = false) : track p e = p := by
  unfold marks at h
  split at h
  · cases h
  · cases h
  · rename_i hc hs
    cases e with
    | connected n => exact absurd rfl (hc n)
    | session x =>
      cases x with
      | closed reason => exact absurd rfl (hs reason)
      | _ => rfl
    | reconnecting n d => rfl

theorem follow_unmarked (h : ∀ e ∈ es, marks e = false) : follow p es = p := by
  induction es with
  | nil => rfl
  | cons e es ih =>
    have hes : follow p es = p := ih fun x hx => h x (List.mem_cons_of_mem _ hx)
    rw [follow_cons, track_unmarked (h e (List.mem_cons_self ..)), hes]

theorem follow_start (p : Option SessionHandle) (es : List DialerEvent) :
    follow p es = p ∧ follow none es = none ∨ follow p es = follow none es := by
  by_cases h : ∀ e ∈ es, marks e = false
  · exact Or.inl ⟨follow_unmarked h, follow_unmarked h⟩
  · right
    induction es generalizing p with
    | nil => exact absurd nofun h
    | cons e es ih =>
      rw [follow_cons, follow_cons]
      cases e with
      | connected n => rfl
      | session x =>
        cases x with
        | closed reason => rfl
        | _ => exact ih p (by simpa [marks] using h)
      | reconnecting n d => exact ih p (by simpa [marks] using h)

end

namespace Core

def own (c : Core) (q : Nat) : Option SessionHandle :=
  match c.activeSession with
  | some (q', h) => if q' = q then some h else none
  | none => none

variable {cfg : Config} {c c' : Core} {q k : Nat} {h : SessionHandle} {e : DialerEvent} {a : Act} {os : List Obs}

theorem own_some : c.own q = some h ↔ c.activeSession = some (q, h) := by
  unfold own
  cases hs : c.activeSession with
  | none => simp
  | some x =>
    obtain ⟨q', h'⟩ := x
    by_cases hq : q' = q
    · simp [hq]
    · simp [hq]

theorem own_congr (h : c'.activeSession = c.activeSession) (q : Nat) : c'.own q = c.own q := by
  unfold own
  rw [h]

theorem own_after (h : c'.activeSession = c.slotAfter q e) : c'.own q = track (c.own q) e := by
  by_cases hm : marks e = true
  · unfold own
    rw [h]
    cases e with
    | connected n => simp [slotAfter, track]
    | session x =>
      cases x with
      | closed reason => rfl
      | _ => cases hm
    | reconnecting n d => cases hm
  · rw [Bool.not_eq_true] at hm
    rw [track_unmarked hm]
    exact own_congr (h.trans (by unfold slotAfter; split <;> first | rfl | cases hm)) q

/-- Handling an event of `q` leaves another run's session in the slot or takes it out. -/
theorem own_after_of_ne (h : c'.activeSession = c.slotAfter q e) (hk : k ≠ q) :
    c'.own k = c.own k ∧ marks e = false ∨ c'.own k = none ∧ marks e = true := by
  by_cases hm : marks e = true
  · right
    refine ⟨?_, hm⟩
    unfold own
    rw [h]
    cases e with
    | connected n => simp [slotAfter, Ne.symm hk]
    | session x =>
      cases x with
      | closed reason => rfl
      | _ => cases hm
    | reconnecting n d => cases hm
  · rw [Bool.not_eq_true] at hm
    left
    exact ⟨own_congr (h.trans (by unfold slotAfter; split <;> first | rfl | cases hm)) k, hm⟩

/-! ## One step of the core -/

inductive Move (cfg : Config) (c : Core) : Act → Core → List Obs → Prop
  | declined {a : Act} {trust : TrustStore} {os : List Obs} : Move cfg c a { c with trust } os
  | paired {decoded : Except String QrPayload} {endpoint : Except String Unit} {trust : TrustStore}
      {payload : QrPayload} {os : List Obs} : (c.pair cfg decoded endpoint).2 = .ok c.started →
      Move cfg c (.pair decoded endpoint)
        { c.setRun c.started (.start cfg payload) with trust, started := c.started + 1 } os
  | cancelled {q : Nat} : q < c.started →
      Move cfg c (.cancel q) (c.setRun q { c.runs q with cancelled := true }) []
  | ran {q : Nat} {a : PairRun.Act} {r : PairRun} {outs : List (SessionHandle × Output)} :
      (c.runs q).step a = some (r, outs) →
      Move cfg c (.run q a) (c.setRun q r) (outs.map fun o => .out q o.1 o.2)
  | handled {q : Nat} {e : DialerEvent} {rest : List DialerEvent} {f : Forwarder} {persisted : Bool} {os : List Obs} :
      (c.runs q).forwarder = .recv → (c.runs q).channel = e :: rest → f ≠ .exited →
      Move cfg c (.forward q)
        ({ c with activeSession := c.slotAfter q e }.setRun q
          { c.runs q with channel := rest, persisted, forwarder := f }) os
  | exited {q : Nat} : (c.runs q).forwarder = .recv → (c.runs q).channel = [] → (c.runs q).dialer.pc = .gone →
      Move cfg c (.forward q) (c.setRun q { c.runs q with forwarder := .exited }) []
  | persists {a : Act} {q : Nat} {f : Forwarder} {peers peersTmp : PeersFile} {os : List Obs} :
      (c.runs q).forwarder ≠ .exited → f ≠ .exited →
      Move cfg c a ({ c with peers, peersTmp }.setRun q { c.runs q with forwarder := f }) os
  | queued {text : String} {clip : Clip} {q : Nat} {h : SessionHandle} :
      Clip.new cfg.blake3 mimeTextPlain (utf8 text) = .ok clip → c.activeSession = some (q, h) →
      Move cfg c (.sendClipboard text)
        (c.setRun q ((c.runs q).setConn h
          { (c.runs q).conns h with session := ((c.runs q).conns h).session.map (·.sendClipboard clip) }))
        [.returned (.ok ())]

theorem step_move (h : step cfg c a = some (c', os)) : Move cfg c a c' os := by
  cases a with
  | pair decoded endpoint =>
    cases h
    have hp : ∀ o, c.pair cfg decoded endpoint = o → Move cfg c (.pair decoded endpoint) o.1 [.paired o.2] := by
      intro o ho
      have ho' := ho
      unfold pair at ho
      split at ho
      · cases ho
        exact .declined
      · rename_i payload
        split at ho
        · cases ho
          exact .declined
        · split at ho
          · cases ho
            exact .declined
          · split at ho
            · cases ho
              exact .declined
            · cases ho
              exact .paired (by rw [ho'])
    exact hp _ rfl
  | cancel q =>
    simp only [step, Option.ite_none_right_eq_some, Option.some.injEq, Prod.mk.injEq] at h
    obtain ⟨hq, rfl, rfl⟩ := h
    exact .cancelled hq
  | run q a =>
    simp only [step] at h
    split at h
    · rename_i r outs hr
      cases h
      exact .ran hr
    · cases h
  | forward q =>
    simp only [step, forward] at h
    split at h
    · rename_i e rest hf hc
      split at h <;> cases h
      · exact .handled hf hc nofun
      · exact .handled hf hc (by rw [hf]; nofun)
    · rename_i hf hc
      simp only [Option.ite_none_right_eq_some, Option.some.injEq, Prod.mk.injEq] at h
      obtain ⟨hg, rfl, rfl⟩ := h
      exact .exited hf hc hg
    · cases h
  | load q read =>
    simp only [step] at h
    split at h
    · rename_i e hf
      cases h
      exact .persists (by rw [hf]; nofun) nofun
    · cases h
  | write q o =>
    simp only [step] at h
    split at h
    · rename_i peers e hf
      split at h <;> cases h
      · exact .persists (by rw [hf]; nofun) nofun
      · exact .persists (by rw [hf]; nofun) nofun
      · exact .persists (by rw [hf]; nofun) nofun
    · cases h
  | rename q ok =>
    simp only [step] at h
    split at h
    · rename_i e hf
      split at h
      · split at h <;> cases h
        exact .persists (by rw [hf]; nofun) nofun
      · cases h
        exact .persists (by rw [hf]; nofun) nofun
    · cases h
  | sendClipboard text =>
    simp only [step, sendClipboard] at h
    split at h
    · cases h
      exact .declined
    · rename_i clip hclip
      split at h
      · rename_i q n hs
        cases h
        exact .queued hclip hs
      · cases h
        exact .declined

theorem setRun_self (c : Core) (q : Nat) (r : PairRun) : (c.setRun q r).runs q = r := Function.update_self ..

theorem setRun_of_ne (hk : k ≠ q) (r : PairRun) : (c.setRun q r).runs k = c.runs k := Function.update_of_ne hk ..

theorem forall_update {P : PairRun → Prop} {r : PairRun} (hc : ∀ k, P (c.runs k)) (hr : P r) (k : Nat) :
    P (Function.update c.runs q r k) := by
  by_cases hk : k = q
  · subst hk
    rw [Function.update_self]
    exact hr
  · rw [Function.update_of_ne hk]
    exact hc k

theorem Move.sound (h : Move cfg c a c' os) (hs : ∀ k, (c.runs k).Sound) : ∀ k, (c'.runs k).Sound := by
  cases h with
  | declined => exact hs
  | paired => exact forall_update hs (PairRun.sound_start cfg _)
  | @cancelled q => exact forall_update hs ⟨(hs q).listening, (hs q).newest, (hs q).driven, (hs q).unopened⟩
  | @ran q a r outs hr =>
    obtain ⟨hm, hl⟩ := PairRun.step_move (hs q).listening hr
    exact forall_update hs ((hs q).move hl hm)
  | @handled q => exact forall_update hs ⟨(hs q).listening, (hs q).newest, (hs q).driven, (hs q).unopened⟩
  | @exited q => exact forall_update hs ⟨(hs q).listening, (hs q).newest, (hs q).driven, (hs q).unopened⟩
  | @persists a q => exact forall_update hs ⟨(hs q).listening, (hs q).newest, (hs q).driven, (hs q).unopened⟩
  | @queued text clip q n hclip hslot =>
    refine forall_update hs ((hs q).setConn (fun hn => ?_) (fun hp => ?_))
    · rw [hn.1]
      exact ⟨rfl, hn.2⟩
    · obtain ⟨s, hses, hlast, hdone⟩ := (hs q).driven n hp
      rw [hses]
      refine ⟨s.sendClipboard clip, rfl, ?_, ?_⟩
      · rw [Session.sendClipboard_stage]
        exact hlast
      · rw [Session.sendClipboard_stage]
        exact hdone

theorem run_sound {C : List Obs → Core → Act → Prop} {tr : List Obs} (h : Run (system cfg) C tr c) :
    ∀ k, (c.runs k).Sound := by
  induction h with
  | init h0 =>
    obtain ⟨peers, tmp, rfl⟩ := h0
    exact fun _ => PairRun.sound_idle
  | step _ _ hs ih => exact (step_move hs).sound ih

/-! ## Which runs there are -/

/-- No run is about before `pair` has started it, and none is in the slot. -/
structure Started (c : Core) : Prop where
  idle : ∀ q, c.started ≤ q → c.runs q = .idle
  slot : ∀ q h, c.activeSession = some (q, h) → q < c.started

theorem Started.lt (hi : Started c) (hq : c.runs q ≠ .idle) : q < c.started := by
  by_contra hn
  exact hq (hi.idle q (Nat.le_of_not_lt hn))

theorem idle_step (a : PairRun.Act) : PairRun.idle.step a = none := by
  cases a <;> rfl

theorem Started.write {r : PairRun} (hi : Started c) (hq : q < c.started) (hn : c'.started = c.started)
    (hr : c'.runs = Function.update c.runs q r)
    (hs : ∀ k h, c'.activeSession = some (k, h) → k = q ∨ c.activeSession = some (k, h)) : Started c' := by
  refine ⟨fun k hk => ?_, fun k h hk => ?_⟩
  · rw [hn] at hk
    rw [hr, Function.update_of_ne (Nat.ne_of_gt (Nat.lt_of_lt_of_le hq hk))]
    exact hi.idle k hk
  · rw [hn]
    rcases hs k h hk with rfl | hk
    · exact hq
    · exact hi.slot k h hk

theorem Started.step (hi : Started c) (h : Core.step cfg c a = some (c', os)) : Started c' := by
  cases step_move h with
  | declined => exact ⟨hi.idle, hi.slot⟩
  | paired =>
    refine ⟨fun k hk => ?_, fun k h hk => Nat.lt_succ_of_lt (hi.slot k h hk)⟩
    have hlt : c.started < k := hk
    show (c.setRun c.started (.start cfg _)).runs k = .idle
    rw [setRun_of_ne (Nat.ne_of_gt hlt)]
    exact hi.idle k (Nat.le_of_lt hlt)
  | cancelled hq => exact hi.write hq rfl rfl (fun _ _ => Or.inr)
  | @ran q a r outs hr =>
    refine hi.write (hi.lt fun hidle => ?_) rfl rfl (fun _ _ => Or.inr)
    rw [hidle, idle_step] at hr
    cases hr
  | @handled q e rest f persisted os hfw hch hne =>
    refine hi.write (q := q) (hi.lt fun hidle => ?_) rfl rfl (fun k n hk => ?_)
    · rw [hidle] at hch
      cases hch
    · have hk' : c.slotAfter q e = some (k, n) := hk
      unfold slotAfter at hk'
      split at hk'
      · cases hk'
        exact Or.inl rfl
      · cases hk'
      · exact Or.inr hk'
  | @exited q hfw _ _ =>
    refine hi.write (hi.lt fun hidle => ?_) rfl rfl (fun _ _ => Or.inr)
    rw [hidle] at hfw
    cases hfw
  | @persists a q f peers tmp os hfw _ =>
    refine hi.write (q := q) (hi.lt fun hidle => ?_) rfl rfl (fun _ _ => Or.inr)
    rw [hidle] at hfw
    exact hfw rfl
  | queued hclip hslot => exact hi.write (hi.slot _ _ hslot) rfl rfl (fun _ _ => Or.inr)

theorem run_started {C : List Obs → Core → Act → Prop} {tr : List Obs} (h : Run (system cfg) C tr c) : Started c := by
  induction h with
  | init h0 =>
    obtain ⟨peers, tmp, rfl⟩ := h0
    exact ⟨fun _ _ => rfl, nofun⟩
  | step _ _ hs ih => exact ih.step hs

end Core

def phone : Config := ⟨Bytes.fill 32 2, "phone", fun _ => Bytes.fill 32 0⟩

def desk : QrPayload :=
  { version := protocolVersion, deviceId := Bytes.fill 32 1, name := "desk", addrs := [.v4 (Bytes.fill 4 127) 4242]
    token := Bytes.fill tokenLen 7 }

def hello : Handshake := ⟨protocolVersion, Bytes.fill 32 1, "desk", [], none⟩

def paired : Core := ((Core.new none none).pair phone (.ok desk) (.ok ())).1

end Ffi

end PenguinSync
