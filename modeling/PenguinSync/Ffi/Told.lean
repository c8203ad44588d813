import PenguinSync.Ffi.Carry

/-!
# What the listener is told of a run

No event of a session is lost, repeated or overtaken on its way to the listener,
except that an abort drops what the dial task has not drained.
-/

namespace PenguinSync

open Lts

namespace Ffi

/-! ## What the core is seen to tell -/

def Obs.report? (q : Nat) : Obs → Option SessionEvent
  | .out k _ o => if k = q then o.event? else none
  | _ => none

def Obs.reportOn? (q : Nat) (h : SessionHandle) : Obs → Option SessionEvent
  | .out k n o => if k = q ∧ n = h then o.event? else none
  | _ => none

def Obs.told? (q : Nat) : Obs → Option CoreEvent
  | .listener k e => if k = q then some e else none
  | _ => none

def Act.forwarder? : Act → Option Nat
  | .forward q | .load q _ | .write q _ | .rename q _ => some q
  | _ => none

namespace Core

def reported (q : Nat) (tr : List Obs) : List SessionEvent := tr.filterMap (Obs.report? q)

def reportedOn (q : Nat) (h : SessionHandle) (tr : List Obs) : List SessionEvent := tr.filterMap (Obs.reportOn? q h)

def told (q : Nat) (tr : List Obs) : List CoreEvent := tr.filterMap (Obs.told? q)

def Silent (os : List Obs) : Prop := ∀ q, reported q os = [] ∧ (∀ h, reportedOn q h os = []) ∧ told q os = []

/-- The same run, but for what a listener or `send_clipboard` makes of it. -/
structure Alike (r r' : PairRun) : Prop where
  dialer : r'.dialer = r.dialer
  events : ∀ h, (r'.conns h).events = (r.conns h).events
  session : ∀ h s, (r.conns h).session = some s → ∃ s', (r'.conns h).session = some s' ∧ s'.stage = s.stage ∧ s'.machine = s.machine
  unopened : ∀ h, (r.conns h).session = none → (r'.conns h).session = none

variable {cfg : Config} {c c' : Core} {q k : Nat} {h : SessionHandle} {a : Act} {tr os : List Obs} {r : PairRun}

theorem Alike.refl (r : PairRun) : Alike r r := ⟨rfl, fun _ => rfl, fun _ s hs => ⟨s, hs, rfl, rfl⟩, fun _ => id⟩

theorem reported_append : reported q (tr ++ os) = reported q tr ++ reported q os := List.filterMap_append

theorem reportedOn_append : reportedOn q h (tr ++ os) = reportedOn q h tr ++ reportedOn q h os := List.filterMap_append

theorem told_append : told q (tr ++ os) = told q tr ++ told q os := List.filterMap_append

theorem silent_nil : Silent [] := fun _ => ⟨rfl, fun _ => rfl, rfl⟩

theorem silent_paired (res : Except CoreError Nat) : Silent [.paired res] := fun _ => ⟨rfl, fun _ => rfl, rfl⟩

theorem silent_returned (res : Except CoreError Unit) : Silent [.returned res] := fun _ => ⟨rfl, fun _ => rfl, rfl⟩

/-- A step reports nothing and leaves the runs as they are, starts a run, is one of
a run's own or takes the event that is first on its way to a listener there. -/
inductive Flow (cfg : Config) (c c' : Core) (a : Act) (os : List Obs) : Prop
  | silent : (∀ k, Alike (c.runs k) (c'.runs k) ∧ (c'.runs k).waiting = (c.runs k).waiting) → Silent os →
      Flow cfg c c' a os
  | started (payload : QrPayload) : c'.runs = Function.update c.runs c.started (.start cfg payload) → Silent os →
      Flow cfg c c' a os
  | ran (q : Nat) (act : PairRun.Act) (r : PairRun) (outs : List (SessionHandle × Output)) : a = .run q act →
      (c.runs q).step act = some (r, outs) → c'.runs = Function.update c.runs q r →
      os = outs.map (fun o => .out q o.1 o.2) → Flow cfg c c' a os
  | told (q : Nat) (e : DialerEvent) (r : PairRun) : a.forwarder? = some q → c'.runs = Function.update c.runs q r →
      Alike (c.runs q) r → (c.runs q).waiting = e :: r.waiting → os = report q e → Flow cfg c c' a os

theorem Flow.silent_of (hs : Silent os) (hr : c'.runs = Function.update c.runs q r) (ha : Alike (c.runs q) r)
    (hw : r.waiting = (c.runs q).waiting) : Flow cfg c c' a os := by
  refine .silent (fun k => ?_) hs
  rw [hr]
  by_cases hk : k = q
  · subst hk
    rw [Function.update_self]
    exact ⟨ha, hw⟩
  · rw [Function.update_of_ne hk]
    exact ⟨.refl _, rfl⟩

theorem alike_frame (r : PairRun) (cancelled : Bool) (channel : List DialerEvent) (forwarder : Forwarder)
    (persisted : Bool) : Alike r { r with cancelled, channel, forwarder, persisted } :=
  ⟨rfl, fun _ => rfl, fun _ s hs => ⟨s, hs, rfl, rfl⟩, fun _ => id⟩

theorem alike_sendClipboard (r : PairRun) (n : SessionHandle) (clip : Clip) :
    Alike r (r.setConn n { r.conns n with session := (r.conns n).session.map (·.sendClipboard clip) }) := by
  refine ⟨rfl, fun h => PairRun.setConn_events rfl, fun h s hs => ?_, fun h hn => ?_⟩
  · by_cases hh : h = n
    · subst hh
      refine ⟨s.sendClipboard clip, ?_, s.sendClipboard_stage clip, s.sendClipboard_machine clip⟩
      rw [PairRun.setConn_self, hs]
      rfl
    · exact ⟨s, by rw [PairRun.setConn_of_ne hh]; exact hs, rfl, rfl⟩
  · by_cases hh : h = n
    · subst hh
      rw [PairRun.setConn_self, hn]
      rfl
    · rw [PairRun.setConn_of_ne hh]
      exact hn

theorem pair_flow (cfg : Config) (c : Core) (decoded : Except String QrPayload) (endpoint : Except String Unit) :
    Flow cfg c (c.pair cfg decoded endpoint).1 (.pair decoded endpoint) [.paired (c.pair cfg decoded endpoint).2] := by
  have hsame : ∀ trust res, Flow cfg c { c with trust } (.pair decoded endpoint) [.paired res] := fun trust res =>
    .silent (fun k => ⟨.refl _, rfl⟩) (silent_paired res)
  unfold pair
  split
  · exact hsame c.trust _
  · rename_i payload
    split
    · exact hsame c.trust _
    · split
      · exact hsame c.trust _
      · split
        · exact hsame _ _
        · exact .started payload rfl (silent_paired _)

theorem step_flow (h : step cfg c a = some (c', os)) : Flow cfg c c' a os := by
  cases a with
  | pair decoded endpoint =>
    cases h
    exact pair_flow cfg c decoded endpoint
  | cancel q =>
    simp only [step, Option.ite_none_right_eq_some, Option.some.injEq, Prod.mk.injEq] at h
    obtain ⟨-, rfl, rfl⟩ := h
    exact .silent_of silent_nil rfl (alike_frame _ _ _ _ _) rfl
  | run q act =>
    simp only [step] at h
    split at h
    · rename_i r outs hr
      cases h
      exact .ran q act r outs rfl hr rfl rfl
    · cases h
  | forward q =>
    simp only [step, forward] at h
    split at h
    · rename_i e rest hf hc
      split at h <;> cases h
      · refine .silent_of silent_nil rfl (alike_frame _ _ rest (.load e) true) ?_
        unfold PairRun.waiting
        rw [hf, hc]
        rfl
      · refine .told q e _ rfl rfl (alike_frame _ _ rest _ _) ?_ rfl
        unfold PairRun.waiting
        rw [hf, hc]
        rfl
    · rename_i hf hc
      simp only [Option.ite_none_right_eq_some, Option.some.injEq, Prod.mk.injEq] at h
      obtain ⟨-, rfl, rfl⟩ := h
      refine .silent_of silent_nil rfl (alike_frame _ _ _ .exited _) ?_
      unfold PairRun.waiting
      rw [hf]
      rfl
    · cases h
  | load q read =>
    simp only [step] at h
    split at h
    · rename_i e hf
      cases h
      refine .silent_of silent_nil rfl (alike_frame _ _ _ _ _) ?_
      unfold PairRun.waiting
      rw [hf]
      rfl
    · cases h
  | write q o =>
    simp only [step] at h
    split at h
    · rename_i peers e hf
      have hwaiting : (c.runs q).waiting = e :: PairRun.waiting { c.runs q with forwarder := .recv } := by
        unfold PairRun.waiting
        rw [hf]
        rfl
      split at h <;> cases h
      · exact .told q e _ rfl rfl (alike_frame _ _ _ .recv _) hwaiting rfl
      · exact .told q e _ rfl rfl (alike_frame _ _ _ .recv _) hwaiting rfl
      · refine .silent_of silent_nil rfl (alike_frame _ _ _ (.rename e) _) ?_
        unfold PairRun.waiting
        rw [hf]
        rfl
    · cases h
  | rename q ok =>
    simp only [step] at h
    split at h
    · rename_i e hf
      have hwaiting : (c.runs q).waiting = e :: PairRun.waiting { c.runs q with forwarder := .recv } := by
        unfold PairRun.waiting
        rw [hf]
        rfl
      split at h
      · split at h <;> cases h
        exact .told q e _ rfl rfl (alike_frame _ _ _ .recv _) hwaiting rfl
      · cases h
        exact .told q e _ rfl rfl (alike_frame _ _ _ .recv _) hwaiting rfl
    · cases h
  | sendClipboard text =>
    simp only [step, sendClipboard] at h
    split at h
    · cases h
      exact .silent (fun k => ⟨.refl _, rfl⟩) (silent_returned _)
    · rename_i clip hclip
      split at h
      · rename_i q n hs
        cases h
        exact .silent_of (silent_returned _) rfl (alike_sendClipboard (c.runs q) n clip) (PairRun.waiting_setConn rfl)
      · cases h
        exact .silent (fun k => ⟨.refl _, rfl⟩) (silent_returned _)

/-! ## What each run has told -/

theorem told_report (q : Nat) (e : DialerEvent) : told q (report q e) = (toCoreEvent e).toList := by
  unfold told report
  cases toCoreEvent e with
  | none => rfl
  | some x => simp [Obs.told?]

theorem told_report_of_ne (hk : k ≠ q) (e : DialerEvent) : told k (report q e) = [] := by
  unfold told report
  cases toCoreEvent e with
  | none => rfl
  | some x => simp [Obs.told?, Ne.symm hk]

theorem reported_report (q k : Nat) (e : DialerEvent) : reported k (report q e) = [] := by
  unfold reported report
  cases toCoreEvent e <;> rfl

theorem reportedOn_report (q k : Nat) (h : SessionHandle) (e : DialerEvent) : reportedOn k h (report q e) = [] := by
  unfold reportedOn report
  cases toCoreEvent e <;> rfl

variable {outs : List (SessionHandle × Output)}

theorem told_out (q k : Nat) (outs : List (SessionHandle × Output)) : told k (outs.map fun o => .out q o.1 o.2) = [] := by
  unfold told
  rw [List.filterMap_map, List.filterMap_eq_nil_iff]
  intro o _
  rfl

theorem reportedOn_out (q : Nat) (h : SessionHandle) (outs : List (SessionHandle × Output)) :
    reportedOn q h (outs.map fun o => .out q o.1 o.2) = PairRun.eventsOn h outs := by
  unfold reportedOn PairRun.eventsOn
  rw [List.filterMap_map]
  apply List.filterMap_congr
  intro o _
  simp [Obs.reportOn?]

theorem reportedOn_out_of_ne (hk : k ≠ q) (h : SessionHandle) (outs : List (SessionHandle × Output)) :
    reportedOn k h (outs.map fun o => .out q o.1 o.2) = [] := by
  unfold reportedOn
  rw [List.filterMap_map, List.filterMap_eq_nil_iff]
  intro o _
  simp [Obs.reportOn?, Ne.symm hk]

theorem reported_out (q : Nat) (outs : List (SessionHandle × Output)) :
    reported q (outs.map fun o => .out q o.1 o.2) = outs.filterMap fun o => o.2.event? := by
  unfold reported
  rw [List.filterMap_map]
  apply List.filterMap_congr
  intro o _
  simp [Obs.report?]

theorem reported_out_of_ne (hk : k ≠ q) (outs : List (SessionHandle × Output)) :
    reported k (outs.map fun o => .out q o.1 o.2) = [] := by
  unfold reported
  rw [List.filterMap_map, List.filterMap_eq_nil_iff]
  intro o _
  simp [Obs.report?, Ne.symm hk]

def tell (e : SessionEvent) : Option CoreEvent := toCoreEvent (.session e)

def fromSession : CoreEvent → Bool
  | .reconnecting .. => false
  | _ => true

theorem tell_waiting (es : List DialerEvent) :
    (es.filterMap toCoreEvent).filter fromSession = (es.filterMap DialerEvent.session?).filterMap tell := by
  induction es with
  | nil => rfl
  | cons e es ih =>
    cases e with
    | connected n => exact ih
    | reconnecting n d => exact ih
    | session x =>
      have htell : toCoreEvent (.session x) = tell x := rfl
      have hsession : (DialerEvent.session x :: es).filterMap DialerEvent.session? =
          x :: es.filterMap DialerEvent.session? := rfl
      rw [hsession, List.filterMap_cons, List.filterMap_cons, htell]
      cases hx : tell x with
      | none => exact ih
      | some y =>
        have hy : fromSession y = true := by
          cases x with
          | clipboardReceived c =>
            obtain ⟨text, -, rfl⟩ := Option.map_eq_some_iff.mp (show (fromUtf8 c.content).map .clipboardReceived = some y from hx)
            rfl
          | _ =>
            cases hx
            rfl
        rw [List.filter_cons_of_pos hy, ih]

/-- `kept`: what was told of the sessions of a run, and what is on its way, is what
they reported, up to what an abort dropped. -/
structure Telling (q : Nat) (tr : List Obs) (c : Core) : Prop where
  attached : (c.runs q).Attached
  sessions : ∀ h s, ((c.runs q).conns h).session = some s → ∃ hello, s.Told (reportedOn q h tr) hello
  unopened : ∀ h, ((c.runs q).conns h).session = none → reportedOn q h tr = []
  kept : ∃ lost, (told q tr).filter fromSession ++ ((c.runs q).waiting.filterMap toCoreEvent).filter fromSession ++ lost =
    (reported q tr).filterMap tell ∧ ((c.runs q).dialer.pc = .gone ∨ lost = [])

theorem Alike.attached (ha : Alike r (c'.runs q)) (hi : r.Attached) : (c'.runs q).Attached := by
  unfold PairRun.Attached
  rw [ha.dialer]
  refine hi.imp id fun hi h hd => hi h ?_
  obtain ⟨s', hs', hne⟩ := hd
  cases hs : (r.conns h).session with
  | none =>
    rw [ha.unopened h hs] at hs'
    cases hs'
  | some s =>
    obtain ⟨t, ht, hst, -⟩ := ha.session h s hs
    obtain rfl := Option.some.inj (ht.symm.trans hs')
    exact ⟨s, hs, hst ▸ hne⟩

theorem Telling.alike (hi : Telling q tr c) (ha : Alike (c.runs q) (c'.runs q)) (hr : ∀ h, reportedOn q h os = [])
    (hk : ∃ lost, (told q (tr ++ os)).filter fromSession ++
      ((c'.runs q).waiting.filterMap toCoreEvent).filter fromSession ++ lost =
      (reported q (tr ++ os)).filterMap tell ∧ ((c.runs q).dialer.pc = .gone ∨ lost = [])) : Telling q (tr ++ os) c' := by
  refine ⟨ha.attached hi.attached, fun h s hs => ?_, fun h hn => ?_, by rw [ha.dialer]; exact hk⟩
  · rw [reportedOn_append, hr, List.append_nil]
    cases hs₀ : ((c.runs q).conns h).session with
    | none =>
      rw [ha.unopened h hs₀] at hs
      cases hs
    | some t =>
      obtain ⟨s', hs', hst, hm⟩ := ha.session h t hs₀
      obtain rfl := Option.some.inj (hs'.symm.trans hs)
      obtain ⟨hello, ht⟩ := hi.sessions h t hs₀
      exact ⟨hello, ht.same hst hm⟩
  · rw [reportedOn_append, hr, List.append_nil]
    cases hs₀ : ((c.runs q).conns h).session with
    | none => exact hi.unopened h hs₀
    | some t =>
      obtain ⟨s', hs', -⟩ := ha.session h t hs₀
      rw [hn] at hs'
      cases hs'

theorem Telling.silent (hi : Telling q tr c) (ha : Alike (c.runs q) (c'.runs q)) (hw : (c'.runs q).waiting = (c.runs q).waiting)
    (hs : reported q os = [] ∧ (∀ h, reportedOn q h os = []) ∧ told q os = []) : Telling q (tr ++ os) c' := by
  refine hi.alike ha hs.2.1 ?_
  rw [told_append, reported_append, hs.1, hs.2.2, List.append_nil, List.append_nil, hw]
  exact hi.kept

theorem Telling.told (hi : Telling q tr c) {e : DialerEvent} (ha : Alike (c.runs q) (c'.runs q))
    (hw : (c.runs q).waiting = e :: (c'.runs q).waiting) : Telling q (tr ++ report q e) c' := by
  refine hi.alike ha (fun h => reportedOn_report q q h e) ?_
  obtain ⟨lost, hk, hg⟩ := hi.kept
  refine ⟨lost, ?_, hg⟩
  rw [told_append, told_report, reported_append, reported_report, List.append_nil, List.filter_append, ← hk, hw,
    List.filterMap_cons]
  cases toCoreEvent e with
  | none => simp
  | some x =>
    rw [Option.toList_some, List.filter_cons, List.append_assoc (List.filter _ _) (List.filter _ _)]
    cases hx : fromSession x <;> simp [hx]

theorem events_map (n : SessionHandle) (os : List Output) :
    (os.map (n, ·)).filterMap (fun o => o.2.event?) = os.filterMap Output.event? := by
  rw [List.filterMap_map]
  rfl

theorem session_map (evs : List SessionEvent) : (evs.map DialerEvent.session).filterMap DialerEvent.session? = evs := by
  rw [List.filterMap_map]
  exact List.filterMap_some

/-- What an abort drops, and what a session reports after it, is lost. -/
theorem Telling.carry (hi : Telling q tr c) {act : PairRun.Act}
    (hc : PairRun.Carry (c.runs q) (c'.runs q) act outs) :
    ∃ lost, (Core.told q tr).filter fromSession ++ ((c'.runs q).waiting.filterMap toCoreEvent).filter fromSession ++ lost =
      (reported q tr ++ outs.filterMap fun o => o.2.event?).filterMap tell ∧
        ((c'.runs q).dialer.pc = .gone ∨ lost = []) := by
  obtain ⟨lost, hk, hg⟩ := hi.kept
  cases hc with
  | quiet es hne hd hw hes hos hopen =>
    have hlost : lost = [] := hg.resolve_left hne
    refine ⟨[], ?_, Or.inr rfl⟩
    rw [hlost] at hk
    rw [hw, hos, List.filterMap_append, List.filter_append, tell_waiting es, hes, List.filterMap_nil, List.filterMap_nil,
      List.append_nil (List.filter _ _), List.append_nil (reported q tr)]
    exact hk
  | kept hw hpc hos =>
    refine ⟨lost, ?_, by rw [hpc]; exact hg⟩
    rw [hw, hos, List.filterMap_nil, List.append_nil (reported q tr)]
    exact hk
  | closed pre reason hne hw hlast hd hos =>
    refine ⟨[], ?_, Or.inr rfl⟩
    rw [hg.resolve_left hne] at hk
    rw [hw, hos, List.filterMap_nil, List.append_nil (reported q tr)]
    exact hk
  | drove n os hp hp' hw hos =>
    refine ⟨[], ?_, Or.inr rfl⟩
    have hlost : lost = [] := hg.resolve_left (by rw [hp]; simp)
    rw [hlost, List.append_nil] at hk
    rw [hw, hos, events_map, List.filterMap_append, List.filter_append, tell_waiting (List.map _ _), session_map,
      List.filterMap_append, ← hk, List.append_nil, List.append_assoc]
  | cut es hab hd hw hpc hos =>
    have hlost : lost = [] := hg.resolve_left fun hgone => hd (by rw [hgone]; rfl)
    refine ⟨(es.filterMap toCoreEvent).filter fromSession, ?_, Or.inl hpc⟩
    rw [hlost, List.append_nil, hw, List.filterMap_append, List.filter_append, ← List.append_assoc] at hk
    rw [hos, List.filterMap_nil, List.append_nil (reported q tr)]
    exact hk
  | gone hgone hgone' hw =>
    refine ⟨lost ++ (outs.filterMap fun o => o.2.event?).filterMap tell, ?_, Or.inl hgone'⟩
    rw [hw, List.filterMap_append (l := reported q tr), ← hk, List.append_assoc _ lost]

theorem Telling.ran (hi : Telling q tr c) (hs : (c.runs q).Sound) {act : PairRun.Act} (h : (c.runs q).step act = some (r, outs))
    (hr : c'.runs q = r) (hos : os = outs.map fun o => .out q o.1 o.2) : Telling q (tr ++ os) c' := by
  have hcarry := PairRun.step_carry hs hi.attached h
  rw [← hr] at hcarry h
  refine ⟨PairRun.step_attached hs hi.attached h, fun n s hn => ?_, fun n hn => ?_, ?_⟩
  · rw [hos, reportedOn_append, reportedOn_out]
    rcases PairRun.step_conn hs h n with ⟨hnone, hkept⟩ | ⟨s₀, sact, s', souts, hs₀, hstep, hs', hev⟩
    · rw [hnone, List.append_nil]
      cases hs₀ : ((c.runs q).conns n).session with
      | none =>
        obtain ⟨hphase, hstage⟩ := PairRun.step_opens h hs₀ hn
        rw [hi.unopened n hs₀]
        exact ⟨none, .waiting hphase (by rw [hstage]; simp)⟩
      | some s₀ =>
        obtain rfl := Option.some.inj ((hkept s₀ hs₀).symm.trans hn)
        exact hi.sessions n s₀ hs₀
    · obtain rfl := Option.some.inj (hs'.symm.trans hn)
      obtain ⟨hello, ht⟩ := hi.sessions n s₀ hs₀
      rw [hev]
      exact ht.step hstep
  · rw [hos, reportedOn_append, reportedOn_out]
    rcases PairRun.step_conn hs h n with ⟨hnone, hkept⟩ | ⟨s₀, sact, s', souts, hs₀, hstep, hs', hev⟩
    · rw [hnone, List.append_nil]
      cases hs₀ : ((c.runs q).conns n).session with
      | none => exact hi.unopened n hs₀
      | some s₀ =>
        rw [hkept s₀ hs₀] at hn
        cases hn
    · rw [hs'] at hn
      cases hn
  · rw [hos, told_append, told_out, List.append_nil, reported_append, reported_out]
    exact hi.carry hcarry

theorem telling_start {payload : QrPayload} (hr : c'.runs q = .start cfg payload) (ht : Core.told q tr = [])
    (he : ∀ h, reportedOn q h tr = []) (hall : reported q tr = []) : Telling q tr c' := by
  refine ⟨?_, ?_, fun h _ => he h, ⟨[], ?_, Or.inr rfl⟩⟩
  · rw [hr]
    right
    rintro n ⟨s, hs, -⟩
    cases hs
  · rw [hr]
    intro h s hs
    cases hs
  · rw [hr, ht, hall]
    rfl

/-- Before a run is started nothing is seen of it. -/
def Unseen (tr : List Obs) (c : Core) : Prop :=
  ∀ q, c.started ≤ q → Core.told q tr = [] ∧ (∀ h, reportedOn q h tr = []) ∧ reported q tr = []

theorem Flow.told_idle (hf : Flow cfg c c' a os) (hq : c.runs q = .idle) :
    Core.told q os = [] ∧ (∀ h, reportedOn q h os = []) ∧ reported q os = [] := by
  cases hf with
  | silent _ hs => exact ⟨(hs q).2.2, (hs q).2.1, (hs q).1⟩
  | started _ _ hs => exact ⟨(hs q).2.2, (hs q).2.1, (hs q).1⟩
  | ran k act r outs _ hstep _ hos =>
    have hk : q ≠ k := by
      rintro rfl
      rw [hq, idle_step] at hstep
      cases hstep
    rw [hos]
    exact ⟨told_out k q outs, fun h => reportedOn_out_of_ne hk h outs, reported_out_of_ne hk outs⟩
  | told k e r _ _ _ hw hos =>
    have hk : q ≠ k := by
      rintro rfl
      rw [hq] at hw
      cases hw
    rw [hos]
    exact ⟨told_report_of_ne hk e, fun h => reportedOn_report k q h e, reported_report k q e⟩

theorem Unseen.step (hi : Unseen tr c) (hst : Started c) (h : Core.step cfg c a = some (c', os)) : Unseen (tr ++ os) c' := by
  intro q hq
  have hle : c.started ≤ c'.started := by
    cases step_move h with
    | paired => exact Nat.le_succ _
    | _ => exact Nat.le_refl _
  have hq' : c.started ≤ q := Nat.le_trans hle hq
  obtain ⟨ht, he, hr⟩ := hi q hq'
  obtain ⟨ht', he', hr'⟩ := (step_flow h).told_idle (hst.idle q hq')
  rw [told_append, reported_append, ht, ht', hr, hr']
  refine ⟨rfl, fun h => ?_, rfl⟩
  rw [reportedOn_append, he, he']
  rfl

theorem Telling.step (hi : Telling q tr c) (hu : Unseen tr c) (hs : ∀ k, (c.runs k).Sound)
    (h : Core.step cfg c a = some (c', os)) : Telling q (tr ++ os) c' := by
  have hother : ∀ {k r}, q ≠ k → c'.runs = Function.update c.runs k r → c'.runs q = c.runs q := by
    intro k r hk hr
    rw [hr, Function.update_of_ne hk]
  have hstill : c'.runs q = c.runs q → Core.told q os = [] → (∀ h, reportedOn q h os = []) → reported q os = [] →
      Telling q (tr ++ os) c' := by
    intro hr ht he hall
    exact hi.silent (by rw [hr]; exact .refl _) (by rw [hr]) ⟨hall, he, ht⟩
  cases step_flow h with
  | silent hall hos => exact hi.silent (hall q).1 (hall q).2 (hos q)
  | started payload hr hos =>
    by_cases hq : q = c.started
    · subst hq
      obtain ⟨ht, he, hall⟩ := hu c.started (Nat.le_refl _)
      have hrun : c'.runs c.started = .start cfg payload := by rw [hr, Function.update_self]
      refine telling_start hrun ?_ (fun n => ?_) ?_
      · rw [told_append, ht, (hos _).2.2]
        rfl
      · rw [reportedOn_append, he, (hos _).2.1]
        rfl
      · rw [reported_append, hall, (hos _).1]
        rfl
    · exact hstill (hother hq hr) (hos q).2.2 (hos q).2.1 (hos q).1
  | ran k act r outs ha hstep hr hos =>
    by_cases hq : q = k
    · subst hq
      exact hi.ran (hs q) hstep (by rw [hr, Function.update_self]) hos
    · rw [hos] at hstill ⊢
      exact hstill (hother hq hr) (told_out k q outs) (fun n => reportedOn_out_of_ne hq n outs) (reported_out_of_ne hq outs)
  | told k e r _ hr ha hw hos =>
    by_cases hq : q = k
    · subst hq
      have hrun : c'.runs q = r := by rw [hr, Function.update_self]
      rw [hos]
      exact hi.told (hrun ▸ ha) (hrun ▸ hw)
    · rw [hos] at hstill ⊢
      exact hstill (hother hq hr) (told_report_of_ne hq e) (fun n => reportedOn_report k q n e) (reported_report k q e)

theorem telling_idle (hr : c.runs q = .idle) : Telling q [] c := by
  refine ⟨?_, ?_, fun _ _ => rfl, ⟨[], ?_, Or.inr rfl⟩⟩
  · rw [hr]
    exact Or.inl rfl
  · rw [hr]
    intro h s hs
    cases hs
  · rw [hr]
    rfl

theorem run_telling {C : List Obs → Core → Act → Prop} (h : Run (system cfg) C tr c) (q : Nat) :
    Telling q tr c ∧ Unseen tr c := by
  induction h with
  | init h0 =>
    obtain ⟨peers, tmp, rfl⟩ := h0
    exact ⟨telling_idle rfl, fun _ _ => ⟨rfl, fun _ => rfl, rfl⟩⟩
  | step hr _ hs ih => exact ⟨ih.1.step ih.2 (run_sound hr) hs, ih.2.step (run_started hr) hs⟩

/-! ## Whom the listener takes to be connected -/

def Unhurried (c : Core) : Act → Prop
  | .run q .abort => drained (c.runs q).dialer.pc = none
  | _ => True

/-- Going by what it was told, and is going to be told, a listener takes the peer of
the drained session to be connected as long as that is past its handshake and not closed. -/
def Shown (q : Nat) (tr : List Obs) (c : Core) : Prop :=
  (c.runs q).Shows ((Core.told q tr).foldl coreAfter none) fun h => reportedOn q h tr

theorem Shown.alike (hi : Shown q tr c) (ha : Alike (c.runs q) (c'.runs q)) (he : ∀ h, reportedOn q h os = [])
    (hp : peerAt ((Core.told q (tr ++ os)).foldl coreAfter none) (c'.runs q).waiting =
      peerAt ((Core.told q tr).foldl coreAfter none) (c.runs q).waiting) : Shown q (tr ++ os) c' := by
  unfold Shown PairRun.Shows at *
  rw [hp, hi, ha.dialer]
  simp only [reportedOn_append, he, List.append_nil]

theorem Shown.told (hi : Shown q tr c) {e : DialerEvent} (ha : Alike (c.runs q) (c'.runs q))
    (hw : (c.runs q).waiting = e :: (c'.runs q).waiting) : Shown q (tr ++ report q e) c' := by
  refine hi.alike ha (fun h => reportedOn_report q q h e) ?_
  rw [told_append, told_report, List.foldl_append, hw, peerAt_cons]
  unfold peerAfter
  cases toCoreEvent e <;> rfl

theorem Shown.ran (hi : Shown q tr c) (ht : Telling q tr c) (hs : (c.runs q).Sound) {act : PairRun.Act}
    (h : (c.runs q).step act = some (r, outs)) (ha : act = .abort → drained (c.runs q).dialer.pc = none) (hr : c'.runs q = r)
    (hos : os = outs.map fun o => .out q o.1 o.2) : Shown q (tr ++ os) c' := by
  have hshows := (PairRun.step_carry hs ht.attached h).shows ht.unopened ha hi
  unfold Shown
  rw [hr, hos, told_append, told_out, List.append_nil]
  simp only [reportedOn_append, reportedOn_out]
  exact hshows

theorem Shown.step (hi : Shown q tr c) (ht : Telling q tr c) (hu : Unseen tr c) (hs : ∀ k, (c.runs k).Sound)
    (hab : c.Unhurried a) (h : Core.step cfg c a = some (c', os)) : Shown q (tr ++ os) c' := by
  have hstill : c'.runs q = c.runs q → Core.told q os = [] → (∀ h, reportedOn q h os = []) → Shown q (tr ++ os) c' := by
    intro hr ht he
    refine hi.alike (by rw [hr]; exact .refl _) he ?_
    rw [told_append, ht, List.append_nil, hr]
  have hother : ∀ {k r}, q ≠ k → c'.runs = Function.update c.runs k r → c'.runs q = c.runs q := by
    intro k r hk hr
    rw [hr, Function.update_of_ne hk]
  cases step_flow h with
  | silent hall hos =>
    refine hi.alike (hall q).1 (hos q).2.1 ?_
    rw [told_append, (hos q).2.2, List.append_nil, (hall q).2]
  | started payload hr hos =>
    by_cases hq : q = c.started
    · subst hq
      have hrun : c'.runs c.started = .start cfg payload := by rw [hr, Function.update_self]
      have htold : Core.told c.started (tr ++ os) = [] := by
        rw [told_append, (hu c.started (Nat.le_refl _)).1, (hos _).2.2]
        rfl
      unfold Shown
      rw [hrun, htold]
      exact (PairRun.shows_none rfl).mpr rfl
    · exact hstill (hother hq hr) (hos q).2.2 (hos q).2.1
  | ran k act r outs ha hstep hr hos =>
    by_cases hq : q = k
    · subst hq
      refine hi.ran ht (hs q) hstep (fun hact => ?_) (by rw [hr, Function.update_self]) hos
      subst ha hact
      exact hab
    · rw [hos] at hstill ⊢
      exact hstill (hother hq hr) (told_out k q outs) fun n => reportedOn_out_of_ne hq n outs
  | told k e r _ hr ha hw hos =>
    by_cases hq : q = k
    · subst hq
      have hrun : c'.runs q = r := by rw [hr, Function.update_self]
      rw [hos]
      exact hi.told (hrun ▸ ha) (hrun ▸ hw)
    · rw [hos] at hstill ⊢
      exact hstill (hother hq hr) (told_report_of_ne hq e) fun n => reportedOn_report k q n e

theorem run_shown (h : Run (system cfg) (fun _ c a => c.Unhurried a) tr c) (q : Nat) : Shown q tr c := by
  induction h with
  | init h0 =>
    obtain ⟨peers, tmp, rfl⟩ := h0
    exact (PairRun.shows_none rfl).mpr rfl
  | step hr hc hs ih =>
    obtain ⟨ht, hu⟩ := run_telling hr q
    exact ih.step ht hu (run_sound hr) hc hs

end Core

end Ffi

end PenguinSync
