import PenguinSync.Net.Events
import PenguinSync.Ffi.Slot
import PenguinSync.Ffi.Teardown

/-!
# Events on their way to the listener

An event of a session waits to be drained, then in the channel, then with the
forwarder. What one step of a run does to the events on their way is told apart
here, and whom they show as the connected peer.
-/

namespace PenguinSync

open Lts

def DialerEvent.session? : DialerEvent → Option SessionEvent
  | .session e => some e
  | _ => none

def Dialer.Obs.event? : Dialer.Obs → Option DialerEvent
  | .event e => some e
  | _ => none

/-- The loop tells of a session what the session told it, and opens only new ones. -/
theorem Dialer.step_says {d d' : Dialer} {a : Dialer.Act} {os : List Dialer.Obs} {o : Dialer.Obs}
    (h : d.step a = some (d', os)) (ho : o ∈ os) :
    (∀ e, o = .event (.session e) → a = .event e) ∧ ∀ n m, o = .opened n m → m.phase = .awaitingPeerHandshake := by
  cases a with
  | dial ok =>
    simp only [step, Option.ite_none_right_eq_some, Option.some.injEq, Prod.mk.injEq] at h
    obtain ⟨-, -, rfl⟩ := h
    rw [List.mem_singleton.mp ho]
    simp
  | connect ok =>
    simp only [step] at h
    split at h
    · split at h <;> cases h <;> cases ho
    · cases h
  | openBi ok =>
    simp only [step] at h
    split at h
    · split at h
      · split at h <;> cases h
        · rcases List.mem_pair.mp ho with rfl | rfl <;> simp [ConnectionMachine.new]
        · rcases List.mem_pair.mp ho with rfl | rfl <;> simp [ConnectionMachine.new]
      · cases h
        cases ho
    · cases h
  | event e =>
    simp only [step] at h
    split at h
    · cases h
      unfold send at ho
      split at ho
      · cases ho
      · rw [List.mem_singleton.mp ho]
        simp
    · cases h
  | ended =>
    simp only [step] at h
    split at h
    · cases h
      cases ho
    · cases h
  | retry =>
    simp only [step, Option.ite_none_right_eq_some] at h
    obtain ⟨-, h⟩ := h
    split at h
    · cases h
      cases ho
    · cases h
      unfold send at ho
      split at ho
      · cases ho
      · rw [List.mem_singleton.mp ho]
        simp
  | wake =>
    simp only [step, Option.ite_none_right_eq_some, Option.some.injEq, Prod.mk.injEq] at h
    obtain ⟨-, -, rfl⟩ := h
    cases ho
  | abort =>
    simp only [step, Option.ite_none_right_eq_some, Option.some.injEq, Prod.mk.injEq] at h
    obtain ⟨-, -, rfl⟩ := h
    cases ho
  | dropReceiver =>
    cases h
    cases ho

theorem Session.Told.step {s s' : Session} {evs : List SessionEvent} {hello : Option Handshake} {a : Session.Act}
    {outs : List Output} (ht : s.Told evs hello) (h : s.step a = some (s', outs)) :
    ∃ hello', s'.Told (evs ++ outs.filterMap Output.event?) hello' := by
  cases Session.step_move h with
  | gives ev nonce clock write hs hg =>
    have hgive := ht.give hs ev nonce clock write
    rw [hg] at hgive
    exact ⟨_, hgive⟩
  | commands c cs write hs _ hg =>
    have hpop : ({ s with commands := cs } : Session).Told evs hello := ht.same rfl rfl
    have hgive := hpop.give hs (.sendClipboard c) 0 0 write
    rw [hg] at hgive
    exact ⟨_, hgive⟩
  | closes r hs hc =>
    cases hc
    exact ⟨_, ht.close hs r⟩

namespace Ffi

/-! ## Whom an event shows as the peer -/

abbrev Peer := String × String

def coreAfter (p : Option Peer) : CoreEvent → Option Peer
  | .peerHandshake deviceId name => some (name, deviceId)
  | .reconnecting .. | .disconnected _ => none
  | .ponged _ | .clipboardReceived _ => p

def peerAfter (p : Option Peer) (e : DialerEvent) : Option Peer := (toCoreEvent e).elim p (coreAfter p)

def peerAt (p : Option Peer) (es : List DialerEvent) : Option Peer := es.foldl peerAfter p

def known (evs : List SessionEvent) : Option Peer := peerAt none (evs.map .session)

section
variable {p : Option Peer} {e : DialerEvent} {es es' : List DialerEvent} {evs evs' : List SessionEvent}

@[simp] theorem peerAt_nil : peerAt p [] = p := rfl

@[simp] theorem peerAt_cons : peerAt p (e :: es) = peerAt (peerAfter p e) es := rfl

theorem peerAt_append : peerAt p (es ++ es') = peerAt (peerAt p es) es' := List.foldl_append

theorem known_append : known (evs ++ evs') = peerAt (known evs) (evs'.map .session) := by
  unfold known
  rw [List.map_append, peerAt_append]

/-- Only a session shows a peer where none was. -/
theorem peerAt_none (h : es.filterMap DialerEvent.session? = []) : peerAt none es = none := by
  induction es with
  | nil => rfl
  | cons e es ih =>
    cases e with
    | session x => simp [DialerEvent.session?] at h
    | connected n => exact ih (by simpa [DialerEvent.session?] using h)
    | reconnecting n d => exact ih (by simpa [DialerEvent.session?] using h)

theorem peerAt_same (h : ∀ e ∈ evs, e.isPeerHandshake = false ∧ ∀ r, e ≠ .closed r) :
    peerAt p (evs.map .session) = p := by
  induction evs with
  | nil => rfl
  | cons e evs ih =>
    obtain ⟨hno, hopen⟩ := h e List.mem_cons_self
    have hrest := ih fun x hx => h x (List.mem_cons_of_mem _ hx)
    have hsame : peerAfter p (.session e) = p := by
      cases e with
      | peerHandshake => cases hno
      | closed r => exact absurd rfl (hopen r)
      | ponged rtt => rfl
      | clipboardReceived c =>
        have hcore : toCoreEvent (.session (.clipboardReceived c)) = (fromUtf8 c.content).map .clipboardReceived := rfl
        unfold peerAfter
        rw [hcore]
        cases fromUtf8 c.content <;> rfl
    rw [List.map_cons, peerAt_cons, hsame, hrest]

theorem peerAfter_closed (p : Option Peer) (r : CloseReason) : peerAfter p (.session (.closed r)) = none := rfl

/-- What a session has told shows its peer as long as it is past its handshake and not closed. -/
theorem known_told {s : Session} {hello : Option Handshake} (h : s.Told evs hello) :
    (s.machine.phase = .ready ∧ s.stage ≠ .done →
        ∃ h : Handshake, h.event ∈ evs ∧ known evs = some (h.name, toHex h.deviceId)) ∧
      (¬ (s.machine.phase = .ready ∧ s.stage ≠ .done) → known evs = none) := by
  cases h with
  | waiting hp hd =>
    refine ⟨fun hu => ?_, fun _ => rfl⟩
    have hr := hu.1
    rw [hp] at hr
    cases hr
  | ended r _ hp hd =>
    refine ⟨fun hu => absurd hd hu.2, fun _ => rfl⟩
  | greeted h rest hr hv hno hlast hclosed =>
    refine ⟨fun hu => ⟨h, List.mem_cons_self, ?_⟩, fun hu => ?_⟩
    · have hrest : ∀ e ∈ rest, e.isPeerHandshake = false ∧ ∀ r, e ≠ .closed r := by
        intro e he
        refine ⟨hno e he, fun r hc => hlast.not_mem hu.2 r ?_⟩
        rw [← hc]
        exact he
      have hshown : known (h.event :: rest) = peerAt (some (h.name, toHex h.deviceId)) (rest.map .session) := rfl
      rw [hshown, peerAt_same hrest]
    · have hd : s.stage = .done := by
        by_contra hd
        exact hu ⟨hr, hd⟩
      obtain ⟨r, hr⟩ := hclosed hd
      obtain ⟨pre, post, rfl⟩ := List.append_of_mem hr
      have hpost : post = [] := (hlast pre r post rfl).1
      have hsplit : h.event :: (pre ++ .closed r :: post) = (h.event :: pre) ++ [.closed r] := by
        rw [hpost, List.cons_append]
      rw [hsplit, known_append]
      exact peerAfter_closed (known (h.event :: pre)) r

end

/-! ## Events on their way to the listener -/

def Forwarder.event? : Forwarder → Option DialerEvent
  | .load e | .write _ e | .rename e => some e
  | _ => none

namespace PairRun

def undrained (r : PairRun) : List DialerEvent :=
  (drained r.dialer.pc).elim [] fun h => (r.conns h).events.map .session

def waiting (r : PairRun) : List DialerEvent := r.forwarder.event?.toList ++ (r.channel ++ r.undrained)

/-- Only the drained session has its driving task, until an abort. -/
def Attached (r : PairRun) : Prop := r.dialer.pc = .gone ∨ ∀ h, r.drives h → r.dialer.pc = .draining h

variable {r r' : PairRun} {a : Act} {outs : List (SessionHandle × Output)} {h : SessionHandle}

theorem undrained_draining (hp : r.dialer.pc = .draining h) : r.undrained = (r.conns h).events.map .session := by
  unfold undrained
  rw [hp]
  rfl

theorem undrained_none (hd : drained r.dialer.pc = none) : r.undrained = [] := by
  unfold undrained
  rw [hd]
  rfl

theorem undrained_congr (hd : r'.dialer.pc = r.dialer.pc) (he : ∀ h, (r'.conns h).events = (r.conns h).events) :
    r'.undrained = r.undrained := by
  unfold undrained
  rw [hd]
  cases drained r.dialer.pc with
  | none => rfl
  | some h =>
    show List.map _ _ = List.map _ _
    rw [he h]

theorem setConn_events {n : SessionHandle} {c : Conn} (hc : c.events = (r.conns n).events) :
    ((r.setConn n c).conns h).events = (r.conns h).events := by
  by_cases hn : h = n
  · subst hn
    rw [setConn_self, hc]
  · rw [setConn_of_ne hn]

theorem waiting_setConn {n : SessionHandle} {c : Conn} (hc : c.events = (r.conns n).events) :
    (r.setConn n c).waiting = r.waiting := by
  have hu : (r.setConn n c).undrained = r.undrained := undrained_congr rfl fun k => setConn_events hc
  unfold waiting
  rw [hu]
  rfl

theorem foldl_absorb_channel (os : List Dialer.Obs) (r : PairRun) :
    (os.foldl absorb r).channel = r.channel ++ os.filterMap Dialer.Obs.event? := by
  induction os generalizing r with
  | nil => simp
  | cons o os ih =>
    rw [List.foldl_cons, ih]
    cases o with
    | event e => simp [absorb, Dialer.Obs.event?]
    | _ => rfl

theorem task_quiet {act : Dialer.Act} (h : r.task act = some r') (ha : ∀ e, act ≠ .event e) :
    ∃ es, r'.channel = r.channel ++ es ∧ es.filterMap DialerEvent.session? = [] := by
  obtain ⟨d, os, hs, rfl⟩ := task_some h
  refine ⟨_, foldl_absorb_channel os _, List.filterMap_eq_nil_iff.mpr fun e he => ?_⟩
  obtain ⟨o, ho, hoe⟩ := List.mem_filterMap.mp he
  cases o with
  | event x =>
    cases hoe
    cases e with
    | session e => exact absurd ((Dialer.step_says hs ho).1 e rfl) (ha e)
    | _ => rfl
  | _ => cases hoe

/-- While no session is drained, no event of a session is passed on. -/
theorem step_quiet (hd : drained r.dialer.pc = none) (h : r.step a = some (r', outs)) :
    ∃ es, r'.channel = r.channel ++ es ∧ es.filterMap DialerEvent.session? = [] := by
  have htask : ∀ {act}, (∀ e, act ≠ .event e) → (r.task act).map (·, ([] : List (SessionHandle × Output))) = some (r', outs) →
      ∃ es, r'.channel = r.channel ++ es ∧ es.filterMap DialerEvent.session? = [] := by
    intro act ha hm
    simp only [Option.map_eq_some_iff, Prod.mk.injEq] at hm
    obtain ⟨r₁, ht, rfl, -⟩ := hm
    exact task_quiet ht ha
  have hsame : r'.channel = r.channel → ∃ es, r'.channel = r.channel ++ es ∧ es.filterMap DialerEvent.session? = [] := by
    intro hch
    exact ⟨[], by simp [hch], rfl⟩
  cases a with
  | dial ok => exact htask (by simp) h
  | connect ok => exact htask (by simp) h
  | openBi ok => exact htask (by simp) h
  | drain =>
    simp only [step] at h
    split at h
    · rename_i n hp
      rw [hp] at hd
      cases hd
    · cases h
  | retry => exact htask (by simp) h
  | wake => exact htask (by simp) h
  | abort =>
    simp only [step, Option.ite_none_right_eq_some] at h
    exact htask (by simp) h.2
  | drive n act =>
    simp only [step] at h
    split at h
    · split at h
      · cases h
        exact hsame rfl
      · cases h
    · cases h
  | lose n =>
    simp only [step, Option.ite_none_right_eq_some, Option.some.injEq, Prod.mk.injEq] at h
    obtain ⟨-, rfl, -⟩ := h
    exact hsame rfl

theorem step_attached (hr : r.Sound) (hi : r.Attached) (h : r.step a = some (r', outs)) : r'.Attached := by
  obtain ⟨hm, -⟩ := step_move hr.listening h
  rcases hi with hg | hi
  · exact Or.inl (hm.frame.2.2 hg).1
  · by_cases hg : r'.dialer.pc = .gone
    · exact Or.inl hg
    · right
      intro n hd'
      rcases hm.drives hd' with hd | ⟨-, hp⟩
      · have hp := hi n hd
        cases hm with
        | aside _ hn => rw [hp] at hn; cases hn
        | established hp' => rw [hp] at hp'; cases hp'
        | opened hp' => rw [hp] at hp'; cases hp'
        | passed hp' _ _ hpc =>
          rw [hpc]
          exact hp'.symm.trans hp
        | @closed d k e rest hp' he hcl _ _ =>
          obtain rfl : k = n := by
            rw [hp] at hp'
            cases hp'
            rfl
          exact absurd hd (hr.closed_done hp' he hcl)
        | @ended d k hp' he hnd _ _ => exact absurd (hr.drives hp' he) hnd
        | aborted _ _ hpc => exact absurd hpc hg
        | drove => exact hp
        | lost => exact hp
      · exact hp

/-- What a step of the run does to the events on their way: no session is drained,
one of them or none is passed on, the driving task reports more, an abort drops
those not drained, or the dial task is gone. -/
inductive Carry (r r' : PairRun) (a : Act) (outs : List (SessionHandle × Output)) : Prop
  | quiet (es : List DialerEvent) : r.dialer.pc ≠ .gone → drained r.dialer.pc = none → r'.waiting = r.waiting ++ es →
      es.filterMap DialerEvent.session? = [] → outs = [] →
      (∀ h, r'.dialer.pc = .draining h → (r.conns h).session = none) → Carry r r' a outs
  | kept : r'.waiting = r.waiting → r'.dialer.pc = r.dialer.pc → outs = [] → Carry r r' a outs
  | closed (pre : List DialerEvent) (reason : CloseReason) : r.dialer.pc ≠ .gone → r'.waiting = r.waiting →
      r.waiting = pre ++ [.session (.closed reason)] → drained r'.dialer.pc = none → outs = [] → Carry r r' a outs
  | drove (n : SessionHandle) (os : List Output) : r.dialer.pc = .draining n → r'.dialer.pc = .draining n →
      r'.waiting = r.waiting ++ (os.filterMap Output.event?).map .session → outs = os.map (n, ·) → Carry r r' a outs
  | cut (es : List DialerEvent) : a = .abort → drained r.dialer.pc ≠ none → r.waiting = r'.waiting ++ es →
      r'.dialer.pc = .gone → outs = [] → Carry r r' a outs
  | gone : r.dialer.pc = .gone → r'.dialer.pc = .gone → r'.waiting = r.waiting → Carry r r' a outs

theorem step_carry (hr : r.Sound) (hi : r.Attached) (h : r.step a = some (r', outs)) : Carry r r' a outs := by
  obtain ⟨hm, -⟩ := step_move hr.listening h
  have hfw : r'.forwarder = r.forwarder := hm.frame.2.1
  have hwait : ∀ {es}, r'.channel ++ r'.undrained = (r.channel ++ r.undrained) ++ es → r'.waiting = r.waiting ++ es := by
    intro es he
    unfold waiting
    rw [hfw, he, ← List.append_assoc]
  have hsame : r'.channel ++ r'.undrained = r.channel ++ r.undrained → r'.waiting = r.waiting := by
    intro he
    have hnil : r'.channel ++ r'.undrained = (r.channel ++ r.undrained) ++ [] := by rw [he, List.append_nil]
    rw [hwait hnil, List.append_nil]
  cases hm with
  | aside hg hd hh =>
    obtain ⟨es, hch, hes⟩ := step_quiet hd h
    refine .quiet es hg hd (hwait ?_) hes rfl fun n hp => ?_
    · rw [hch, undrained_none hd, undrained_none (drained_of_held hh), List.append_nil, List.append_nil]
    · rw [held_draining hp] at hh
      cases hh
  | @established d t hp hpc =>
    have hd : drained r.dialer.pc = none := by rw [hp]; rfl
    have hd' : drained ({ r with dialer := d } : PairRun).dialer.pc = none := by
      rw [show ({ r with dialer := d } : PairRun).dialer.pc = _ from hpc]
      rfl
    refine .quiet [] (by rw [hp]; simp) hd (hwait ?_) rfl rfl fun n hp' => ?_
    · rw [undrained_none hd, undrained_none hd', List.append_nil, List.append_nil]
    · rw [hp'] at hd'
      cases hd'
  | @opened d t n m hp hpc =>
    have hnew := hr.unopened n (Or.inr ⟨t, hp⟩)
    have hd : drained r.dialer.pc = none := by rw [hp]; rfl
    refine .quiet [.connected n] (by rw [hp]; simp) hd (hwait ?_) rfl rfl fun k hp' => ?_
    · have hevents : ({ r.setConn n { r.conns n with session := some (.new m) } with
          dialer := d, channel := r.channel ++ [.connected n] } : PairRun).undrained = [] := by
        rw [undrained_draining hpc]
        show List.map _ ((r.setConn n _).conns n).events = []
        rw [setConn_self, hnew.2]
        rfl
      rw [hevents, undrained_none hd, List.append_nil, List.append_nil]
    · obtain rfl : n = k := by
        rw [show d.pc = _ from hpc] at hp'
        cases hp'
        rfl
      exact hnew.1
  | @passed d n e rest hp he hne hpc =>
    refine .kept (hsame ?_) (hpc.trans hp.symm) rfl
    have hevents : ({ r.setConn n { r.conns n with events := rest } with
        dialer := d, channel := r.channel ++ [.session e] } : PairRun).undrained = rest.map .session := by
      rw [undrained_draining hpc]
      show List.map _ ((r.setConn n _).conns n).events = _
      rw [setConn_self]
    rw [hevents, undrained_draining hp, he, List.map_cons, List.append_assoc]
    rfl
  | @closed d n e rest hp he hc hpc =>
    obtain ⟨s, -, hlast, -⟩ := hr.driven n hp
    cases e with
    | closed reason =>
      rw [he] at hlast
      have hrest : rest = [] := hlast.head.1
      have hd : drained d.pc = none := by rw [hpc]; rfl
      have hevents : ({ r.setConn n { r.conns n with events := rest } with
          dialer := d, channel := r.channel ++ [.session (.closed reason)] } : PairRun).undrained = [] := undrained_none hd
      have hwaiting : r.waiting = (r.forwarder.event?.toList ++ r.channel) ++ [.session (.closed reason)] := by
        unfold waiting
        rw [undrained_draining hp, he, hrest, List.append_assoc]
        rfl
      refine .closed _ reason (by rw [hp]; simp) (hsame ?_) hwaiting hd rfl
      rw [hevents, undrained_draining hp, he, hrest, List.append_nil]
      rfl
    | _ => cases hc
  | ended hp he hnd => exact absurd (hr.drives hp he) hnd
  | @aborted d n hcan hp hpc =>
    refine .cut r.undrained rfl (by rw [hp]; simp [drained]) ?_ hpc rfl
    have hd : drained d.pc = none := by rw [hpc]; rfl
    unfold waiting
    rw [undrained_none (r := { r with dialer := d }) hd, List.append_nil, List.append_assoc]
  | @drove n act s s' os hs hstep =>
    by_cases hp : r.dialer.pc = .draining n
    · refine .drove n os hp hp (hwait ?_) rfl
      have hp' : ∀ c, (r.setConn n c).dialer.pc = .draining n := fun _ => hp
      rw [undrained_draining (hp' _), undrained_draining hp, setConn_self, if_pos hp, List.map_append, List.append_assoc]
      rfl
    · have hg : r.dialer.pc = .gone := by
        rcases hi with hg | hi
        · exact hg
        · exact absurd (hi n ⟨s, hs, (Session.step_closedLast hstep).1⟩) hp
      have hd : drained r.dialer.pc = none := by rw [hg]; rfl
      have hd' : ∀ c, drained (r.setConn n c).dialer.pc = none := fun _ => hd
      refine .gone hg hg (hsame ?_)
      rw [undrained_none (hd' _), undrained_none hd]
      rfl
  | @lost n _ =>
    have hu : (r.setConn n { r.conns n with closed := true }).undrained = r.undrained :=
      undrained_congr rfl fun k => setConn_events rfl
    refine .kept (hsame ?_) rfl rfl
    rw [hu]
    rfl

def eventsOn (n : SessionHandle) (outs : List (SessionHandle × Output)) : List SessionEvent :=
  outs.filterMap fun o => if o.1 = n then o.2.event? else none

theorem eventsOn_self (n : SessionHandle) (os : List Output) : eventsOn n (os.map (n, ·)) = os.filterMap Output.event? := by
  unfold eventsOn
  rw [List.filterMap_map]
  apply List.filterMap_congr
  intro o _
  simp

theorem eventsOn_of_ne {n k : SessionHandle} (hk : k ≠ n) (os : List Output) : eventsOn k (os.map (n, ·)) = [] := by
  unfold eventsOn
  rw [List.filterMap_map, List.filterMap_eq_nil_iff]
  intro o _
  simp [Ne.symm hk]

/-- Whom a listener that took `p` to be connected is going to take for it: the peer
of the drained session, going by what that has reported. -/
def Shows (r : PairRun) (p : Option Peer) (evs : SessionHandle → List SessionEvent) : Prop :=
  peerAt p r.waiting = (drained r.dialer.pc).elim none fun h => known (evs h)

section
variable {p : Option Peer} {evs : SessionHandle → List SessionEvent}

theorem shows_none (hd : drained r.dialer.pc = none) : r.Shows p evs ↔ peerAt p r.waiting = none := by
  unfold Shows
  rw [hd]
  rfl

theorem shows_draining (hp : r.dialer.pc = .draining h) : r.Shows p evs ↔ peerAt p r.waiting = known (evs h) := by
  unfold Shows
  rw [hp]
  rfl

theorem Carry.shows (hc : Carry r r' a outs) (hu : ∀ h, (r.conns h).session = none → evs h = [])
    (ha : a = .abort → drained r.dialer.pc = none) (hs : r.Shows p evs) :
    r'.Shows p fun n => evs n ++ eventsOn n outs := by
  cases hc with
  | quiet es _ hd hw hes hos hopen =>
    have hnone : peerAt p r'.waiting = none := by
      rw [hw, peerAt_append, (shows_none hd).mp hs, peerAt_none hes]
    cases hd' : drained r'.dialer.pc with
    | none => exact (shows_none hd').mpr hnone
    | some n =>
      have hp := drained_iff.mp hd'
      rw [shows_draining hp, hnone, hos, hu n (hopen n hp)]
      rfl
  | kept hw hpc hos =>
    unfold Shows at *
    rw [hw, hpc, hs, hos]
    simp [eventsOn]
  | closed pre reason _ hw hlast hd hos =>
    rw [shows_none hd, hw, hlast, peerAt_append]
    exact peerAfter_closed (peerAt p pre) reason
  | drove n os hp hp' hw hos =>
    rw [shows_draining hp', hw, peerAt_append, (shows_draining hp).mp hs, hos, eventsOn_self, known_append]
  | cut es hab hd => exact absurd (ha hab) hd
  | gone hg hg' hw =>
    have hd : drained r.dialer.pc = none := by rw [hg]; rfl
    have hd' : drained r'.dialer.pc = none := by rw [hg']; rfl
    rw [shows_none hd', hw]
    exact (shows_none hd).mp hs

end

/-! ## The session behind a connection -/

theorem foldl_absorb_dialer (os : List Dialer.Obs) (r : PairRun) : (os.foldl absorb r).dialer = r.dialer := by
  induction os generalizing r with
  | nil => rfl
  | cons o os ih =>
    rw [List.foldl_cons, ih]
    cases o <;> rfl

theorem foldl_absorb_session {n : SessionHandle} {s : Session} (os : List Dialer.Obs) (r : PairRun)
    (hs : ((os.foldl absorb r).conns n).session = some s) :
    (r.conns n).session = some s ∨ ∃ m, .opened n m ∈ os ∧ s = .new m := by
  induction os generalizing r with
  | nil => exact Or.inl hs
  | cons o os ih =>
    rw [List.foldl_cons] at hs
    rcases ih _ hs with hs | ⟨m, hm, rfl⟩
    · cases o with
      | opened k m =>
        by_cases hk : n = k
        · subst hk
          have hnew : ((r.setConn n { r.conns n with session := some (.new m) }).conns n).session = some s := hs
          rw [setConn_self] at hnew
          exact Or.inr ⟨m, List.mem_cons_self, (Option.some.inj hnew).symm⟩
        · left
          have hold : ((r.setConn k { r.conns k with session := some (.new m) }).conns n).session = some s := hs
          rw [setConn_of_ne hk] at hold
          exact hold
      | hungUp k =>
        left
        have hold : ((r.setConn k { r.conns k with closed := true }).conns n).session = some s := hs
        by_cases hk : n = k
        · subst hk
          rw [setConn_self] at hold
          exact hold
        · rw [setConn_of_ne hk] at hold
          exact hold
      | _ => exact Or.inl hs
    · exact Or.inr ⟨m, List.mem_cons_of_mem _ hm, rfl⟩

theorem setConn_session {n k : SessionHandle} {c : Conn} (hc : c.session = (r.conns k).session) :
    ((r.setConn k c).conns n).session = (r.conns n).session := by
  by_cases hk : n = k
  · subst hk
    rw [setConn_self, hc]
  · rw [setConn_of_ne hk]

theorem step_task (h : r.step a = some (r', outs)) :
    (∃ r₀ : PairRun, ∃ act, r₀.dialer = r.dialer ∧ (∀ n, (r₀.conns n).session = (r.conns n).session) ∧ r₀.task act = some r') ∨
      r'.dialer = r.dialer ∧ ∀ n, (r.conns n).session = none → (r'.conns n).session = none := by
  have hmap : ∀ {x : PairRun} {act}, x.dialer = r.dialer → (∀ n, (x.conns n).session = (r.conns n).session) →
      (x.task act).map (·, ([] : List (SessionHandle × Output))) = some (r', outs) →
      ∃ r₀ : PairRun, ∃ act, r₀.dialer = r.dialer ∧ (∀ n, (r₀.conns n).session = (r.conns n).session) ∧
        r₀.task act = some r' := by
    intro x act hd hs hm
    simp only [Option.map_eq_some_iff, Prod.mk.injEq] at hm
    obtain ⟨r₁, ht, rfl, -⟩ := hm
    exact ⟨x, act, hd, hs, ht⟩
  cases a with
  | dial ok | connect ok | openBi ok | retry | wake => exact Or.inl (hmap rfl (fun _ => rfl) h)
  | drain =>
    simp only [step] at h
    split at h
    · rename_i k hp
      split at h
      · rename_i e rest he
        exact Or.inl (hmap (x := r.setConn k { r.conns k with events := rest }) rfl (fun n => setConn_session rfl) h)
      · split at h
        · cases h
        · exact Or.inl (hmap rfl (fun _ => rfl) h)
    · cases h
  | abort =>
    simp only [step, Option.ite_none_right_eq_some] at h
    exact Or.inl (hmap rfl (fun _ => rfl) h.2)
  | drive k act =>
    simp only [step] at h
    split at h
    · rename_i t ht
      split at h
      · cases h
        refine Or.inr ⟨rfl, fun n hn => ?_⟩
        by_cases hk : n = k
        · subst hk
          rw [hn] at ht
          cases ht
        · rw [setConn_of_ne hk, hn]
      · cases h
    · cases h
  | lose k =>
    simp only [step, Option.ite_none_right_eq_some, Option.some.injEq, Prod.mk.injEq] at h
    obtain ⟨-, rfl, -⟩ := h
    exact Or.inr ⟨rfl, fun n hn => (setConn_session (c := { r.conns k with closed := true }) rfl).trans hn⟩

/-- A session that a step brings up is new, on a machine of the dial task's. -/
theorem step_opened {n : SessionHandle} {s : Session} (h : r.step a = some (r', outs)) (hn : (r.conns n).session = none)
    (hs : (r'.conns n).session = some s) : ∃ d os m, r.dialer.step d = some (r'.dialer, os) ∧ .opened n m ∈ os ∧ s = .new m := by
  rcases step_task h with ⟨r₀, act, hd, hsame, ht⟩ | ⟨-, hnone⟩
  · obtain ⟨d, os, hstep, rfl⟩ := task_some ht
    rw [hd] at hstep
    rcases foldl_absorb_session os _ hs with hs | ⟨m, hm, rfl⟩
    · have hold : (r₀.conns n).session = some s := hs
      rw [hsame n, hn] at hold
      cases hold
    · exact ⟨act, os, m, by rw [foldl_absorb_dialer]; exact hstep, hm, rfl⟩
  · rw [hnone n hn] at hs
    cases hs

theorem step_opens {n : SessionHandle} {s : Session} (h : r.step a = some (r', outs)) (hn : (r.conns n).session = none) (hs : (r'.conns n).session = some s) :
    s.machine.phase = .awaitingPeerHandshake ∧ s.stage = .start := by
  obtain ⟨d, os, m, hd, hm, rfl⟩ := step_opened h hn hs
  exact ⟨(Dialer.step_says hd hm).2 _ _ rfl, rfl⟩

/-- What a step means for one connection: it says nothing and keeps its session, or its driving task took a step. -/
theorem step_conn (hr : r.Sound) (h : r.step a = some (r', outs)) (n : SessionHandle) :
    eventsOn n outs = [] ∧ (∀ s, (r.conns n).session = some s → (r'.conns n).session = some s) ∨
      ∃ s act s' os, (r.conns n).session = some s ∧ s.step act = some (s', os) ∧ (r'.conns n).session = some s' ∧
        eventsOn n outs = os.filterMap Output.event? := by
  obtain ⟨hm, -⟩ := step_move hr.listening h
  have hkept : ∀ s, (r.conns n).session = some s → (r'.conns n).session = some s ∨
      ∃ act s' os, s.step act = some (s', os) ∧ (r'.conns n).session = some s' ∧ outs = os.map (n, ·) := fun s hs =>
    hm.session hr hs
  by_cases hd : ∃ s, (r.conns n).session = some s ∧ ¬ (r'.conns n).session = some s
  · obtain ⟨s, hs, hne⟩ := hd
    rcases hkept s hs with hs' | ⟨act, s', os, hstep, hs', rfl⟩
    · exact absurd hs' hne
    · exact Or.inr ⟨s, act, s', os, hs, hstep, hs', eventsOn_self n os⟩
  · have hall : ∀ s, (r.conns n).session = some s → (r'.conns n).session = some s := by
      intro s hs
      by_contra hne
      exact hd ⟨s, hs, hne⟩
    cases hm with
    | @drove k act s s' os hs hstep =>
      by_cases hk : n = k
      · subst hk
        exact Or.inr ⟨s, act, s', os, hs, hstep, by rw [setConn_self], eventsOn_self n os⟩
      · exact Or.inl ⟨eventsOn_of_ne hk os, hall⟩
    | _ => exact Or.inl ⟨rfl, hall⟩

end PairRun

end Ffi

end PenguinSync
