import PenguinSync.Daemon.Frames

/-!
# Clips from devices that are not paired

Two runs of the loops are compared: one with clipboard messages on its queue
that the other does not get. Which entries of the queue are additional is kept
beside the daemon, and so is whether the orchestrator has one of them in hand;
a run's log leaves out the steps that deal with these.
-/

namespace PenguinSync

open Lts

def Orchestrator.isIdle : Orchestrator → Bool
  | .idle => true
  | _ => false

namespace Daemon

/-! ## What a step makes of the queue and the orchestrator -/

/-- What a step of another task puts on the queue. -/
def posted (s : Daemon) : Act → List (Nat × ListenerEvent)
  | .connection i a => (s.connections[i]?.map fun c => connected i c a).getD []
  | .drain i => (s.connections[i]?.map fun c => (c.events.head?.map fun e => (i, .session c.remote e)).toList).getD []
  | _ => []

/-- What a step of another task makes of the orchestrator. -/
def answered (s : Daemon) (o : Orchestrator) : Act → Orchestrator
  | .confirmPairing deviceId accept =>
    match (fromHex deviceId).bind s.pendingConfirmations.lookup with
    | some channel => answer channel accept o
    | none => o
  | _ => o

section
variable {cfg : Config} {s s' : Daemon} {a : Act} {os : List Obs}

theorem watchStep_apart (q : List (Nat × ListenerEvent)) (o : Orchestrator) (ok : Bool) (target : DeviceId) :
    ({ s with queue := q, orchestrator := o } : Daemon).watchStep cfg ok target = (s.watchStep cfg ok target).map fun r =>
      ({ r.1 with queue := q, orchestrator := o }, r.2) := by
  unfold watchStep
  cases s.watch with
  | off => rfl
  | idle =>
    simp only
    cases s.changes with
    | nil => rfl
    | cons mime rest =>
      simp only
      split <;> rfl
  | reading mime =>
    simp only
    split
    · split <;> rfl
    · rfl
  | checking c =>
    simp only
    split <;> rfl
  | handles c => rfl
  | sending c rest =>
    simp only
    split
    · rfl
    · cases rest.lookup target <;> rfl

/-- The other tasks see neither the queue nor where the orchestrator stands. -/
theorem step_apart (ha : a.task ≠ .orchestrator) (q : List (Nat × ListenerEvent)) (o : Orchestrator) :
    step cfg { s with queue := q, orchestrator := o } a = (step cfg s a).map fun r =>
      ({ r.1 with queue := q ++ s.posted a, orchestrator := s.answered o a }, r.2) := by
  cases a with
  | connection i a =>
    simp only [step, connectionStep, posted, answered]
    cases s.connections[i]? with
    | none => rfl
    | some c =>
      simp only
      cases c.session.step (a.at_ s.now) with
      | none => rfl
      | some r => rfl
  | drain i =>
    simp only [step, drain, posted, answered]
    cases s.connections[i]? with
    | none => rfl
    | some c =>
      cases hc : c.events with
      | nil => simp [hc]
      | cons e rest => simp [hc]
  | accept remote spki =>
    simp only [step, accept, posted, answered, List.append_nil]
    split <;> rfl
  | advance dt => simp only [step, posted, answered, List.append_nil, Option.map_some]
  | startPairing random => simp only [step, posted, answered, List.append_nil, Option.map_some, startPairing]
  | openWindow k =>
    simp only [step, openWindow, posted, answered, List.append_nil]
    split <;> rfl
  | setToken k addrs =>
    simp only [step, setToken, posted, answered, List.append_nil]
    split <;> rfl
  | confirmPairing hex accept =>
    simp only [step, confirmPairing, posted, answered, List.append_nil, Option.map_some]
    cases fromHex hex with
    | none => rfl
    | some id =>
      simp only [Option.bind_some]
      cases s.pendingConfirmations.lookup id <;> rfl
  | unpair hex =>
    simp only [step, unpair, posted, answered, List.append_nil, Option.map_some]
    split <;> rfl
  | unpairStep k ok =>
    simp only [step, unpairStep, posted, answered, List.append_nil, persistState_eq]
    split <;> rfl
  | restore =>
    simp only [step, restore, posted, answered, List.append_nil]
    split
    · rfl
    · split <;> rfl
  | orchestrate => exact absurd rfl ha
  | probe =>
    simp only [step, probe, posted, answered, List.append_nil]
    split <;> rfl
  | copy c => simp only [step, setContent, posted, answered, List.append_nil, Option.map_some]
  | notify => simp only [step, notify, setContent, posted, answered, List.append_nil, Option.map_some]
  | watch ok target =>
    simp only [step, posted, answered, List.append_nil]
    exact watchStep_apart q o ok target
  | watchEnds =>
    simp only [step, watchEnds, posted, answered, List.append_nil]
    split <;> rfl

theorem dispatch_apart (q : List (Nat × ListenerEvent)) (i : Nat) (e : ListenerEvent) :
    ({ s with queue := q } : Daemon).dispatch i e = ({ (s.dispatch i e).1 with queue := q }, (s.dispatch i e).2) := by
  cases e with
  | connected remote handle => rfl
  | session remote ev =>
    cases ev with
    | clipboardReceived clip =>
      simp only [dispatch]
      split <;> rfl
    | _ => rfl

theorem dispatch_queue (i : Nat) (e : ListenerEvent) : (s.dispatch i e).1.queue = s.queue := by
  cases hd : s.dispatch i e with
  | mk s' os =>
    obtain ⟨⟨_, _, _, rfl⟩, -⟩ := dispatch_frame hd
    rfl

theorem handshakeStep_apart (q : List (Nat × ListenerEvent)) (h : Handling) (ok : Bool) (pc : HandshakePc) :
    ({ s with queue := q } : Daemon).handshakeStep h ok pc = (s.handshakeStep h ok pc).map fun r =>
      ({ r.1 with queue := q }, r.2) := by
  cases pc with
  | isPaired =>
    simp only [handshakeStep]
    split
    · rfl
    · cases h.pairingToken <;> rfl
  | redeem presented =>
    cases hc : s.currentToken with
    | none => simp only [handshakeStep, hc, Option.map_some, idle]
    | some t =>
      simp only [handshakeStep, hc]
      cases t.redeem presented s.now with
      | ok t' => rfl
      | error e => simp only [Option.map_some, idle, hc]
  | awaiting channel deadline answer =>
    cases answer with
    | none =>
      simp only [handshakeStep]
      split <;> rfl
    | some accept => cases accept <;> rfl
  | persist =>
    simp only [handshakeStep, persistState_eq]
    rfl
  | promote =>
    simp only [handshakeStep]
    cases s.remoteHandles.lookup h.remote <;> rfl
  | _ => rfl

theorem receivedStep_apart (q : List (Nat × ListenerEvent)) (r : Received) (ok : Bool) (target : DeviceId)
    (pc : ReceivedPc) : ({ s with queue := q } : Daemon).receivedStep r ok target pc =
      (s.receivedStep r ok target pc).map fun x => ({ x.1 with queue := q }, x.2) := by
  cases pc with
  | isPaired | shouldBroadcast | write =>
    simp only [receivedStep]
    split <;> rfl
  | handles => rfl
  | relay rest =>
    simp only [receivedStep]
    split
    · rfl
    · cases rest.lookup target <;> rfl

section
variable {h : Handling} {r : Received} {id : DeviceId} {ok : Bool} {target : DeviceId}

theorem orchestrate_handshake {pc : HandshakePc} (ho : s.orchestrator = .handshake h pc) :
    s.orchestrate ok target = s.handshakeStep h ok pc := by
  unfold orchestrate
  rw [ho]

theorem orchestrate_received {pc : ReceivedPc} (ho : s.orchestrator = .received r pc) :
    s.orchestrate ok target = s.receivedStep r ok target pc := by
  unfold orchestrate
  rw [ho]

theorem orchestrate_closed {pc : ClosedPc} (ho : s.orchestrator = .closed id pc) :
    s.orchestrate ok target = some (s.closedStep id pc, []) := by
  unfold orchestrate
  rw [ho]

theorem orchestrate_taken {i : Nat} {e : ListenerEvent} {rest : List (Nat × ListenerEvent)}
    (ho : s.orchestrator = .idle) (hq : s.queue = (i, e) :: rest) :
    s.orchestrate ok target = some (({ s with queue := rest } : Daemon).dispatch i e) := by
  unfold orchestrate
  rw [ho]
  simp only [hq]

end

/-- In the middle of an event the orchestrator does not see the queue. -/
theorem orchestrate_apart (ho : s.orchestrator ≠ .idle) (q : List (Nat × ListenerEvent)) (ok : Bool)
    (target : DeviceId) : ({ s with queue := q } : Daemon).orchestrate ok target =
      (s.orchestrate ok target).map fun r => ({ r.1 with queue := q }, r.2) := by
  obtain ⟨o, hs⟩ : ∃ o, s.orchestrator = o := ⟨_, rfl⟩
  cases o with
  | idle => exact absurd hs ho
  | handshake h pc =>
    rw [orchestrate_handshake hs, orchestrate_handshake (show ({ s with queue := q } : Daemon).orchestrator = _ from hs)]
    exact handshakeStep_apart q h ok pc
  | received r pc =>
    rw [orchestrate_received hs, orchestrate_received (show ({ s with queue := q } : Daemon).orchestrator = _ from hs)]
    exact receivedStep_apart q r ok target pc
  | closed id pc =>
    rw [orchestrate_closed hs, orchestrate_closed (show ({ s with queue := q } : Daemon).orchestrator = _ from hs)]
    cases pc <;> rfl

end

/-! ## A run with additional messages -/

/-- `marks` tells of the entries at the front of the queue which are additional,
`busy` whether the orchestrator has such a one in hand. -/
structure Marked where
  daemon : Daemon
  marks : List Bool
  busy : Bool

/-- A step of the daemon; or an additional clipboard message joins the queue. -/
inductive Input where
  | common (a : Act)
  | extra (i : Nat) (remote : SocketAddr) (clip : Clip)

structure Entry where
  act : Act
  os : List Obs
  lastHash : Option (Bytes 32)

namespace Marked

def new (s : Daemon) : Marked := ⟨s, [], false⟩

/-- The orchestrator's next step deals with an additional message. -/
def owns (m : Marked) : Bool := m.busy || m.daemon.orchestrator.isIdle && m.marks.head? = some true

def rest (m : Marked) : List Bool := if m.daemon.orchestrator.isIdle then m.marks.tail else m.marks

def step (cfg : Config) (m : Marked) : Input → Option (Marked × List Entry)
  | .extra i remote clip =>
    some (⟨{ m.daemon with queue := m.daemon.queue ++ [(i, .session remote (.clipboardReceived clip))] },
      m.marks ++ List.replicate (m.daemon.queue.length - m.marks.length) false ++ [true], m.busy⟩, [])
  | .common a =>
    match m.daemon.step cfg a with
    | none => none
    | some (s, os) =>
      match a.task with
      | .orchestrator =>
        if m.owns then some (⟨s, m.rest, !s.orchestrator.isIdle⟩, [])
        else some (⟨s, m.rest, false⟩, [⟨a, os, s.lastHash⟩])
      | _ => some (⟨s, m.marks, m.busy⟩, [⟨a, os, s.lastHash⟩])

/-- An additional message that is about to be looked at is not from a paired device. -/
def Unpinned (m : Marked) : Input → Prop
  | .common (.orchestrate ..) => m.busy = true → ∀ r, m.daemon.orchestrator = .received r .isPaired →
      m.daemon.trust.isPaired r.sender = false
  | _ => True

end Marked

def logged (cfg : Config) : System Daemon Act Entry :=
  { init := fun _ => True, step := fun s a => (step cfg s a).map fun r => (r.1, [⟨a, r.2, r.1.lastHash⟩]) }

def marked (cfg : Config) : System Marked Input Entry := { init := fun m => ∃ s, m = .new s, step := Marked.step cfg }

/-- The second queue is the first without its additional messages. -/
inductive Weave : List Bool → List (Nat × ListenerEvent) → List (Nat × ListenerEvent) → Prop
  | nil (q : List (Nat × ListenerEvent)) : Weave [] q q
  | common {ms : List Bool} {q q' : List (Nat × ListenerEvent)} (e : Nat × ListenerEvent) : Weave ms q q' →
      Weave (false :: ms) (e :: q) (e :: q')
  | extra {ms : List Bool} {q q' : List (Nat × ListenerEvent)} (i : Nat) (remote : SocketAddr) (clip : Clip) :
      Weave ms q q' → Weave (true :: ms) ((i, .session remote (.clipboardReceived clip)) :: q) q'

/-- The daemon with the additional messages, and the one without. -/
structure Hides (m : Marked) (s : Daemon) : Prop where
  same : m.daemon = { s with queue := m.daemon.queue, orchestrator := m.daemon.orchestrator }
  woven : Weave m.marks m.daemon.queue s.queue
  orchestrator : m.busy = false ∧ m.daemon.orchestrator = s.orchestrator ∨
    m.busy = true ∧ s.orchestrator = .idle ∧ ∃ r, m.daemon.orchestrator = .received r .isPaired

section
variable {cfg : Config} {m m' : Marked} {s : Daemon} {a : Input} {log : List Entry} {ms : List Bool}
  {q q' : List (Nat × ListenerEvent)}

theorem Weave.append (h : Weave ms q q') (es : List (Nat × ListenerEvent)) : Weave ms (q ++ es) (q' ++ es) := by
  induction h with
  | nil q => exact .nil _
  | common e _ ih => exact .common e ih
  | extra i remote clip _ ih => exact .extra i remote clip ih

theorem Weave.post (h : Weave ms q q') (i : Nat) (remote : SocketAddr) (clip : Clip) :
    Weave (ms ++ List.replicate (q.length - ms.length) false ++ [true])
      (q ++ [(i, .session remote (.clipboardReceived clip))]) q' := by
  induction h with
  | nil q =>
    induction q with
    | nil => exact .extra i remote clip (.nil [])
    | cons e q ih => exact .common e ih
  | common e _ ih =>
    rw [List.length_cons, List.length_cons, Nat.succ_sub_succ]
    exact .common e ih
  | extra j r c _ ih =>
    rw [List.length_cons, List.length_cons, Nat.succ_sub_succ]
    exact .extra j r c ih

theorem isIdle_iff {o : Orchestrator} : o.isIdle = true ↔ o = .idle := by
  cases o <;> simp [Orchestrator.isIdle]

theorem Hides.extra (hh : Hides m s) (i : Nat) (remote : SocketAddr) (clip : Clip)
    (h : m.step cfg (.extra i remote clip) = some (m', log)) : log = [] ∧ Hides m' s := by
  cases h
  refine ⟨rfl, ?_, hh.woven.post i remote clip, hh.orchestrator⟩
  rw [hh.same]

theorem answered_eq {o : Orchestrator} (a : Act) (ho : ∀ channel accept, answer channel accept o = o) :
    s.answered o a = o := by
  unfold answered
  split
  · split
    · exact ho _ _
    · rfl
  · rfl

/-- What a step of another task does to the queue and the orchestrator. -/
theorem step_posted {a : Act} {s' : Daemon} {os : List Obs} (ha : a.task ≠ .orchestrator)
    (h : Daemon.step cfg s a = some (s', os)) :
    s'.queue = s.queue ++ s.posted a ∧ s'.orchestrator = s.answered s.orchestrator a := by
  have hself : Daemon.step cfg s a = (Daemon.step cfg s a).map fun r =>
      ({ r.1 with queue := s.queue ++ s.posted a, orchestrator := s.answered s.orchestrator a }, r.2) :=
    step_apart ha s.queue s.orchestrator
  rw [h, Option.map_some] at hself
  have heq := (Prod.mk.inj (Option.some.inj hself)).1
  exact ⟨congrArg Daemon.queue heq, congrArg Daemon.orchestrator heq⟩

theorem step_common {a : Act} (ha : a.task ≠ .orchestrator) : m.step cfg (.common a) =
    (Daemon.step cfg m.daemon a).map fun r => (⟨r.1, m.marks, m.busy⟩, [⟨a, r.2, r.1.lastHash⟩]) := by
  simp only [Marked.step]
  cases Daemon.step cfg m.daemon a with
  | none => rfl
  | some r =>
    cases hat : a.task with
    | orchestrator => exact absurd hat ha
    | _ => rfl

theorem step_orchestrate {ok : Bool} {target : DeviceId} : m.step cfg (.common (.orchestrate ok target)) =
    (m.daemon.orchestrate ok target).map fun r =>
      if m.owns then (⟨r.1, m.rest, !r.1.orchestrator.isIdle⟩, [])
      else (⟨r.1, m.rest, false⟩, [⟨.orchestrate ok target, r.2, r.1.lastHash⟩]) := by
  simp only [Marked.step, Daemon.step, Act.task]
  cases m.daemon.orchestrate ok target with
  | none => rfl
  | some r =>
    simp only [Option.map_some]
    split <;> rfl

theorem Hides.apart {a : Act} (hh : Hides m s) (ha : a.task ≠ .orchestrator)
    (h : m.step cfg (.common a) = some (m', log)) :
    ∃ s', (logged cfg).step s a = some (s', log) ∧ Hides m' s' := by
  rw [step_common ha, hh.same, step_apart ha] at h
  cases hs : Daemon.step cfg s a with
  | none =>
    rw [hs] at h
    cases h
  | some r =>
    obtain ⟨s', os⟩ := r
    obtain ⟨hqueue, hor⟩ := step_posted ha hs
    rw [hs] at h
    cases h
    refine ⟨s', ?_, rfl, ?_, ?_⟩
    · simp only [logged, hs, Option.map_some]
    · rw [hqueue]
      exact hh.woven.append _
    · rw [hor]
      rcases hh.orchestrator with ⟨hb, ho⟩ | ⟨hb, ho, r, hr⟩
      · exact Or.inl ⟨hb, by rw [ho]⟩
      · refine Or.inr ⟨hb, ?_, r, ?_⟩
        · rw [ho]
          exact answered_eq a fun _ _ => rfl
        · rw [hr]
          exact answered_eq a fun _ _ => rfl

theorem Hides.over (hh : Hides m s) (q : List (Nat × ListenerEvent)) (o : Orchestrator) :
    { m.daemon with queue := q, orchestrator := o } = ({ s with queue := q, orchestrator := o } : Daemon) :=
  congrArg (fun d : Daemon => { d with queue := q, orchestrator := o }) hh.same

theorem Weave.of_extra (h : Weave (true :: ms) q q') : ∃ i remote clip rest,
    q = (i, .session remote (.clipboardReceived clip)) :: rest ∧ Weave ms rest q' := by
  cases h with
  | extra i remote clip h => exact ⟨i, remote, clip, _, rfl, h⟩

theorem Weave.of_common {e : Nat × ListenerEvent} {rest : List (Nat × ListenerEvent)} (h : Weave ms (e :: rest) q')
    (hms : ms.head? ≠ some true) : ∃ rest', q' = e :: rest' ∧ Weave ms.tail rest rest' := by
  cases h with
  | nil => exact ⟨rest, rfl, .nil rest⟩
  | common _ h => exact ⟨_, rfl, h⟩
  | extra => exact absurd rfl hms

/-- The orchestrator looks at an additional message and drops it. -/
theorem Hides.owned {ok : Bool} {target : DeviceId} (hh : Hides m s) (ho : m.owns = true)
    (hc : m.Unpinned (.common (.orchestrate ok target)))
    (h : m.step cfg (.common (.orchestrate ok target)) = some (m', log)) : log = [] ∧ Hides m' s := by
  rw [step_orchestrate] at h
  obtain ⟨r, hr, he⟩ := Option.map_eq_some_iff.mp h
  rw [if_pos ho] at he
  cases he
  refine ⟨rfl, ?_⟩
  rcases hh.orchestrator with ⟨hb, hor⟩ | ⟨hb, hor, r', hr'⟩
  · -- the message leaves the queue
    have hown : m.daemon.orchestrator.isIdle = true ∧ m.marks.head? = some true := by
      simpa [Marked.owns, hb] using ho
    have hidle := isIdle_iff.mp hown.1
    obtain ⟨ms, hms⟩ := List.head?_eq_some_iff.mp hown.2
    have hw := hh.woven
    rw [hms] at hw
    obtain ⟨i, remote, clip, rest, hq, hw⟩ := hw.of_extra
    rw [orchestrate_taken hidle hq] at hr
    have hrest : m.rest = ms := by
      unfold Marked.rest
      rw [if_pos hown.1, hms]
      rfl
    rw [hrest]
    simp only [dispatch] at hr
    split at hr
    · cases hr
      refine ⟨?_, hw, Or.inr ⟨rfl, hor ▸ hidle, _, rfl⟩⟩
      exact hh.over rest _
    · cases hr
      refine ⟨?_, hw, Or.inl ⟨?_, hor⟩⟩
      · exact hh.over rest _
      · simp [hown.1]
  · -- the message is looked at
    rw [orchestrate_received hr'] at hr
    have hunpaired := hc hb r' hr'
    simp only [receivedStep, hunpaired, Bool.false_eq_true, false_and, if_false] at hr
    cases hr
    have hrest : m.rest = m.marks := by
      unfold Marked.rest
      rw [hr']
      rfl
    rw [hrest]
    refine ⟨?_, hh.woven, Or.inl ⟨rfl, hor.symm⟩⟩
    exact hh.over _ .idle

theorem Hides.shared {ok : Bool} {target : DeviceId} (hh : Hides m s) (ho : m.owns = false)
    (h : m.step cfg (.common (.orchestrate ok target)) = some (m', log)) :
    ∃ s', (logged cfg).step s (.orchestrate ok target) = some (s', log) ∧ Hides m' s' := by
  rw [step_orchestrate] at h
  obtain ⟨r, hr, he⟩ := Option.map_eq_some_iff.mp h
  rw [if_neg (by simp [ho])] at he
  cases he
  have hb : m.busy = false := (Bool.or_eq_false_iff.mp ho).1
  have hor : m.daemon.orchestrator = s.orchestrator := by
    rcases hh.orchestrator with ⟨-, hor⟩ | ⟨hb', -⟩
    · exact hor
    · rw [hb] at hb'
      cases hb'
  have hsame : m.daemon = { s with queue := m.daemon.queue } := by
    refine hh.same.trans ?_
    rw [hor]
  by_cases hidle : s.orchestrator = .idle
  · cases hq : m.daemon.queue with
    | nil =>
      unfold orchestrate at hr
      rw [hor, hidle] at hr
      simp only [hq] at hr
      cases hr
    | cons e rest =>
      have hms : m.marks.head? ≠ some true := by
        have := (Bool.or_eq_false_iff.mp ho).2
        rw [hor, hidle] at this
        simpa [Orchestrator.isIdle] using this
      have hw := hh.woven
      rw [hq] at hw
      obtain ⟨rest', hq', hw⟩ := hw.of_common hms
      have hrest : m.rest = m.marks.tail := by
        unfold Marked.rest
        rw [hor, hidle]
        rfl
      have htaken : s.orchestrate ok target = some (({ s with queue := rest' } : Daemon).dispatch e.1 e.2) :=
        orchestrate_taken hidle hq'
      have hqueue : (({ s with queue := rest' } : Daemon).dispatch e.1 e.2).1.queue = rest' := dispatch_queue ..
      have hm : m.daemon.orchestrate ok target =
          some ({ (({ s with queue := rest' } : Daemon).dispatch e.1 e.2).1 with queue := rest },
            (({ s with queue := rest' } : Daemon).dispatch e.1 e.2).2) := by
        rw [orchestrate_taken (hor.trans hidle) hq]
        have hd : ({ m.daemon with queue := rest } : Daemon) = { ({ s with queue := rest' } : Daemon) with queue := rest } :=
          congrArg (fun d : Daemon => { d with queue := rest }) hsame
        rw [hd]
        exact congrArg some (dispatch_apart rest ..)
      rw [hm] at hr
      cases hr
      refine ⟨_, ?_, rfl, ?_, Or.inl ⟨rfl, rfl⟩⟩
      · simp only [logged, Daemon.step, htaken, Option.map_some]
      · rw [hrest, hqueue]
        exact hw
  · have hrest : m.rest = m.marks := by
      unfold Marked.rest
      rw [if_neg]
      rw [isIdle_iff, hor]
      exact hidle
    rw [hsame, orchestrate_apart hidle] at hr
    obtain ⟨x, hx, hxr⟩ := Option.map_eq_some_iff.mp hr
    cases hxr
    have hqueue : x.1.queue = s.queue := by
      have hself : s.orchestrate ok target = (s.orchestrate ok target).map fun r => ({ r.1 with queue := s.queue }, r.2) :=
        orchestrate_apart hidle s.queue ok target
      rw [hx, Option.map_some] at hself
      exact congrArg (fun x => Daemon.queue x.1) (Option.some.inj hself)
    refine ⟨x.1, ?_, rfl, ?_, Or.inl ⟨rfl, rfl⟩⟩
    · simp only [logged, Daemon.step, hx, Option.map_some]
    · rw [hrest, hqueue]
      exact hh.woven

/-! ## Two runs -/

theorem Hides.step (hh : Hides m s) (hc : m.Unpinned a) (h : m.step cfg a = some (m', log)) :
    log = [] ∧ Hides m' s ∨ ∃ b s', (logged cfg).step s b = some (s', log) ∧ Hides m' s' := by
  cases a with
  | extra i remote clip => exact Or.inl (hh.extra i remote clip h)
  | common a =>
    by_cases ha : a.task = .orchestrator
    · cases a with
      | orchestrate ok target =>
        cases ho : m.owns with
        | true => exact Or.inl (hh.owned ho hc h)
        | false => exact Or.inr ⟨_, hh.shared ho h⟩
      | _ => cases ha
    · exact Or.inr ⟨_, hh.apart ha h⟩

theorem hides_new (s : Daemon) : Hides (.new s) s := ⟨rfl, .nil _, Or.inl ⟨rfl, rfl⟩⟩

def writes (log : List Entry) : List Clip :=
  (log.flatMap Entry.os).filterMap fun o =>
    match o with
    | .applied _ c => some c
    | _ => none

def clipsTo (id : DeviceId) (log : List Entry) : List (Nat × Clip) :=
  (log.flatMap Entry.os).filterMap fun o =>
    match o with
    | .handed _ d i c => if d = id then some (i, c) else none
    | _ => none

/-- Clipboard messages from devices that are not paired change nothing: with the
same steps apart from them, two runs from one state write, send and remember the same. -/
theorem unpaired_invisible {s s' : Daemon} {m : Marked} {log log' : List Entry}
    (h : Path (logged cfg) always [] s log s')
    (h' : Path (marked cfg) (fun _ m a => m.Unpinned a) [] (.new s) log' m)
    (hin : log.map Entry.act = log'.map Entry.act) :
    writes log = writes log' ∧ log.map Entry.lastHash = log'.map Entry.lastHash ∧
      ∀ id, clipsTo id log = clipsTo id log' := by
  have hfollow : ∃ t, Path (logged cfg) always [] s log' t ∧ Hides m t :=
    h'.simulates (R := Hides) (fun _ _ _ _ _ _ hh hc hs => hh.step hc hs) (hides_new s)
  obtain ⟨t, ht, -⟩ := hfollow
  have hact : ∀ (s : Daemon) (a : Act) (s' : Daemon) (os : List Entry), (logged cfg).step s a = some (s', os) →
      ∃ o, os = [o] ∧ Entry.act o = a := by
    intro s a s' os hs
    obtain ⟨r, -, he⟩ := Option.map_eq_some_iff.mp hs
    cases he
    exact ⟨_, rfl, rfl⟩
  obtain ⟨rfl, -⟩ := h.determined hact ht hin
  exact ⟨rfl, rfl, fun _ => rfl⟩

end

/-! ## A device waiting in the window -/

deriving instance DecidableEq for ConnectionAct

deriving instance DecidableEq for Act

/-- A check that implies `Unpinned`. -/
def Marked.unpinned (m : Marked) : Input → Bool
  | .common (.orchestrate ..) =>
    match m.daemon.orchestrator with
    | .received r .isPaired => !m.busy || !m.daemon.trust.isPaired r.sender
    | _ => true
  | _ => true

theorem unpinned_sound {m : Marked} {a : Input} (h : m.unpinned a = true) : m.Unpinned a := by
  unfold Marked.Unpinned
  split
  · intro hb r hr
    simpa [Marked.unpinned, hr, hb] using h
  · trivial

namespace Sample

/-- The phone is paired; the tablet got in through a later window and is not. -/
def waiting : List Act :=
  pair 0 (addr 2) phoneKey ++ mint ++ connect 1 (addr 3) tabletKey ++ greet 1 tablet none ++ turns 2 ++ [.probe]

def copies : List Act := .copy ⟨mimeTextPlain, [66]⟩ :: List.replicate 6 (.watch true phone)

def shares : List Act := share 0 clipA ++ turns 6

def dropped (c : Clip) : List Input := .extra 1 (addr 3) c :: (turns 2).map .common

def quiet : List Act := waiting ++ copies ++ shares

def noisy : List Input :=
  waiting.map .common ++ dropped clipB ++ copies.map .common ++ dropped clipA ++ shares.map .common ++ dropped clipB

end Sample

open Sample in
theorem quiet_enabled : (exec (logged cfg) anyway [] (initial none empty) quiet).isSome = true := by
  decide +kernel

open Sample in
theorem noisy_enabled :
    (exec (marked cfg) (fun _ => Marked.unpinned) [] (.new (initial none empty)) noisy).isSome = true := by
  decide +kernel

open Sample in
theorem unpaired_invisible_noisy :
    let r := (exec (logged cfg) anyway [] (initial none empty) quiet).get quiet_enabled
    let r' := (exec (marked cfg) (fun _ => Marked.unpinned) [] (.new (initial none empty)) noisy).get noisy_enabled
    writes r.1 = [clipA] ∧ writes r.1 = writes r'.1 ∧ r.1.map Entry.lastHash = r'.1.map Entry.lastHash ∧
      ∀ id, clipsTo id r.1 = clipsTo id r'.1 := by
  have h := Path.exec (fun _ _ _ _ => trivial) .refl (Option.eq_some_of_isSome quiet_enabled)
  have h' := Path.exec (fun _ _ _ hc => unpinned_sound hc) .refl (Option.eq_some_of_isSome noisy_enabled)
  exact ⟨by decide +kernel, unpaired_invisible h h' (by decide +kernel)⟩

end Daemon

end PenguinSync
