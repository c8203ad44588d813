import PenguinSync.Net.Framing
import PenguinSync.Protocol.Connection

/-!
# Sessions: what the driving task does with the machine's actions

The texts that `quinn` gives for a broken connection are the only ones kept as
texts; a framing error stands for its own text.
-/

namespace PenguinSync

inductive CloseReason where
  | versionMismatch (ours theirs : UInt16)
  | keepaliveTimedOut
  | connectionLost (e : String)
  | framingError (e : FramingError)
  deriving DecidableEq

inductive SessionEvent where
  | peerHandshake (deviceId : DeviceId) (name : String) (capabilities : List Capability)
      (pairingToken : Option TokenBytes)
  | ponged (rtt : Time)
  | clipboardReceived (c : Clip)
  | closed (reason : CloseReason)
  deriving DecidableEq

/-- What leaves the driving task: messages on the stream and events for its owner. -/
inductive Output where
  | sent (m : Message)
  | unsent (m : Message)
  | event (e : SessionEvent)
  deriving DecidableEq

def Output.event? : Output → Option SessionEvent
  | .event e => some e
  | _ => none

/-- `false` if the session ended. `write` says whether writes to the stream succeed. -/
def runActions (write : Bool) : List Action → List Output × Bool
  | [] => ([], true)
  | .send m :: rest =>
    if write then
      let r := runActions write rest
      (.sent m :: r.1, r.2)
    else ([.unsent m, .event (.closed (.framingError .write))], false)
  | .peerHandshake deviceId name capabilities pairingToken :: rest =>
    let r := runActions write rest
    (.event (.peerHandshake deviceId name capabilities pairingToken) :: r.1, r.2)
  | .ponged rtt :: rest =>
    let r := runActions write rest
    (.event (.ponged rtt) :: r.1, r.2)
  | .peerClipboard c :: rest =>
    let r := runActions write rest
    (.event (.clipboardReceived c) :: r.1, r.2)
  | .keepaliveTimedOut :: _ => ([.event (.closed .keepaliveTimedOut)], false)
  | .reject (.versionMismatch ours theirs) :: _ => ([.event (.closed (.versionMismatch ours theirs))], false)

/-- The machine meets the stream's bytes only through `run_actions`, which
reports a framing error only where a write fails. -/
theorem runActions_framing (write : Bool) (e : FramingError) :
    ∀ as : List Action, .event (.closed (.framingError e)) ∈ (runActions write as).1 ↔
      e = .write ∧ ∃ m, .unsent m ∈ (runActions write as).1
  | [] => by simp [runActions]
  | .send m :: rest => by
    cases write
    · simp [runActions]
    · simpa [runActions] using runActions_framing true e rest
  | .peerHandshake .. :: rest => by simpa [runActions] using runActions_framing write e rest
  | .ponged _ :: rest => by simpa [runActions] using runActions_framing write e rest
  | .peerClipboard _ :: rest => by simpa [runActions] using runActions_framing write e rest
  | .keepaliveTimedOut :: _ => by simp [runActions]
  | .reject (.versionMismatch _ _) :: _ => by simp [runActions]

/-! ## The driving task, message by message -/

inductive Stage where
  | start
  | loop
  | done
  deriving DecidableEq

structure Session where
  stage : Stage
  machine : ConnectionMachine
  commands : List Clip

namespace Session

def new (m : ConnectionMachine) : Session := ⟨.start, m, []⟩

def give (s : Session) (ev : Event) (nonce : UInt64) (clock : Time) (write : Bool) : Session × List Output :=
  let r := s.machine.handle ev nonce clock
  let o := runActions write r.2
  ({ s with machine := r.1, stage := if o.2 then .loop else .done }, o.1)

def close (s : Session) (reason : CloseReason) : Session × List Output :=
  ({ s with stage := .done }, [.event (.closed reason)])

/-- A command for a task that has exited is lost. -/
def sendClipboard (s : Session) (c : Clip) : Session :=
  if s.stage = .done then s else { s with commands := s.commands ++ [c] }

@[simp] theorem sendClipboard_stage (s : Session) (c : Clip) : (s.sendClipboard c).stage = s.stage := by
  unfold sendClipboard
  split <;> rfl

@[simp] theorem sendClipboard_machine (s : Session) (c : Clip) : (s.sendClipboard c).machine = s.machine := by
  unfold sendClipboard
  split <;> rfl

/-- `lost` stands for both ways to learn that the connection broke. -/
inductive Act where
  | start (write : Bool)
  | receive (body : List UInt8) (nonce : UInt64) (clock : Time) (write : Bool)
  | oversized (len : Nat)
  | tick (now : Time) (nonce : UInt64) (write : Bool)
  | command (write : Bool)
  | lost (e : String)

def step (s : Session) : Act → Option (Session × List Output)
  | .start write => if s.stage = .start then some (s.give .started 0 0 write) else none
  | .receive body nonce clock write =>
    if s.stage = .loop ∧ body.length ≤ maxFrameLen then
      match decode body with
      | some m => some (s.give (.received m) nonce clock write)
      | none => some (s.close (.framingError .decode))
    else none
  | .oversized len =>
    if s.stage = .loop ∧ maxFrameLen < len then some (s.close (.framingError (.frameTooLarge len))) else none
  | .tick now nonce write => if s.stage = .loop then some (s.give (.tick now) nonce 0 write) else none
  | .command write =>
    if s.stage = .loop then
      match s.commands with
      | [] => none
      | c :: cs => some (({ s with commands := cs } : Session).give (.sendClipboard c) 0 0 write)
    else none
  | .lost e => if s.stage = .loop then some (s.close (.connectionLost e)) else none

end Session

/-! ## The end of the event stream -/

/-- `Closed` is the last of the events, if it is among them, and then `P`. -/
def ClosedLast (evs : List SessionEvent) (P : Prop) : Prop :=
  ∀ pre r post, evs = pre ++ .closed r :: post → post = [] ∧ P

section
variable {evs more : List SessionEvent} {e : SessionEvent} {P Q : Prop}

theorem closedLast_nil : ClosedLast [] P := by
  intro pre r post h
  simp at h

theorem closedLast_singleton (hp : P) : ClosedLast [e] P := by
  intro pre r post h
  cases pre with
  | nil =>
    simp only [List.nil_append, List.cons.injEq] at h
    exact ⟨h.2.symm, hp⟩
  | cons x pre => simp at h

theorem ClosedLast.mono (h : ClosedLast evs P) (hpq : P → Q) : ClosedLast evs Q :=
  fun pre r post he => ⟨(h pre r post he).1, hpq (h pre r post he).2⟩

theorem ClosedLast.not_mem (h : ClosedLast evs P) (hp : ¬ P) (r : CloseReason) : .closed r ∉ evs := by
  intro hm
  obtain ⟨pre, post, he⟩ := List.append_of_mem hm
  exact hp (h pre r post he).2

theorem ClosedLast.append (h : ∀ r, .closed r ∉ evs) (hm : ClosedLast more P) : ClosedLast (evs ++ more) P := by
  intro pre r post he
  rcases List.append_eq_append_iff.mp he with ⟨mid, rfl, hmid⟩ | ⟨mid, rfl, hmid⟩
  · exact hm mid r post hmid
  · cases mid with
    | nil => exact hm [] r post (by simpa using hmid.symm)
    | cons x mid =>
      simp only [List.cons_append, List.cons.injEq] at hmid
      exact absurd (by simp [hmid.1]) (h r)

theorem ClosedLast.cons (h : ∀ r, e ≠ .closed r) (hm : ClosedLast more P) : ClosedLast (e :: more) P := by
  have hn : ∀ r, .closed r ∉ [e] := fun r hr => h r (List.mem_singleton.mp hr).symm
  exact ClosedLast.append hn hm

theorem ClosedLast.tail (h : ClosedLast (e :: evs) P) : ClosedLast evs P :=
  fun pre r post he => h (e :: pre) r post (by rw [he]; rfl)

theorem ClosedLast.head {r : CloseReason} (h : ClosedLast (.closed r :: evs) P) : evs = [] ∧ P := h [] r evs rfl

end

theorem runActions_closedLast (write : Bool) : ∀ as : List Action,
    ClosedLast ((runActions write as).1.filterMap Output.event?) ((runActions write as).2 = false)
  | [] => closedLast_nil
  | .send m :: rest => by
    cases write
    · exact closedLast_singleton rfl
    · exact runActions_closedLast true rest
  | .peerHandshake .. :: rest => .cons (by simp) (runActions_closedLast write rest)
  | .ponged _ :: rest => .cons (by simp) (runActions_closedLast write rest)
  | .peerClipboard _ :: rest => .cons (by simp) (runActions_closedLast write rest)
  | .keepaliveTimedOut :: _ => closedLast_singleton rfl
  | .reject (.versionMismatch _ _) :: _ => closedLast_singleton rfl

theorem runActions_closes (write : Bool) : ∀ as : List Action, (runActions write as).2 = false →
    ∃ r, .closed r ∈ (runActions write as).1.filterMap Output.event?
  | [], h => by cases h
  | .send m :: rest, h => by
    cases write
    · exact ⟨.framingError .write, List.mem_singleton_self _⟩
    · exact runActions_closes true rest h
  | .peerHandshake .. :: rest, h => (runActions_closes write rest h).imp fun _ => List.mem_cons_of_mem _
  | .ponged _ :: rest, h => (runActions_closes write rest h).imp fun _ => List.mem_cons_of_mem _
  | .peerClipboard _ :: rest, h => (runActions_closes write rest h).imp fun _ => List.mem_cons_of_mem _
  | .keepaliveTimedOut :: _, _ => ⟨.keepaliveTimedOut, List.mem_singleton_self _⟩
  | .reject (.versionMismatch ours theirs) :: _, _ => ⟨.versionMismatch ours theirs, List.mem_singleton_self _⟩

namespace Session

variable {s s' : Session} {outs : List Output}

theorem give_closes {ev : Event} {nonce : UInt64} {clock : Time} {write : Bool}
    (h : (s.give ev nonce clock write).1.stage = .done) :
    ∃ r, .closed r ∈ (s.give ev nonce clock write).2.filterMap Output.event? := by
  apply runActions_closes
  by_contra hne
  rw [Bool.not_eq_false] at hne
  simp [give, hne] at h

theorem give_closedLast (ev : Event) (nonce : UInt64) (clock : Time) (write : Bool) :
    ClosedLast ((s.give ev nonce clock write).2.filterMap Output.event?)
      ((s.give ev nonce clock write).1.stage = .done) := by
  refine (runActions_closedLast write (s.machine.handle ev nonce clock).2).mono fun h => ?_
  simp only [give, h]
  rfl

/-- What a step can be: the machine handles an event, or a command taken off the
queue, or the task gives up by itself. -/
inductive Move (s s' : Session) (outs : List Output) : Prop
  | gives (ev : Event) (nonce : UInt64) (clock : Time) (write : Bool) : s.stage ≠ .done →
      s.give ev nonce clock write = (s', outs) → Move s s' outs
  | commands (c : Clip) (cs : List Clip) (write : Bool) : s.stage ≠ .done → s.commands = c :: cs →
      ({ s with commands := cs } : Session).give (.sendClipboard c) 0 0 write = (s', outs) → Move s s' outs
  | closes (r : CloseReason) : s.stage ≠ .done → s.close r = (s', outs) → Move s s' outs

theorem step_move {a : Act} (h : s.step a = some (s', outs)) : Move s s' outs := by
  cases a with
  | start write =>
    simp only [step, Option.ite_none_right_eq_some, Option.some.injEq] at h
    obtain ⟨hs, h⟩ := h
    exact .gives .started 0 0 write (by simp [hs]) h
  | receive body nonce clock write =>
    simp only [step, Option.ite_none_right_eq_some] at h
    obtain ⟨⟨hs, -⟩, h⟩ := h
    have hd : s.stage ≠ .done := by simp [hs]
    split at h
    · rename_i m _
      exact .gives (.received m) nonce clock write hd (Option.some.inj h)
    · exact .closes (.framingError .decode) hd (Option.some.inj h)
  | oversized len =>
    simp only [step, Option.ite_none_right_eq_some, Option.some.injEq] at h
    obtain ⟨⟨hs, -⟩, h⟩ := h
    exact .closes (.framingError (.frameTooLarge len)) (by simp [hs]) h
  | tick now nonce write =>
    simp only [step, Option.ite_none_right_eq_some, Option.some.injEq] at h
    obtain ⟨hs, h⟩ := h
    exact .gives (.tick now) nonce 0 write (by simp [hs]) h
  | command write =>
    simp only [step, Option.ite_none_right_eq_some] at h
    obtain ⟨hs, h⟩ := h
    split at h
    · cases h
    · rename_i c cs hc
      exact .commands c cs write (by simp [hs]) hc (Option.some.inj h)
  | lost e =>
    simp only [step, Option.ite_none_right_eq_some, Option.some.injEq] at h
    obtain ⟨hs, h⟩ := h
    exact .closes (.connectionLost e) (by simp [hs]) h

/-- A task that has exited takes no step; one that sends `Closed` sends nothing after it and exits. -/
theorem step_closedLast {a : Act} (h : s.step a = some (s', outs)) :
    s.stage ≠ .done ∧ ClosedLast (outs.filterMap Output.event?) (s'.stage = .done) := by
  cases step_move h with
  | gives ev nonce clock write hs hg =>
    cases hg
    exact ⟨hs, give_closedLast _ _ _ _⟩
  | commands c cs write hs _ hg =>
    cases hg
    exact ⟨hs, give_closedLast _ _ _ _⟩
  | closes r hs hc =>
    cases hc
    exact ⟨hs, closedLast_singleton rfl⟩

/-- What a step does to the queue: a clip taken off it while the machine is ready is written, or the task exits. -/
theorem step_queue {a : Act} (h : s.step a = some (s', outs)) (hr : s.machine.phase = .ready) :
    s'.machine.phase = .ready ∧ (s'.commands = s.commands ∨
      ∃ c, s.commands = c :: s'.commands ∧ (s'.stage ≠ .done → .sent (.clipboard c) ∈ outs)) := by
  cases step_move h with
  | gives ev nonce clock write _ hg =>
    cases hg
    exact ⟨ConnectionMachine.handle_ready hr, Or.inl rfl⟩
  | commands c cs write _ hc hg =>
    cases hg
    refine ⟨ConnectionMachine.handle_ready hr, Or.inr ⟨c, hc, ?_⟩⟩
    intro hd
    cases write
    · simp [ConnectionMachine.handle, hr, runActions] at hd
    · simp [ConnectionMachine.handle, hr, runActions]
  | closes r _ hc =>
    cases hc
    exact ⟨hr, Or.inl rfl⟩

theorem step_start (hs : s.stage = .start) : s.step (.start true) =
    some ({ s with stage := .loop }, [.sent (.handshake s.machine.ownHandshake)]) := by
  simp [step, give, hs, ConnectionMachine.handle, runActions]

/-- The task takes the next clip off its queue and, with the machine ready, writes it. -/
theorem step_command {c : Clip} {cs : List Clip} (hl : s.stage = .loop) (hr : s.machine.phase = .ready)
    (hc : s.commands = c :: cs) :
    s.step (.command true) = some ({ s with commands := cs }, [.sent (.clipboard c)]) := by
  simp [step, give, hl, hc, ConnectionMachine.handle, hr, runActions]

theorem step_closes {a : Act} (h : s.step a = some (s', outs)) (hd : s'.stage = .done) :
    ∃ r, .closed r ∈ outs.filterMap Output.event? := by
  cases step_move h with
  | gives ev nonce clock write _ hg =>
    cases hg
    exact give_closes hd
  | commands c cs write _ _ hg =>
    cases hg
    exact give_closes hd
  | closes r _ hc =>
    cases hc
    exact ⟨r, List.mem_singleton_self _⟩

end Session

end PenguinSync
