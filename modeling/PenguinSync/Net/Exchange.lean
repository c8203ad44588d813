import PenguinSync.Net.Events
import PenguinSync.Net.RoundTrip
import PenguinSync.Protocol.Link

/-!
# Two sessions over one connection

Each side is a driving task with its own select loop; what it writes goes down
the other's control stream byte by byte. Where no branch wins over a read that
holds bytes, the two behave as two machines over a link that carries whole
messages.
-/

namespace PenguinSync

open Lts

/-! ## What one poll of the loop does -/

def Output.sent? : Output → Option Message
  | .sent m => some m
  | _ => none

def Output.unsent? : Output → Option Message
  | .unsent m => some m
  | _ => none

def Action.report? : Action → Option SessionEvent
  | .peerHandshake deviceId name capabilities pairingToken =>
    some (.peerHandshake deviceId name capabilities pairingToken)
  | .ponged rtt => some (.ponged rtt)
  | .peerClipboard c => some (.clipboardReceived c)
  | _ => none

def SessionEvent.isOpen : SessionEvent → Bool
  | .closed _ => false
  | _ => true

def SessionEvent.clip? : SessionEvent → Option Clip
  | .clipboardReceived c => some c
  | _ => none

def reports (os : List Output) : List SessionEvent := (os.filterMap Output.event?).filter SessionEvent.isOpen

theorem report?_aboutPeer (as : List Action) :
    (as.filter Action.aboutPeer).filterMap Action.report? = as.filterMap Action.report? := by
  rw [List.filterMap_filter]
  refine List.filterMap_congr fun a _ => ?_
  cases a <;> rfl

theorem report?_clips (as : List Action) :
    (as.filterMap Action.report?).filterMap SessionEvent.clip? = as.filterMap Action.peerClip? := by
  rw [List.filterMap_filterMap]
  refine List.filterMap_congr fun a _ => ?_
  cases a <;> rfl

theorem reports_clips (os : List Output) :
    (reports os).filterMap SessionEvent.clip? = (os.filterMap Output.event?).filterMap SessionEvent.clip? := by
  unfold reports
  rw [List.filterMap_filter]
  refine List.filterMap_congr fun e _ => ?_
  cases e <;> rfl

theorem reports_append (os os' : List Output) : reports (os ++ os') = reports os ++ reports os' := by
  unfold reports
  rw [List.filterMap_append, List.filter_append]

section
variable {m m' : ConnectionMachine} {ev : Event} {nonce : UInt64} {clock : Time} {acts : List Action}

theorem Call.single (hc : Call m nonce clock ev m' acts) : acts = [] ∨ ∃ a, acts = [a] := by
  cases hc <;> simp

/-- An action that was run: it was written, or it could not be and the task is
done, and it was reported. -/
structure RanAs (acts : List Action) (write : Bool) (r : List Output × Bool) : Prop where
  whole : r.1.filterMap Output.sent? ++ r.1.filterMap Output.unsent? = acts.filterMap Action.message?
  ended : r.1.filterMap Output.unsent? ≠ [] → r.2 = false ∧ r.1.filterMap Output.sent? = [] ∧
    ∃ msg, r.1.filterMap Output.unsent? = [msg]
  reported : reports r.1 = acts.filterMap Action.report?

theorem Call.runActions (hc : Call m nonce clock ev m' acts) (write : Bool) :
    RanAs acts write (runActions write acts) := by
  rcases hc.single with rfl | ⟨a, rfl⟩
  · exact ⟨rfl, fun h => absurd rfl h, rfl⟩
  · cases a with
    | send msg =>
      cases write
      · exact ⟨rfl, fun _ => ⟨rfl, rfl, msg, rfl⟩, rfl⟩
      · exact ⟨rfl, fun h => absurd rfl h, rfl⟩
    | reject r =>
      cases r
      exact ⟨rfl, fun h => absurd rfl h, rfl⟩
    | _ => exact ⟨rfl, fun h => absurd rfl h, rfl⟩

theorem Call.clips (hc : Call m nonce clock ev m' acts) (hev : ∀ c, ev ≠ .sendClipboard c) (write : Bool) :
    ((PenguinSync.runActions write acts).1.filterMap Output.sent?).filterMap Message.clip? = [] := by
  cases hc with
  | shared c _ => exact absurd rfl (hev c)
  | started | answered _ _ | pinged _ _ _ _ _ _ => cases write <;> rfl
  | _ => rfl

end

namespace Drive

def pipe (d : Drive) : List UInt8 := d.stream ++ d.arriving

/-- No branch but the read is taken while the read holds bytes. -/
def Careful (d : Drive) : Act → Prop
  | .tick .. | .command _ | .commandsClosed => d.taken = 0
  | _ => True

instance (d : Drive) : ∀ a, Decidable (d.Careful a)
  | .tick .. | .command _ | .commandsClosed => inferInstanceAs (Decidable (d.taken = 0))
  | .start _ | .arrive _ | .queue _ | .read .. | .lost _ => .isTrue trivial

inductive Poll (d d' : Drive) (os : List Obs) : Prop
  /-- The loop goes on waiting. -/
  | waits : outputs os = [] → handed os = [] → d'.session.machine = d.session.machine →
      d'.session.stage = d.session.stage → d'.pipe = d.pipe → Poll d d' os
  /-- The machine handles an event; a message has come down the stream. -/
  | calls (ev : Event) (nonce : UInt64) (clock : Time) (write : Bool) : d.session.stage ≠ .done →
      (ev = .started ↔ d.session.stage = .start) → (∀ c, ev = .sendClipboard c → c ∈ d.session.commands) →
      d'.session.machine = (d.session.machine.handle ev nonce clock).1 →
      d'.session.stage = (if (runActions write (d.session.machine.handle ev nonce clock).2).2 then .loop else .done) →
      outputs os = (runActions write (d.session.machine.handle ev nonce clock).2).1 →
      handed os = ev.message?.toList → (ev.message? = none → d'.pipe = d.pipe) →
      (∀ m, ev = .received m → ∃ n, readMessage d.stream = (n, some (.ok m)) ∧
        d'.pipe = d.stream.drop n ++ d.arriving) → Poll d d' os
  | closes (e : String) : d.session.stage = .loop → d'.session.machine = d.session.machine →
      d'.session.stage = .done → outputs os = [.event (.closed (.connectionLost e))] → handed os = [] →
      d'.pipe = d.pipe → Poll d d' os
  | misreads (e : FramingError) (n : Nat) : readMessage d.stream = (n, some (.error e)) → Poll d d' os

section
variable {d d' : Drive} {a : Act} {os : List Obs}

theorem outputs_append (tr os : List Obs) : outputs (tr ++ os) = outputs tr ++ outputs os := List.filterMap_append

theorem dropRead_pipe (h : d.taken = 0) : d.dropRead.pipe = d.pipe := by
  simp [dropRead, pipe, h]

theorem step_poll (h : step d a = some (d', os)) (hc : d.Careful a) : Poll d d' os := by
  cases a with
  | start write =>
    simp only [step, Option.ite_none_right_eq_some, Option.some.injEq] at h
    obtain ⟨hs, rfl, rfl⟩ := h
    refine .calls .started 0 0 write (by simp [hs]) (by simp [hs]) (by simp) rfl rfl ?_ ?_ (fun _ => rfl) (by simp)
    · exact outputs_out _
    · exact handed_outputs _
  | arrive n =>
    cases h
    refine .waits rfl rfl rfl rfl ?_
    simp [pipe]
  | queue c =>
    simp only [step, Option.ite_none_right_eq_some, Option.some.injEq] at h
    obtain ⟨-, rfl, rfl⟩ := h
    exact .waits rfl rfl (by simp) (by simp) rfl
  | read nonce clock write =>
    simp only [step, Option.ite_none_right_eq_some] at h
    obtain ⟨hs, h⟩ := h
    split at h
    · cases h
      exact .waits rfl rfl rfl rfl rfl
    · rename_i n m hr
      cases h
      refine .calls (.received m) nonce clock write (by simp [hs]) (by simp [hs]) (by simp) rfl rfl ?_ ?_
        (by simp [Event.message?]) ?_
      · exact outputs_handed m _
      · exact congrArg (m :: ·) (handed_outputs _)
      · rintro m' he
        cases he
        exact ⟨n, hr, rfl⟩
    · rename_i n e hr
      exact .misreads e n hr
  | tick now nonce write =>
    simp only [step, Option.ite_none_right_eq_some, Option.some.injEq] at h
    obtain ⟨hs, rfl, rfl⟩ := h
    refine .calls (.tick now) nonce 0 write (by simp [hs]) (by simp [hs]) (by simp) rfl rfl ?_ ?_
      (fun _ => dropRead_pipe hc) (by simp)
    · exact outputs_lose d _
    · exact handed_outputs _
  | command write =>
    simp only [step, Option.ite_none_right_eq_some] at h
    obtain ⟨⟨hs, -⟩, h⟩ := h
    split at h
    · cases h
    · rename_i c cs hq
      cases h
      refine .calls (.sendClipboard c) 0 0 write (by simp [hs]) (by simp [hs]) ?_ rfl rfl ?_ ?_
        (fun _ => dropRead_pipe hc) (by simp)
      · rintro c' he
        cases he
        simp [hq]
      · exact outputs_lose d _
      · exact handed_outputs _
  | commandsClosed =>
    simp only [step, Option.ite_none_right_eq_some, Option.some.injEq] at h
    obtain ⟨-, rfl, rfl⟩ := h
    exact .waits rfl rfl rfl rfl (dropRead_pipe hc)
  | lost e =>
    simp only [step, Option.ite_none_right_eq_some, Option.some.injEq] at h
    obtain ⟨hs, rfl, rfl⟩ := h
    exact .closes e hs rfl rfl rfl rfl rfl

/-! ## The command queue -/

inductive Queued (d d' : Drive) (os : List Obs) : Act → Prop
  /-- A clip that reaches the task; one for a task that has exited is lost. -/
  | queues (c : Clip) : os = [] → d'.session.machine = d.session.machine → d'.session.stage = d.session.stage →
      d'.session.commands = (if d.session.stage = .done then d.session.commands else d.session.commands ++ [c]) →
      Queued d d' os (.queue c)
  /-- A clip that the machine drops, since it does not know its peer. -/
  | drops {a : Act} (c : Clip) : (∀ c, a ≠ .queue c) → d.session.stage ≠ .done →
      d.session.commands = c :: d'.session.commands →
      d.session.machine.phase = .awaitingPeerHandshake → d'.session.machine = d.session.machine →
      outputs os = [] → Queued d d' os a
  /-- A clip that is written, or ends the task. -/
  | takes {a : Act} (c : Clip) : (∀ c, a ≠ .queue c) → d.session.stage ≠ .done →
      d.session.commands = c :: d'.session.commands →
      d.session.machine.phase = .ready → d'.session.machine = d.session.machine →
      (outputs os = [.sent (.clipboard c)] ∨ d'.session.stage = .done ∧ (outputs os).filterMap Output.sent? = []) →
      Queued d d' os a
  /-- The machine handles something else, or nothing. -/
  | keeps {a : Act} : (∀ c, a ≠ .queue c) → d'.session.commands = d.session.commands →
      ((outputs os).filterMap Output.sent?).filterMap Message.clip? = [] →
      (d.session.machine.phase = .ready → d'.session.machine.phase = .ready) → Queued d d' os a

/-- A ready machine writes the clip, or the write fails and the task is done. -/
theorem give_clip {s : Session} (c : Clip) (write : Bool) (hr : s.machine.phase = .ready) :
    (s.give (.sendClipboard c) 0 0 write).1.machine = s.machine ∧
      ((s.give (.sendClipboard c) 0 0 write).2 = [.sent (.clipboard c)] ∨
        (s.give (.sendClipboard c) 0 0 write).1.stage = .done ∧
          (s.give (.sendClipboard c) 0 0 write).2.filterMap Output.sent? = []) := by
  have hh : s.machine.handle (.sendClipboard c) 0 0 = (s.machine, [.send (.clipboard c)]) := by
    simp [ConnectionMachine.handle, hr]
  unfold Session.give
  rw [hh]
  cases write
  · exact ⟨rfl, Or.inr ⟨rfl, rfl⟩⟩
  · exact ⟨rfl, Or.inl rfl⟩

theorem step_queued (h : step d a = some (d', os)) : Queued d d' os a := by
  cases a with
  | start write =>
    simp only [step, Option.ite_none_right_eq_some, Option.some.injEq] at h
    obtain ⟨-, rfl, rfl⟩ := h
    refine .keeps (by simp) rfl ?_ ConnectionMachine.handle_ready
    rw [List.nil_append, outputs_out]
    have hc : Call d.session.machine 0 0 .started _ _ := handle_call rfl
    exact hc.clips (by simp) write
  | arrive n =>
    cases h
    exact .keeps (by simp) rfl rfl id
  | queue c =>
    simp only [step, Option.ite_none_right_eq_some, Option.some.injEq] at h
    obtain ⟨-, rfl, rfl⟩ := h
    refine .queues c rfl (by simp) (by simp) ?_
    show (d.session.sendClipboard c).commands = _
    unfold Session.sendClipboard
    split <;> rfl
  | read nonce clock write =>
    simp only [step, Option.ite_none_right_eq_some] at h
    obtain ⟨-, h⟩ := h
    split at h
    · cases h
      exact .keeps (by simp) rfl rfl id
    · rename_i n m hr
      cases h
      refine .keeps (by simp) rfl ?_ ConnectionMachine.handle_ready
      rw [List.singleton_append, outputs_handed]
      have hc : Call d.session.machine nonce clock (.received m) _ _ := handle_call rfl
      exact hc.clips (by simp) write
    · cases h
      exact .keeps (by simp) rfl rfl id
  | tick now nonce write =>
    simp only [step, Option.ite_none_right_eq_some, Option.some.injEq] at h
    obtain ⟨-, rfl, rfl⟩ := h
    refine .keeps (by simp) rfl ?_ ConnectionMachine.handle_ready
    rw [List.singleton_append, outputs_lose]
    have hc : Call d.session.machine nonce 0 (.tick now) _ _ := handle_call rfl
    exact hc.clips (by simp) write
  | command write =>
    simp only [step, Option.ite_none_right_eq_some] at h
    obtain ⟨⟨hs, -⟩, h⟩ := h
    split at h
    · cases h
    · rename_i c cs hq
      cases h
      have hgo : d.session.stage ≠ .done := by simp [hs]
      rw [List.singleton_append]
      cases hp : d.session.machine.phase with
      | awaitingPeerHandshake =>
        refine .drops c (by simp) hgo hq hp ?_ ?_
        · simp [Session.give, ConnectionMachine.handle, hp]
        · rw [outputs_lose]
          simp [Session.give, ConnectionMachine.handle, hp, runActions]
      | ready =>
        have hg := give_clip (s := { d.session with commands := cs }) c write hp
        refine .takes c (by simp) hgo hq hp hg.1 ?_
        rw [outputs_lose]
        exact hg.2
  | commandsClosed =>
    simp only [step, Option.ite_none_right_eq_some, Option.some.injEq] at h
    obtain ⟨-, rfl, rfl⟩ := h
    exact .keeps (by simp) rfl rfl id
  | lost e =>
    simp only [step, Option.ite_none_right_eq_some, Option.some.injEq] at h
    obtain ⟨-, rfl, rfl⟩ := h
    exact .keeps (by simp) rfl rfl id

theorem step_open (h : step d a = some (d', os)) (hd : d'.session.stage ≠ .done) : d.session.stage ≠ .done := by
  rcases step_session h with ⟨hs | ⟨c, hs⟩, -⟩ | ⟨b, hb⟩
  · rwa [hs] at hd
  · rwa [hs, Session.sendClipboard_stage] at hd
  · exact (Session.step_closedLast hb).1

end

end Drive

/-! ## Messages that fit -/

theorem ping_fits (p : Ping) : (Message.ping p).Fits := by
  have hput : encode (.ping p) = Postcard.variant.put .ping ++ Postcard.ping.put p := rfl
  have hvariant : (Postcard.variant.put .ping).length = 1 := by decide
  have hv : (Postcard.ping.put p).length ≤ 10 := length_putVarint_le 9 p.nonce.toNat
  unfold Message.Fits maxFrameLen
  rw [hput, List.length_append]
  omega

theorem pong_fits (p : Pong) : (Message.pong p).Fits := by
  have hput : encode (.pong p) = Postcard.variant.put .pong ++ Postcard.pong.put p := rfl
  have hvariant : (Postcard.variant.put .pong).length = 1 := by decide
  have hv : (Postcard.pong.put p).length ≤ 10 := length_putVarint_le 9 p.nonce.toNat
  unfold Message.Fits maxFrameLen
  rw [hput, List.length_append]
  omega

/-- What a call sends fits if the handshake does and the clip it is given does. -/
theorem Call.fits {m m' : ConnectionMachine} {ev : Event} {nonce : UInt64} {clock : Time} {acts : List Action}
    (hc : Call m nonce clock ev m' acts) (hh : (Message.handshake m.ownHandshake).Fits)
    (hclip : ∀ c, ev = .sendClipboard c → (Message.clipboard c).Fits) :
    ∀ msg ∈ acts.filterMap Action.message?, msg.Fits := by
  cases hc with
  | started => simpa [Action.message?] using hh
  | answered p _ => simpa [Action.message?] using pong_fits ⟨p.nonce⟩
  | pinged => simpa [Action.message?] using ping_fits _
  | shared c _ => simpa [Action.message?] using hclip c rfl
  | _ => simp [Action.message?]

/-! ## The bytes of a pipe -/

/-- Bytes that hold the messages on their way. What could not be written, `lost`, is
on its way as a message, and as a part of its frame. -/
inductive Piped : List Message → List UInt8 → List Message → Prop
  | whole (ms : List Message) : Piped [] (ms.flatMap frame) ms
  | torn (ms : List Message) (m : Message) (k : Nat) : k < (frame m).length →
      Piped [m] (ms.flatMap frame ++ (frame m).take k) (ms ++ [m])

section
variable {lost : List Message} {bs : List UInt8} {ms : List Message}

theorem flatMap_frame_eq_nil (h : ms.flatMap frame = []) : ms = [] := by
  cases ms with
  | nil => rfl
  | cons m ms =>
    have hlen := congrArg List.length h
    rw [List.flatMap_cons, List.length_append, length_frame, List.length_nil] at hlen
    omega

theorem Piped.empty (hp : Piped lost [] ms) : ms = lost := by
  generalize hbs : ([] : List UInt8) = bs at hp
  cases hp with
  | whole => exact flatMap_frame_eq_nil hbs.symm
  | torn ms m k _ =>
    have h := List.append_eq_nil_iff.mp hbs.symm
    rw [flatMap_frame_eq_nil h.1, List.nil_append]

theorem Piped.front (hp : Piped lost bs ms) : ∃ front torn, ms = front ++ lost ∧ bs = front.flatMap frame ++ torn ∧
    (lost = [] ∧ torn = [] ∨ ∃ m k, lost = [m] ∧ k < (frame m).length ∧ torn = (frame m).take k) := by
  cases hp with
  | whole => exact ⟨ms, [], (List.append_nil ms).symm, (List.append_nil _).symm, Or.inl ⟨rfl, rfl⟩⟩
  | torn ms m k hk => exact ⟨ms, (frame m).take k, rfl, rfl, Or.inr ⟨m, k, rfl, hk, rfl⟩⟩

/-- Whole frames and the part of one that failed follow what is in the pipe. -/
theorem Piped.write {new : List Message} (hp : Piped [] bs ms) (part : Nat)
    (hl : lost = [] ∨ new = [] ∧ ∃ m, lost = [m]) :
    Piped lost (bs ++ (new.flatMap frame ++ lost.flatMap fun m => (frame m).dropLast.take part))
      (ms ++ (new ++ lost)) := by
  cases hp with
  | whole =>
    rcases hl with rfl | ⟨rfl, m, rfl⟩
    · rw [List.flatMap_nil, List.append_nil, List.append_nil, ← List.flatMap_append]
      exact .whole _
    · rw [List.flatMap_nil, List.nil_append, List.flatMap_singleton, List.nil_append, List.dropLast_eq_take,
        List.take_take]
      refine .torn _ m _ ?_
      rw [length_frame]
      omega

theorem read_frame {stream arriving rest : List UInt8} {m : Message} {n : Nat} {r : Except FramingError Message}
    (hm : m.Fits) (hs : stream ++ arriving = frame m ++ rest) (hr : readMessage stream = (n, some r)) :
    r = .ok m ∧ stream.drop n ++ arriving = rest := by
  have h := readMessage_append hr arriving
  rw [hs, readMessage_frame hm] at h
  simp only [Prod.mk.injEq, Option.some.injEq] at h
  obtain ⟨rfl, rfl⟩ := h
  have hle := (readMessage_ok hr).1
  refine ⟨rfl, ?_⟩
  rw [← List.drop_append_of_le_length hle, hs, List.drop_left]

theorem Piped.read {stream arriving : List UInt8} {n : Nat} {r : Except FramingError Message}
    (hp : Piped lost (stream ++ arriving) ms) (hfit : ∀ m ∈ ms, m.Fits) (hr : readMessage stream = (n, some r)) :
    ∃ m ms', ms = m :: ms' ∧ r = .ok m ∧ Piped lost (stream.drop n ++ arriving) ms' := by
  have hn := readMessage_append hr arriving
  generalize hbs : stream ++ arriving = bs at hp
  cases hp with
  | whole =>
    cases ms with
    | nil =>
      rw [hbs, List.flatMap_nil, readMessage_nil] at hn
      cases hn
    | cons m ms =>
      obtain ⟨rfl, hrest⟩ := read_frame (hfit m List.mem_cons_self) hbs hr
      rw [hrest]
      exact ⟨m, ms, rfl, rfl, .whole ms⟩
  | torn ms m k hk =>
    cases ms with
    | nil =>
      have hm : m.Fits := hfit m List.mem_cons_self
      rw [hbs, List.flatMap_nil, List.nil_append, readMessage_short hm hk] at hn
      cases hn
    | cons m' ms =>
      rw [List.flatMap_cons, List.append_assoc] at hbs
      obtain ⟨rfl, hrest⟩ := read_frame (hfit m' List.mem_cons_self) hbs hr
      rw [hrest]
      exact ⟨m', ms ++ [m], rfl, rfl, .torn ms m k hk⟩

end

/-! ## Both sides -/

structure Exchange where
  drive : Side → Drive

namespace Exchange

/-- `part` of the bytes of a frame that cannot be written go down the stream before the write fails. -/
structure Act where
  side : Side
  act : Drive.Act
  part : Nat

inductive Obs where
  | queued (s : Side) (c : Clip)
  | drive (s : Side) (o : Drive.Obs)
  deriving DecidableEq

def Act.queued? (a : Act) : Option Clip :=
  match a.act with
  | .queue c => some c
  | _ => none

def written (part : Nat) (os : List Output) : Option (List UInt8) := do
  let whole ← writeMessages (os.filterMap Output.sent?)
  some (whole ++ (os.filterMap Output.unsent?).flatMap fun m => (frame m).dropLast.take part)

def step (x : Exchange) (a : Act) : Option (Exchange × List Obs) := do
  let (d, os) ← (x.drive a.side).step a.act
  let bs ← written a.part (Drive.outputs os)
  let peer := x.drive a.side.other
  some (⟨Function.update (Function.update x.drive a.side d) a.side.other { peer with arriving := peer.arriving ++ bs }⟩,
    a.queued?.toList.map (.queued a.side) ++ os.map (.drive a.side))

def initial (e : Side → Endpoint) : Exchange := ⟨fun s => .initial (e s).machine []⟩

def system (e : Side → Endpoint) : System Exchange Act Obs := { init := (· = initial e), step }

/-! ## What is read off a run -/

def polls (s : Side) (tr : List Obs) : List Drive.Obs :=
  tr.filterMap fun
    | .drive t o => if t = s then some o else none
    | .queued .. => none

def queued (s : Side) (tr : List Obs) : List Clip :=
  tr.filterMap fun
    | .queued t c => if t = s then some c else none
    | .drive .. => none

def sent (s : Side) (tr : List Obs) : List Message := (Drive.outputs (polls s tr)).filterMap Output.sent?

def unsent (s : Side) (tr : List Obs) : List Message := (Drive.outputs (polls s tr)).filterMap Output.unsent?

def events (s : Side) (tr : List Obs) : List SessionEvent := Drive.events (polls s tr)

section
variable {s : Side} {tr os : List Obs}

theorem polls_append (s : Side) (tr os : List Obs) : polls s (tr ++ os) = polls s tr ++ polls s os :=
  List.filterMap_append

theorem queued_append (s : Side) (tr os : List Obs) : queued s (tr ++ os) = queued s tr ++ queued s os :=
  List.filterMap_append

theorem sent_append (s : Side) (tr os : List Obs) : sent s (tr ++ os) = sent s tr ++ sent s os := by
  unfold sent Drive.outputs
  rw [polls_append, List.filterMap_append, List.filterMap_append]

theorem unsent_append (s : Side) (tr os : List Obs) : unsent s (tr ++ os) = unsent s tr ++ unsent s os := by
  unfold unsent Drive.outputs
  rw [polls_append, List.filterMap_append, List.filterMap_append]

theorem events_append (s : Side) (tr os : List Obs) : events s (tr ++ os) = events s tr ++ events s os := by
  unfold events
  rw [polls_append, Drive.events_append]

theorem polls_own (s : Side) (cs : List Clip) (os : List Drive.Obs) :
    polls s (cs.map (.queued s) ++ os.map (.drive s)) = os := by
  unfold polls
  rw [List.filterMap_append, List.filterMap_map, List.filterMap_map]
  simp

theorem polls_of_other {s t : Side} (h : s ≠ t) (cs : List Clip) (os : List Drive.Obs) :
    polls t (cs.map (.queued s) ++ os.map (.drive s)) = [] := by
  unfold polls
  rw [List.filterMap_append, List.filterMap_map, List.filterMap_map]
  simp [h]

theorem queued_own (s : Side) (cs : List Clip) (os : List Drive.Obs) :
    queued s (cs.map (.queued s) ++ os.map (.drive s)) = cs := by
  unfold queued
  rw [List.filterMap_append, List.filterMap_map, List.filterMap_map]
  simp

theorem queued_of_other {s t : Side} (h : s ≠ t) (cs : List Clip) (os : List Drive.Obs) :
    queued t (cs.map (.queued s) ++ os.map (.drive s)) = [] := by
  unfold queued
  rw [List.filterMap_append, List.filterMap_map, List.filterMap_map]
  simp [h]

end

/-! ## What a step does -/

/-- One side polls its loop; what it writes arrives at the other. -/
structure Moves (x x' : Exchange) (a : Act) (os : List Obs) (dos : List Drive.Obs) (bs : List UInt8) : Prop where
  polled : (x.drive a.side).step a.act = some (x'.drive a.side, dos)
  wrote : written a.part (Drive.outputs dos) = some bs
  arrives : x'.drive a.side.other =
    { x.drive a.side.other with arriving := (x.drive a.side.other).arriving ++ bs }
  own : polls a.side os = dos
  other : polls a.side.other os = []
  queues : queued a.side os = a.queued?.toList
  idle : queued a.side.other os = []

section
variable {x x' : Exchange} {a : Act} {os : List Obs} {dos : List Drive.Obs} {bs : List UInt8}

theorem step_moves (h : step x a = some (x', os)) : ∃ dos bs, Moves x x' a os dos bs := by
  simp only [step, Option.bind_eq_bind, Option.bind_eq_some_iff, Option.some.injEq] at h
  obtain ⟨⟨d, dos⟩, hd, bs, hw, h⟩ := h
  cases h
  refine ⟨dos, bs, ?_, hw, ?_, polls_own _ _ _, polls_of_other (Side.ne_other _) _ _, queued_own _ _ _,
    queued_of_other (Side.ne_other _) _ _⟩
  · rw [hd]
    simp
  · simp

theorem written_eq {part : Nat} {outs : List Output} (h : written part outs = some bs) :
    bs = (outs.filterMap Output.sent?).flatMap frame ++
      (outs.filterMap Output.unsent?).flatMap fun m => (frame m).dropLast.take part := by
  simp only [written, Option.bind_eq_bind, Option.bind_eq_some_iff, Option.some.injEq] at h
  obtain ⟨whole, hw, rfl⟩ := h
  rw [(writeMessages_eq hw).2]

end

end Exchange

/-! ## The link underneath -/

/-- Whatever the machine on one side may be given, the link can give it. -/
theorem Link.step_call {l : Link} {s : Side} {ev : Event} {rest : List Message} (nonce : UInt64) (clock : Time)
    (hst : ev = .started ↔ l.started s = false) (hch : l.chan s = ev.message?.toList ++ rest) :
    ∃ b l', l.step b = some (l', [⟨s, ev, ((l.machine s).handle ev nonce clock).2⟩]) ∧
      l'.machine = Function.update l.machine s ((l.machine s).handle ev nonce clock).1 ∧ l'.chan s = rest ∧
      l'.chan s.other =
        l.chan s.other ++ ((l.machine s).handle ev nonce clock).2.filterMap Action.message? ∧
      l'.started = Function.update l.started s true := by
  have hgo : ev ≠ .started → l.started s = true := fun hne => by
    rw [Ne, hst, Bool.not_eq_false] at hne
    exact hne
  cases ev with
  | started =>
    have hs := hst.mp rfl
    refine ⟨.start s, (({ l with started := Function.update l.started s true } : Link).call s .started 0 0).1, ?_, ?_⟩
    · simp only [step, hs]
      rfl
    · have hh : (l.machine s).handle .started 0 0 = (l.machine s).handle .started nonce clock := rfl
      simpa [call, Event.message?, hh] using hch
  | received m =>
    have hs := hgo (by simp)
    have hc : l.chan s = m :: rest := hch
    refine ⟨.deliver s clock,
      (({ l with chan := Function.update l.chan s rest } : Link).call s (.received m) 0 clock).1, ?_, ?_⟩
    · simp only [step, hs, hc]
      rfl
    · have hh : (l.machine s).handle (.received m) 0 clock = (l.machine s).handle (.received m) nonce clock := rfl
      simpa [call, hh] using hs
  | tick now =>
    have hs := hgo (by simp)
    refine ⟨.tick s now nonce, (l.call s (.tick now) nonce 0).1, ?_, ?_⟩
    · simp only [step, hs]
      rfl
    · have hh : (l.machine s).handle (.tick now) nonce 0 = (l.machine s).handle (.tick now) nonce clock := rfl
      simpa [call, Event.message?, hh] using ⟨hch, hs⟩
  | sendClipboard c =>
    have hs := hgo (by simp)
    refine ⟨.sendClipboard s c, (l.call s (.sendClipboard c) 0 0).1, ?_, ?_⟩
    · simp only [step, hs]
      rfl
    · have hh : (l.machine s).handle (.sendClipboard c) 0 0 = (l.machine s).handle (.sendClipboard c) nonce clock := rfl
      simpa [call, Event.message?, hh] using ⟨hch, hs⟩

theorem Link.log_call (s : Side) (tr : List Call) (ev : Event) (acts : List Action) :
    log s (tr ++ [⟨s, ev, acts⟩]) = log s tr ++ [(ev, acts)] := log_snoc_self tr ⟨s, ev, acts⟩

theorem Link.log_call_other (s : Side) (tr : List Call) (ev : Event) (acts : List Action) :
    log s.other (tr ++ [⟨s, ev, acts⟩]) = log s.other tr := log_snoc_other tr ⟨s, ev, acts⟩

namespace Exchange

/-- The link has made of the run what the session on side `s` has. -/
structure Matched (s : Side) (tr : List Obs) (x : Exchange) (trL : List Link.Call) (l : Link) : Prop where
  machine : l.machine s = (x.drive s).session.machine
  started : l.started s = false ↔ (x.drive s).session.stage = .start
  pipe : Piped (unsent s.other tr) (x.drive s).pipe (l.chan s)
  fits : ∀ m ∈ l.chan s, m.Fits
  clips : ∀ c ∈ (x.drive s).session.commands, (Message.clipboard c).Fits
  heard : Drive.handed (polls s tr) = (Link.log s trL).received
  said : sent s tr ++ unsent s tr = (Link.log s trL).sent
  failed : (x.drive s).session.stage ≠ .done → unsent s tr = []
  told : reports (Drive.outputs (polls s tr)) = (Link.log s trL).emitted.filterMap Action.report?
  framed : ∀ r, .closed (.framingError r) ∈ events s tr → unsent s tr ≠ []

def Follows (tr : List Obs) (x : Exchange) (trL : List Link.Call) (l : Link) : Prop := ∀ s, Matched s tr x trL l

/-- No branch wins over a read that holds bytes, and what is queued fits in a frame. -/
def Careful (_ : List Obs) (x : Exchange) (a : Act) : Prop :=
  (x.drive a.side).Careful a.act ∧ ∀ c, a.queued? = some c → (Message.clipboard c).Fits

section
variable {e : Side → Endpoint} {tr : List Obs} {x x' : Exchange} {trL : List Link.Call} {l : Link}

theorem follows_initial (e : Side → Endpoint) : Follows [] (initial e) [] (.initial e) := fun _ =>
  { machine := rfl
    started := ⟨fun _ => rfl, fun _ => rfl⟩
    pipe := .whole []
    fits := fun _ hm => absurd hm List.not_mem_nil
    clips := fun _ hm => absurd hm List.not_mem_nil
    heard := rfl
    said := rfl
    failed := fun _ => rfl
    told := rfl
    framed := fun _ h => absurd h List.not_mem_nil }

theorem Moves.sent {a : Act} {os : List Obs} {dos : List Drive.Obs} {bs : List UInt8} (hm : Moves x x' a os dos bs) :
    sent a.side os = (Drive.outputs dos).filterMap Output.sent? := by rw [Exchange.sent, hm.own]

theorem Moves.unsent {a : Act} {os : List Obs} {dos : List Drive.Obs} {bs : List UInt8} (hm : Moves x x' a os dos bs) :
    unsent a.side os = (Drive.outputs dos).filterMap Output.unsent? := by rw [Exchange.unsent, hm.own]

theorem Moves.events {a : Act} {os : List Obs} {dos : List Drive.Obs} {bs : List UInt8} (hm : Moves x x' a os dos bs) :
    events a.side os = Drive.events dos := by rw [Exchange.events, hm.own]

theorem Moves.unsent_other {a : Act} {os : List Obs} {dos : List Drive.Obs} {bs : List UInt8}
    (hm : Moves x x' a os dos bs) : Exchange.unsent a.side.other os = [] := by
  rw [Exchange.unsent, hm.other]
  rfl

/-- The side that does not move keeps what it has, whatever arrives there. -/
theorem Matched.other {a : Act} {os : List Obs} {dos : List Drive.Obs} {bs : List UInt8}
    (hs : Matched a.side.other tr x trL l) (hm : Moves x x' a os dos bs) {c : List Link.Call} {l' : Link}
    (hmach : l'.machine a.side.other = l.machine a.side.other)
    (hstart : l'.started a.side.other = l.started a.side.other)
    (hlog : Link.log a.side.other (trL ++ c) = Link.log a.side.other trL)
    (hpipe : Piped (Exchange.unsent a.side (tr ++ os)) (x'.drive a.side.other).pipe (l'.chan a.side.other))
    (hfits : ∀ m ∈ l'.chan a.side.other, m.Fits) : Matched a.side.other (tr ++ os) x' (trL ++ c) l' := by
  have hses : (x'.drive a.side.other).session = (x.drive a.side.other).session := by rw [hm.arrives]
  have hpolls : polls a.side.other (tr ++ os) = polls a.side.other tr := by
    rw [polls_append, hm.other, List.append_nil]
  have hsent : Exchange.sent a.side.other (tr ++ os) = Exchange.sent a.side.other tr := by
    rw [Exchange.sent, hpolls]
    rfl
  have hunsent : Exchange.unsent a.side.other (tr ++ os) = Exchange.unsent a.side.other tr := by
    rw [Exchange.unsent, hpolls]
    rfl
  have hevents : Exchange.events a.side.other (tr ++ os) = Exchange.events a.side.other tr := by
    rw [Exchange.events, hpolls]
    rfl
  exact
    { machine := by rw [hmach, hses, hs.machine]
      started := by rw [hstart, hses, hs.started]
      pipe := by rwa [Side.other_other]
      fits := hfits
      clips := by rw [hses]; exact hs.clips
      heard := by rw [hpolls, hlog, hs.heard]
      said := by rw [hsent, hunsent, hlog, hs.said]
      failed := by rw [hses, hunsent]; exact hs.failed
      told := by rw [hpolls, hlog, hs.told]
      framed := by rw [hevents, hunsent]; exact hs.framed }

theorem Follows.quiet {a : Act} {os : List Obs} {dos : List Drive.Obs} {bs : List UInt8} (hf : Follows tr x trL l)
    (hm : Moves x x' a os dos bs)
    (hout : Drive.outputs dos = [] ∨ ∃ r, Drive.outputs dos = [.event (.closed (.connectionLost r))])
    (hheard : Drive.handed dos = [])
    (hmach : (x'.drive a.side).session.machine = (x.drive a.side).session.machine)
    (hstage : (x'.drive a.side).session.stage = (x.drive a.side).session.stage ∨
      (x.drive a.side).session.stage = .loop ∧ (x'.drive a.side).session.stage = .done)
    (hpipe : (x'.drive a.side).pipe = (x.drive a.side).pipe)
    (hclips : ∀ c ∈ (x'.drive a.side).session.commands, (Message.clipboard c).Fits) :
    Follows (tr ++ os) x' trL l := by
  obtain ⟨hsent, hunsent, htold, hframed⟩ : (Drive.outputs dos).filterMap Output.sent? = [] ∧
      (Drive.outputs dos).filterMap Output.unsent? = [] ∧ reports (Drive.outputs dos) = [] ∧
      ∀ r, .closed (.framingError r) ∉ Drive.events dos := by
    unfold Drive.events
    rcases hout with ho | ⟨r, ho⟩
    · simp [ho, reports]
    · simp [ho, reports, Output.sent?, Output.unsent?, Output.event?, SessionEvent.isOpen]
  have hbs : bs = [] := by
    rw [written_eq hm.wrote, hsent, hunsent]
    rfl
  have hsent' : Exchange.sent a.side (tr ++ os) = Exchange.sent a.side tr := by
    rw [sent_append, hm.sent, hsent, List.append_nil]
  have hunsent' : Exchange.unsent a.side (tr ++ os) = Exchange.unsent a.side tr := by
    rw [unsent_append, hm.unsent, hunsent, List.append_nil]
  have hs := hf a.side
  intro t
  rcases Side.eq_or_other a.side t with rfl | rfl
  · exact
      { machine := by rw [hs.machine, hmach]
        started := by
          rw [hs.started]
          rcases hstage with h | ⟨hl, hd⟩
          · rw [h]
          · simp [hl, hd]
        pipe := by
          rw [unsent_append, hm.unsent_other, List.append_nil, hpipe]
          exact hs.pipe
        fits := hs.fits
        clips := hclips
        heard := by rw [polls_append, Drive.handed_append, hm.own, hheard, List.append_nil, hs.heard]
        said := by rw [hsent', hunsent', hs.said]
        failed := by
          intro hd
          rw [hunsent']
          rcases hstage with h | ⟨-, hd'⟩
          · exact hs.failed (h ▸ hd)
          · exact absurd hd' hd
        told := by
          rw [polls_append, Drive.outputs_append, reports_append, hm.own, htold, List.append_nil, hs.told]
        framed := by
          intro r hr
          rw [hunsent']
          rw [events_append, hm.events, List.mem_append] at hr
          exact hs.framed r (hr.resolve_right (hframed r)) }
  · have hp := (hf a.side.other).pipe
    rw [Side.other_other] at hp
    have hpipe' : (x'.drive a.side.other).pipe = (x.drive a.side.other).pipe := by
      simp [hm.arrives, Drive.pipe, hbs]
    have h := (hf a.side.other).other hm (c := []) rfl rfl (by rw [List.append_nil])
      (by rwa [hunsent', hpipe']) (hf a.side.other).fits
    rwa [List.append_nil] at h

/-- What a poll that calls the machine has done: the call, what came of its actions, and what is
left to read. -/
structure Called (tr : List Obs) (x x' : Exchange) (a : Act) (dos : List Drive.Obs) (l : Link) (ev : Event)
    (write : Bool) (acts : List Action) (rest : List Message) : Prop where
  answer : ∃ nonce clock,
    (x.drive a.side).session.machine.handle ev nonce clock = ((x'.drive a.side).session.machine, acts)
  going : (x.drive a.side).session.stage ≠ .done
  stage : (x'.drive a.side).session.stage = if (runActions write acts).2 then .loop else .done
  outs : Drive.outputs dos = (runActions write acts).1
  heard : Drive.handed dos = ev.message?.toList
  chan : l.chan a.side = ev.message?.toList ++ rest
  pipe : Piped (unsent a.side.other tr) (x'.drive a.side).pipe rest
  fits : ∀ msg ∈ acts.filterMap Action.message?, msg.Fits
  clips : ∀ c ∈ (x'.drive a.side).session.commands, (Message.clipboard c).Fits

theorem Called.ran {a : Act} {dos : List Drive.Obs} {ev : Event} {write : Bool} {acts : List Action}
    {rest : List Message} (hc : Called tr x x' a dos l ev write acts rest) :
    (Drive.outputs dos).filterMap Output.sent? ++ (Drive.outputs dos).filterMap Output.unsent? =
        acts.filterMap Action.message? ∧
      ((Drive.outputs dos).filterMap Output.unsent? ≠ [] → (runActions write acts).2 = false ∧
        (Drive.outputs dos).filterMap Output.sent? = [] ∧
        ∃ m, (Drive.outputs dos).filterMap Output.unsent? = [m]) ∧
      reports (Drive.outputs dos) = acts.filterMap Action.report? := by
  obtain ⟨nonce, clock, hcall⟩ := hc.answer
  obtain ⟨hwhole, hended, hreported⟩ := (handle_call hcall).runActions write
  rw [hc.outs]
  exact ⟨hwhole, hended, hreported⟩

/-- A broken frame is told of only when a message could not be written. -/
theorem Called.framed {a : Act} {dos : List Drive.Obs} {ev : Event} {write : Bool} {acts : List Action}
    {rest : List Message} (hc : Called tr x x' a dos l ev write acts rest) {r : FramingError}
    (hr : .closed (.framingError r) ∈ Drive.events dos) : (Drive.outputs dos).filterMap Output.unsent? ≠ [] := by
  obtain ⟨o, ho, he⟩ := List.mem_filterMap.mp hr
  rw [hc.outs] at ho
  cases o with
  | event ev' =>
    cases he
    obtain ⟨-, msg, hmsg⟩ := (runActions_framing write r acts).mp ho
    exact List.ne_nil_of_mem (List.mem_filterMap.mpr ⟨.unsent msg, hc.outs ▸ hmsg, rfl⟩)
  | _ => cases he

/-- The side whose machine is called goes with the call of the link's machine. -/
theorem Matched.call {a : Act} {os : List Obs} {dos : List Drive.Obs} {bs : List UInt8}
    (hs : Matched a.side tr x trL l) (hm : Moves x x' a os dos bs) {ev : Event} {write : Bool} {acts : List Action}
    {rest : List Message} (hc : Called tr x x' a dos l ev write acts rest) {l' : Link}
    (hlm : l'.machine a.side = (x'.drive a.side).session.machine) (hls : l'.chan a.side = rest)
    (hlst : l'.started a.side = true) : Matched a.side (tr ++ os) x' (trL ++ [⟨a.side, ev, acts⟩]) l' := by
  obtain ⟨hwhole, hended, hreported⟩ := hc.ran
  have hnot : (x'.drive a.side).session.stage ≠ .start := by
    rw [hc.stage]
    split <;> simp
  have hunsent : unsent a.side (tr ++ os) = (Drive.outputs dos).filterMap Output.unsent? := by
    rw [unsent_append, hs.failed hc.going, hm.unsent, List.nil_append]
  exact
    { machine := hlm
      started := by simp [hlst, hnot]
      pipe := by
        rw [hls, unsent_append, hm.unsent_other, List.append_nil]
        exact hc.pipe
      fits := by
        intro msg hmsg
        rw [hls] at hmsg
        exact hs.fits msg (by rw [hc.chan]; exact List.mem_append_right _ hmsg)
      clips := hc.clips
      heard := by rw [polls_append, Drive.handed_append, hs.heard, Link.log_call, Log.received_snoc, hm.own, hc.heard]
      said := by
        have hsaid := hs.said
        rw [hs.failed hc.going, List.append_nil] at hsaid
        rw [sent_append, hm.sent, hunsent, Link.log_call, Log.sent_snoc, ← hsaid, ← hwhole, List.append_assoc]
      failed := by
        intro hd
        rw [hunsent]
        by_contra hu
        rw [hc.stage, (hended hu).1] at hd
        exact hd rfl
      told := by
        rw [polls_append, Link.log_call, Log.emitted_snoc, List.filterMap_append, ← hs.told, hm.own,
          Drive.outputs_append, reports_append, hreported]
      framed := by
        intro r hr
        rw [events_append, hm.events, List.mem_append] at hr
        rcases hr with hr | hr
        · exact absurd (hs.failed hc.going) (hs.framed r hr)
        · rw [hunsent]
          exact hc.framed hr }

/-- The machine on one side is called, and the link calls it too. -/
theorem Follows.call {a : Act} {os : List Obs} {dos : List Drive.Obs} {bs : List UInt8} (hf : Follows tr x trL l)
    (hm : Moves x x' a os dos bs) {ev : Event} {write : Bool} {acts : List Action} {rest : List Message}
    (hc : Called tr x x' a dos l ev write acts rest) {l' : Link}
    (hlm : l'.machine = Function.update l.machine a.side (x'.drive a.side).session.machine)
    (hls : l'.chan a.side = rest)
    (hlo : l'.chan a.side.other = l.chan a.side.other ++ acts.filterMap Action.message?)
    (hlst : l'.started = Function.update l.started a.side true) :
    Follows (tr ++ os) x' (trL ++ [⟨a.side, ev, acts⟩]) l' := by
  obtain ⟨hwhole, hended, -⟩ := hc.ran
  intro t
  rcases Side.eq_or_other a.side t with rfl | rfl
  · exact (hf a.side).call hm hc (by rw [hlm, Function.update_self]) hls (by rw [hlst, Function.update_self])
  · have hold : Piped [] (x.drive a.side.other).pipe (l.chan a.side.other) := by
      have hp := (hf a.side.other).pipe
      rwa [Side.other_other, (hf a.side).failed hc.going] at hp
    have hpipe : (x'.drive a.side.other).pipe = (x.drive a.side.other).pipe ++ bs := by
      simp [hm.arrives, Drive.pipe]
    refine (hf a.side.other).other hm (by rw [hlm, Function.update_of_ne (Side.other_ne _)])
      (by rw [hlst, Function.update_of_ne (Side.other_ne _)]) (Link.log_call_other ..) ?_ fun msg hmsg => ?_
    · rw [unsent_append, (hf a.side).failed hc.going, hm.unsent, List.nil_append, hpipe, hlo, written_eq hm.wrote,
        ← hwhole]
      refine hold.write a.part ?_
      by_cases hu : (Drive.outputs dos).filterMap Output.unsent? = []
      · exact Or.inl hu
      · exact Or.inr (hended hu).2
    · rw [hlo] at hmsg
      rcases List.mem_append.mp hmsg with hmsg | hmsg
      · exact (hf a.side.other).fits msg hmsg
      · exact hc.fits msg hmsg

/-- Every careful step of the sessions is a call on the link, or none. -/
theorem Follows.step {a : Act} {os : List Obs} (hhello : ∀ s, (Message.handshake (e s).machine.ownHandshake).Fits)
    (hl : Run (Link.system e) always trL l) (hf : Follows tr x trL l) (hc : Careful tr x a)
    (h : step x a = some (x', os)) :
    Follows (tr ++ os) x' trL l ∨
      ∃ b l' c, l.step b = some (l', c) ∧ Follows (tr ++ os) x' (trL ++ c) l' := by
  obtain ⟨dos, bs, hm⟩ := step_moves h
  have hclips : ∀ c ∈ (x'.drive a.side).session.commands, (Message.clipboard c).Fits := by
    intro c hmem
    have hqueue := Drive.step_queued hm.polled
    generalize hact : a.act = act at hqueue
    cases hqueue with
    | queues c' _ _ _ hq =>
      rw [hq] at hmem
      split at hmem
      · exact (hf a.side).clips c hmem
      · rcases List.mem_append.mp hmem with hmem | hmem
        · exact (hf a.side).clips c hmem
        · rw [List.mem_singleton] at hmem
          exact hc.2 c (by rw [Act.queued?, hact, hmem])
    | drops c' _ _ hq _ _ _ => exact (hf a.side).clips c (by rw [hq]; exact List.mem_cons_of_mem _ hmem)
    | takes c' _ _ hq _ _ _ => exact (hf a.side).clips c (by rw [hq]; exact List.mem_cons_of_mem _ hmem)
    | keeps _ hq _ _ => exact (hf a.side).clips c (hq ▸ hmem)
  cases Drive.step_poll hm.polled hc.1 with
  | waits ho hh hmach hst hp =>
    exact Or.inl (hf.quiet hm (Or.inl ho) hh hmach (Or.inl hst) hp hclips)
  | closes r hloop hmach hd ho hh hp =>
    exact Or.inl (hf.quiet hm (Or.inr ⟨r, ho⟩) hh hmach (Or.inr ⟨hloop, hd⟩) hp hclips)
  | misreads r n hr =>
    obtain ⟨m, ms, -, hok, -⟩ := (hf a.side).pipe.read (hf a.side).fits hr
    cases hok
  | calls ev nonce clock write hgo hstart hcmd hmach hst ho hh hkeep hread =>
    obtain ⟨rest, hchan, hpipe⟩ : ∃ rest, l.chan a.side = ev.message?.toList ++ rest ∧
        Piped (unsent a.side.other tr) (x'.drive a.side).pipe rest := by
      cases ev with
      | received m =>
        obtain ⟨n, hr, hp⟩ := hread m rfl
        obtain ⟨m', ms, hms, hok, hpipe⟩ := (hf a.side).pipe.read (hf a.side).fits hr
        cases hok
        exact ⟨ms, hms, hp ▸ hpipe⟩
      | _ => exact ⟨l.chan a.side, rfl, hkeep rfl ▸ (hf a.side).pipe⟩
    have hstart' : ev = .started ↔ l.started a.side = false := by rw [(hf a.side).started]; exact hstart
    obtain ⟨b, l', hb, hlm, hls, hlo, hlst⟩ := Link.step_call nonce clock hstart' hchan
    rw [(hf a.side).machine] at hb hlm hlo
    have hown : (x.drive a.side).session.machine.ownHandshake = (e a.side).machine.ownHandshake := by
      rw [← (hf a.side).machine]
      exact (Link.run_history hl a.side).ownHandshake
    rw [← hmach] at hlm
    refine Or.inr ⟨b, l', _, hb, hf.call hm ⟨⟨nonce, clock, Prod.ext hmach.symm rfl⟩, hgo, hst, ho, hh, hchan, hpipe, ?_,
      hclips⟩ hlm hls hlo hlst⟩
    refine (handle_call rfl).fits (by rw [hown]; exact hhello a.side) fun c hev => ?_
    exact (hf a.side).clips c (hcmd c hev)

theorem run_follows (hhello : ∀ s, (Message.handshake (e s).machine.ownHandshake).Fits)
    (h : Run (system e) Careful tr x) : ∃ trL l, Run (Link.system e) always trL l ∧ Follows tr x trL l := by
  refine Run.simulated (R := Follows) (fun x hx => ⟨_, rfl, hx ▸ follows_initial e⟩)
    (fun tr x a x' os trL l hl hf hc hs => ?_) h
  rcases hf.step hhello hl hc hs with hf | ⟨b, l', c, hb, hf⟩
  · exact Or.inl hf
  · exact Or.inr ⟨b, l', c, hb, hf⟩

/-- Careful sessions over bytes behave as machines over a link that carries messages:
each is handed what the link delivers, writes what its machine sends there, down
to the message at whose writing it ended, and tells what its machine reports,
while the pipe holds the frames of what is on its way. -/
theorem run_refines_link (hhello : ∀ s, (Message.handshake (e s).machine.ownHandshake).Fits)
    (h : Run (system e) Careful tr x) :
    ∃ trL l, Run (Link.system e) always trL l ∧ ∀ s,
      (x.drive s).session.machine = l.machine s ∧
      Drive.handed (polls s tr) = (Link.log s trL).received ∧
      sent s tr ++ unsent s tr = (Link.log s trL).sent ∧
      ((x.drive s).session.stage ≠ .done → unsent s tr = []) ∧
      reports (Drive.outputs (polls s tr)) = (Link.log s trL).emitted.filterMap Action.report? ∧
      ∃ front torn, l.chan s = front ++ unsent s.other tr ∧ (x.drive s).pipe = front.flatMap frame ++ torn ∧
        (unsent s.other tr = [] ∧ torn = [] ∨
          ∃ m k, unsent s.other tr = [m] ∧ k < (frame m).length ∧ torn = (frame m).take k) := by
  obtain ⟨trL, l, hl, hf⟩ := run_follows hhello h
  exact ⟨trL, l, hl, fun s =>
    ⟨(hf s).machine.symm, (hf s).heard, (hf s).said, (hf s).failed, (hf s).told, (hf s).pipe.front⟩⟩

/-! ## Clips end to end -/

def clipsHeard (s : Side) (tr : List Obs) : List Clip := (events s tr).filterMap SessionEvent.clip?

def clipsSent (s : Side) (tr : List Obs) : List Clip := (sent s tr).filterMap Message.clip?

def Unmet (s : Side) (tr : List Obs) : Prop := ∀ ev ∈ events s tr, ev.isPeerHandshake = false

/-- What was queued on side `s` is written in order and the rest waits, but for the first
clips, which the machine dropped before it met its peer. -/
structure Accounted (s : Side) (tr : List Obs) (x : Exchange) : Prop where
  queue : ∃ early rest, queued s tr = early ++ clipsSent s tr ++ rest ∧
    ((x.drive s).session.stage ≠ .done → rest = (x.drive s).session.commands) ∧
    ∃ pre, pre <+: tr ∧ early <+: queued s pre ∧ Unmet s pre
  waiting : (x.drive s).session.machine.phase = .awaitingPeerHandshake → clipsSent s tr = []

theorem clipsSent_append (s : Side) (tr os : List Obs) :
    clipsSent s (tr ++ os) = clipsSent s tr ++ clipsSent s os := by
  unfold clipsSent
  rw [sent_append, List.filterMap_append]

/-- A machine that waits for its peer has reported nothing but the end, if that. -/
theorem Follows.silent (hf : Follows tr x trL l) (hl : Run (Link.system e) always trL l) {s : Side}
    (hp : (x.drive s).session.machine.phase = .awaitingPeerHandshake) :
    (events s tr).filter SessionEvent.isOpen = [] := by
  have hrep : reports (Drive.outputs (polls s tr)) = [] := by
    rw [(hf s).told, ← report?_aboutPeer]
    rcases (Link.run_keeps hl s).greeted with ⟨-, -, h⟩ | ⟨h, -, -⟩
    · unfold Log.peerActions at h
      rw [h, List.filterMap_nil]
    · rw [(hf s).machine, hp] at h
      cases h
  exact hrep

theorem Follows.unmet (hf : Follows tr x trL l) (hl : Run (Link.system e) always trL l) {s : Side}
    (hp : (x.drive s).session.machine.phase = .awaitingPeerHandshake) : Unmet s tr := by
  intro ev hev
  have hclosed := List.filter_eq_nil_iff.mp (hf.silent hl hp) ev hev
  cases ev with
  | closed r => rfl
  | _ => exact absurd rfl hclosed

/-- What happens on the other side changes nothing here. -/
theorem Accounted.other {s : Side} {os : List Obs} (ha : Accounted s tr x)
    (hses : (x'.drive s).session = (x.drive s).session) (hpolls : polls s os = []) (hq : queued s os = []) :
    Accounted s (tr ++ os) x' := by
  have hsent : clipsSent s (tr ++ os) = clipsSent s tr := by
    have : clipsSent s os = [] := by rw [clipsSent, sent, hpolls]; rfl
    rw [clipsSent_append, this, List.append_nil]
  obtain ⟨early, rest, hqu, hrest, pre, hpre, hearly⟩ := ha.queue
  refine ⟨⟨early, rest, ?_, ?_, pre, hpre.trans (List.prefix_append _ _), hearly⟩, ?_⟩
  · rw [queued_append, hq, List.append_nil, hsent, hqu]
  · rw [hses]
    exact hrest
  · rw [hses, hsent]
    exact ha.waiting

theorem Accounted.step {a : Act} {os : List Obs} {dos : List Drive.Obs} {bs : List UInt8}
    (ha : Accounted a.side tr x) (hm : Moves x x' a os dos bs)
    (hu : (x.drive a.side).session.machine.phase = .awaitingPeerHandshake → Unmet a.side tr) :
    Accounted a.side (tr ++ os) x' := by
  obtain ⟨early, rest, hqu, hrest, pre, hpre, hearly, hunmet⟩ := ha.queue
  have hpre' : pre <+: tr ++ os := hpre.trans (List.prefix_append _ _)
  have hopen := Drive.step_open hm.polled
  have hsent : clipsSent a.side os = ((Drive.outputs dos).filterMap Output.sent?).filterMap Message.clip? := by
    rw [clipsSent, sent, hm.own]
  have hnone : ∀ {act : Drive.Act}, a.act = act → (∀ c, act ≠ .queue c) → queued a.side os = [] := by
    intro act hact hne
    rw [hm.queues, Act.queued?, hact]
    cases act with
    | queue c => exact absurd rfl (hne c)
    | _ => rfl
  have hqueue := Drive.step_queued hm.polled
  generalize hact : a.act = act at hqueue
  cases hqueue with
  | queues c hos hmach hst hcs =>
    have hnew : queued a.side os = [c] := by
      rw [hm.queues, Act.queued?, hact]
      rfl
    have hnil : clipsSent a.side (tr ++ os) = clipsSent a.side tr := by
      rw [clipsSent_append, hsent, hos]
      exact List.append_nil _
    refine ⟨⟨early, rest ++ [c], ?_, fun hd => ?_, pre, hpre', hearly, hunmet⟩, ?_⟩
    · rw [queued_append, hnew, hnil, hqu, List.append_assoc _ rest]
    · rw [hcs, if_neg (hopen hd), hrest (hopen hd)]
    · rw [hmach, hnil]
      exact ha.waiting
  | drops c hne hgo hcs hp hmach hos =>
    have hnil : clipsSent a.side (tr ++ os) = [] := by
      rw [clipsSent_append, hsent, hos, ha.waiting hp]
      rfl
    have hr := hrest hgo
    rw [ha.waiting hp, List.append_nil, hr, hcs] at hqu
    refine ⟨⟨early ++ [c], (x'.drive a.side).session.commands, ?_, fun _ => rfl, tr, List.prefix_append _ _, ?_,
      hu hp⟩, fun _ => hnil⟩
    · rw [queued_append, hnone hact hne, hnil, hqu]
      simp
    · rw [hqu]
      exact ⟨(x'.drive a.side).session.commands, by simp⟩
  | takes c hne hgo hcs hp hmach hos =>
    have hr := hrest hgo
    rw [hr, hcs] at hqu
    have hwait : (x'.drive a.side).session.machine.phase ≠ .awaitingPeerHandshake := by simp [hmach, hp]
    rcases hos with hos | ⟨hd, hos⟩
    · have hone : clipsSent a.side (tr ++ os) = clipsSent a.side tr ++ [c] := by
        rw [clipsSent_append, hsent, hos]
        rfl
      refine ⟨⟨early, (x'.drive a.side).session.commands, ?_, fun _ => rfl, pre, hpre', hearly, hunmet⟩,
        fun h => absurd h hwait⟩
      rw [queued_append, hnone hact hne, hone, hqu]
      simp
    · have hnil : clipsSent a.side (tr ++ os) = clipsSent a.side tr := by
        rw [clipsSent_append, hsent, hos]
        exact List.append_nil _
      refine ⟨⟨early, c :: (x'.drive a.side).session.commands, ?_, fun h => absurd hd h, pre, hpre', hearly, hunmet⟩,
        fun h => absurd h hwait⟩
      rw [queued_append, hnone hact hne, List.append_nil, hnil, hqu]
  | keeps hne hcs hclips hready =>
    have hsame : clipsSent a.side (tr ++ os) = clipsSent a.side tr := by
      rw [clipsSent_append, hsent, hclips, List.append_nil]
    refine ⟨⟨early, rest, ?_, fun hd => ?_, pre, hpre', hearly, hunmet⟩, fun hp => ?_⟩
    · rw [queued_append, hnone hact hne, List.append_nil, hsame, hqu]
    · rw [hrest (hopen hd), hcs]
    · rw [hsame]
      refine ha.waiting (not_ready.mp fun hr => ?_)
      rw [hready hr] at hp
      cases hp

theorem Follows.clipsHeard (hf : Follows tr x trL l) (s : Side) : clipsHeard s tr = (Link.log s trL).peerClips := by
  have hreports : (reports (Drive.outputs (polls s tr))).filterMap SessionEvent.clip? = Exchange.clipsHeard s tr :=
    reports_clips _
  rw [← hreports, (hf s).told, report?_clips]
  rfl

/-- What a side wrote was heard by the other or is in the pipe. -/
theorem Follows.flow (hf : Follows tr x trL l) (hl : Run (Link.system e) always trL l) (s : Side) :
    ∃ front, clipsSent s.other tr = Exchange.clipsHeard s tr ++ front ∧ ((x.drive s).pipe = [] → front = []) := by
  obtain ⟨front, -, hfront, -, -⟩ := (hf s).pipe.front
  have hflow := Link.run_flow hl s
  rw [← (hf s.other).said, hfront, ← List.append_assoc] at hflow
  have hsent := List.append_cancel_right hflow
  refine ⟨front.filterMap Message.clip?, ?_, fun he => ?_⟩
  · rw [clipsSent, ← hsent, List.filterMap_append, ← (Link.run_keeps hl s).clips, hf.clipsHeard]
  · have hp := (hf s).pipe
    rw [he] at hp
    have hempty := hp.empty
    rw [hfront] at hempty
    rw [List.append_left_eq_self.mp hempty, List.filterMap_nil]

theorem run_accounted (hhello : ∀ s, (Message.handshake (e s).machine.ownHandshake).Fits)
    (h : Run (system e) Careful tr x) : ∀ s, Accounted s tr x := by
  refine h.invariant (I := fun tr x => ∀ s, Accounted s tr x) (fun x hx s => ?_)
    (fun tr x a x' os hr ih _ hs s => ?_)
  · rw [hx]
    exact ⟨⟨[], [], rfl, fun _ => rfl, [], List.prefix_refl _, List.prefix_refl _, by simp [Unmet, events, polls,
      Drive.events, Drive.outputs]⟩, fun _ => rfl⟩
  · obtain ⟨dos, bs, hm⟩ := step_moves hs
    rcases Side.eq_or_other a.side s with rfl | rfl
    · obtain ⟨trL, l, hl, hf⟩ := run_follows hhello hr
      exact (ih _).step hm (hf.unmet hl)
    · exact (ih _).other (by rw [hm.arrives]) hm.other hm.idle

/-- What a side has heard is what was queued at the other, in order, but for the
first clips and those that are still on their way. -/
theorem run_clipsHeard (hhello : ∀ s, (Message.handshake (e s).machine.ownHandshake).Fits)
    (h : Run (system e) Careful tr x) (s : Side) : ∃ early rest,
    queued s.other tr = early ++ clipsHeard s tr ++ rest ∧
      (∃ pre, pre <+: tr ∧ early <+: queued s.other pre ∧ Unmet s.other pre) ∧
      ((x.drive s).pipe = [] → (x.drive s.other).session.stage ≠ .done →
        rest = (x.drive s.other).session.commands) := by
  obtain ⟨trL, l, hl, hf⟩ := run_follows hhello h
  obtain ⟨early, rest, hqu, hrest, hpre⟩ := (run_accounted hhello h s.other).queue
  obtain ⟨front, hflow, hempty⟩ := hf.flow hl s
  refine ⟨early, front ++ rest, ?_, hpre, fun he hgo => ?_⟩
  · rw [hqu, hflow]
    simp
  · rw [hempty he, hrest hgo, List.nil_append]

end

/-! ## An exchange -/

def careful (_ : List Obs) (x : Exchange) (a : Act) : Bool :=
  decide ((x.drive a.side).Careful a.act) && a.queued?.all fun c => decide (Message.clipboard c).Fits

theorem careful_iff (tr : List Obs) (x : Exchange) (a : Act) (h : careful tr x a = true) : Careful tr x a := by
  simp only [careful, Bool.and_eq_true, decide_eq_true_eq] at h
  refine ⟨h.1, fun c hc => ?_⟩
  rw [hc] at h
  simpa using h.2

def early : Clip := ⟨mimeTextPlain, [1], Bytes.fill 32 0⟩

def copied : Clip := ⟨mimeTextPlain, [2], Bytes.fill 32 0⟩

/-- `right` copies before it knows its peer and after; the second clip arrives in two parts. -/
def hello : List Act :=
  [⟨.left, .start true, 0⟩, ⟨.right, .start true, 0⟩, ⟨.right, .queue early, 0⟩, ⟨.right, .command true, 0⟩,
    ⟨.left, .arrive 1000, 0⟩, ⟨.left, .read 0 0 true, 0⟩, ⟨.right, .arrive 1000, 0⟩, ⟨.right, .read 0 0 true, 0⟩,
    ⟨.right, .queue copied, 0⟩, ⟨.right, .command true, 0⟩, ⟨.left, .arrive 3, 0⟩, ⟨.left, .read 0 0 true, 0⟩,
    ⟨.left, .arrive 1000, 0⟩, ⟨.left, .read 0 0 true, 0⟩]

theorem hello_enabled :
    (exec (system Link.twins) careful [] (initial Link.twins) hello).isSome = true := by decide +kernel

theorem twins_fit : ∀ s, (Message.handshake (Link.twins s).machine.ownHandshake).Fits := by
  intro s
  cases s <;> decide

/-- The link's machines know each other after `hello`, and nothing is on its way. -/
theorem run_refines_link_hello :
    let r := (exec (system Link.twins) careful [] (initial Link.twins) hello).get hello_enabled
    ∃ trL l, Run (Link.system Link.twins) always trL l ∧ (r.2.drive .left).session.machine = l.machine .left ∧
      (l.machine .left).phase = .ready ∧
      (Link.log .left trL).received = [.handshake (Link.twins .right).machine.ownHandshake, .clipboard copied] := by
  obtain ⟨trL, l, hl, h⟩ := run_refines_link twins_fit (run_of_exec careful_iff rfl hello_enabled)
  obtain ⟨hm, hh, -⟩ := h .left
  refine ⟨trL, l, hl, hm, ?_, ?_⟩
  · rw [← hm]
    decide +kernel
  · rw [← hh]
    decide +kernel

end Exchange

end PenguinSync
