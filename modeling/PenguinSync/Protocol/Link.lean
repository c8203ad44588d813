import Mathlib.Logic.Function.Basic
import PenguinSync.Lib.Lts
import PenguinSync.Protocol.History

/-!
# Two machines over a reliable link

What a side sends waits in the channel of the other side and is delivered in
order. Each side is started before anything else happens to it. The times of
ticks, the clock and the nonces are arbitrary.
-/

namespace PenguinSync

open Lts

inductive Side where
  | left
  | right
  deriving DecidableEq

def Side.other : Side → Side
  | .left => .right
  | .right => .left

@[simp] theorem Side.other_other (s : Side) : s.other.other = s := by cases s <;> rfl

@[simp] theorem Side.other_ne (s : Side) : s.other ≠ s := by cases s <;> decide

@[simp] theorem Side.ne_other (s : Side) : s ≠ s.other := by cases s <;> decide

theorem Side.eq_or_other (s t : Side) : t = s ∨ t = s.other := by
  cases s <;> cases t <;> simp [Side.other]

structure Endpoint where
  localId : LocalIdentity
  keepaliveInterval : Time
  pairingToken : Option TokenBytes

def Endpoint.machine (e : Endpoint) : ConnectionMachine := .new e.localId e.keepaliveInterval e.pairingToken

/-- `chan s` holds what is on its way to `s`. -/
structure Link where
  machine : Side → ConnectionMachine
  chan : Side → List Message
  started : Side → Bool

namespace Link

inductive Act where
  | start (s : Side)
  | deliver (s : Side) (clock : Time)
  | tick (s : Side) (now : Time) (nonce : UInt64)
  | sendClipboard (s : Side) (c : Clip)

structure Call where
  side : Side
  event : Event
  actions : List Action

def call (l : Link) (s : Side) (ev : Event) (nonce : UInt64) (clock : Time) : Link × List Call :=
  let r := (l.machine s).handle ev nonce clock
  ({ l with
      machine := Function.update l.machine s r.1
      chan := Function.update l.chan s.other (l.chan s.other ++ r.2.filterMap Action.message?) },
    [⟨s, ev, r.2⟩])

def step (l : Link) : Act → Option (Link × List Call)
  | .start s =>
    if l.started s then none
    else some (({ l with started := Function.update l.started s true } : Link).call s .started 0 0)
  | .deliver s clock =>
    if l.started s then
      match l.chan s with
      | [] => none
      | msg :: rest =>
        some (({ l with chan := Function.update l.chan s rest } : Link).call s (.received msg) 0 clock)
    else none
  | .tick s now nonce => if l.started s then some (l.call s (.tick now) nonce 0) else none
  | .sendClipboard s c => if l.started s then some (l.call s (.sendClipboard c) 0 0) else none

def initial (e : Side → Endpoint) : Link :=
  { machine := fun s => (e s).machine, chan := fun _ => [], started := fun _ => false }

def system (e : Side → Endpoint) : System Link Act Call := { init := (· = initial e), step }

def log (s : Side) (tr : List Call) : Log :=
  tr.filterMap fun c => if c.side = s then some (c.event, c.actions) else none

theorem log_snoc (s : Side) (tr : List Call) (c : Call) :
    log s (tr ++ [c]) = if c.side = s then log s tr ++ [(c.event, c.actions)] else log s tr := by
  unfold log
  by_cases h : c.side = s <;> simp [h]

@[simp] theorem log_snoc_self (tr : List Call) (c : Call) :
    log c.side (tr ++ [c]) = log c.side tr ++ [(c.event, c.actions)] := by simp [log_snoc]

@[simp] theorem log_snoc_other (tr : List Call) (c : Call) : log c.side.other (tr ++ [c]) = log c.side.other tr := by
  simp [log_snoc]

/-! ## What a step does -/

/-- One side handles an event: a received message leaves its channel, what it
sends enters the other's. -/
structure Moves (l l' : Link) (c : Call) : Prop where
  handled : ∃ nonce clock, (l.machine c.side).handle c.event nonce clock = (l'.machine c.side, c.actions)
  idle : l'.machine c.side.other = l.machine c.side.other
  taken : l.chan c.side = c.event.message?.toList ++ l'.chan c.side
  put : l'.chan c.side.other = l.chan c.side.other ++ c.actions.filterMap Action.message?
  first : c.event = .started ↔ l.started c.side = false
  started : l'.started = Function.update l.started c.side true

section
variable {e : Side → Endpoint} {l l' : Link} {a : Act} {os tr : List Call}

theorem call_moves {l₁ : Link} {s : Side} {ev : Event} (nonce : UInt64) (clock : Time)
    (hm : l₁.machine = l.machine) (ht : l.chan s = ev.message?.toList ++ l₁.chan s)
    (ho : l₁.chan s.other = l.chan s.other) (hf : ev = .started ↔ l.started s = false)
    (hs : l₁.started = Function.update l.started s true) :
    ∃ c, (l₁.call s ev nonce clock).2 = [c] ∧ Moves l (l₁.call s ev nonce clock).1 c := by
  refine ⟨_, rfl, ⟨nonce, clock, ?_⟩, ?_, ?_, ?_, hf, hs⟩
  · simp [call, hm]
  · simp [call, hm]
  · simpa [call] using ht
  · simp [call, ho]

theorem step_moves (h : step l a = some (l', os)) : ∃ c, os = [c] ∧ Moves l l' c := by
  have hsome : ∀ {r : Link × List Call}, some r = some (l', os) → (∃ c, r.2 = [c] ∧ Moves l r.1 c) →
      ∃ c, os = [c] ∧ Moves l l' c := by
    intro r hr hc
    rw [Option.some.injEq] at hr
    rwa [hr] at hc
  cases a with
  | start s =>
    simp only [step] at h
    split at h
    · cases h
    · rename_i hs
      exact hsome h (call_moves 0 0 rfl rfl rfl (by simpa using hs) rfl)
  | deliver s clock =>
    simp only [step] at h
    split at h
    · rename_i hs
      split at h
      · cases h
      · rename_i msg rest hc
        exact hsome h (call_moves 0 clock rfl (by simp [hc, Event.message?]) (by simp) (by simp [hs])
          (by simp [← hs]))
    · cases h
  | tick s now nonce =>
    simp only [step] at h
    split at h
    · rename_i hs
      exact hsome h (call_moves nonce 0 rfl rfl rfl (by simp [hs]) (by simp [← hs]))
    · cases h
  | sendClipboard s c =>
    simp only [step] at h
    split at h
    · rename_i hs
      exact hsome h (call_moves 0 0 rfl rfl rfl (by simp [hs]) (by simp [← hs]))
    · cases h

/-- A property of the trace and the state that every move keeps. -/
theorem run_induction {P : List Call → Link → Prop} (h0 : P [] (initial e))
    (hk : ∀ tr l l' c, Run (system e) always tr l → P tr l → Moves l l' c → P (tr ++ [c]) l')
    (h : Run (system e) always tr l) : P tr l := by
  refine h.invariant (fun s hs => hs ▸ h0) (fun tr s a s' os hr ih _ hs => ?_)
  obtain ⟨c, rfl, hm⟩ := step_moves hs
  exact hk _ _ _ _ hr ih hm

/-! ## First in, first out -/

theorem run_history (h : Run (system e) always tr l) : ∀ s, History (e s).machine (log s tr) (l.machine s) := by
  refine run_induction (P := fun tr l => ∀ s, History (e s).machine (log s tr) (l.machine s))
    (fun s => .new) (fun tr l l' c _ ih hm s => ?_) h
  rcases Side.eq_or_other c.side s with rfl | rfl
  · obtain ⟨nonce, clock, hh⟩ := hm.handled
    rw [log_snoc_self]
    exact .call (ih _) hh
  · rw [log_snoc_other, hm.idle]
    exact ih _

theorem run_flow (h : Run (system e) always tr l) :
    ∀ s, (log s tr).received ++ l.chan s = (log s.other tr).sent := by
  refine run_induction (P := fun tr l => ∀ s, (log s tr).received ++ l.chan s = (log s.other tr).sent)
    (fun s => rfl) (fun tr l l' c _ ih hm s => ?_) h
  rcases Side.eq_or_other c.side s with rfl | rfl
  · rw [log_snoc_self, log_snoc_other, Log.received_snoc, List.append_assoc, ← hm.taken]
    exact ih _
  · rw [log_snoc_other, Side.other_other, log_snoc_self, Log.sent_snoc, hm.put, ← List.append_assoc, ih _,
      Side.other_other]

/-! ## Every side opens with its handshake -/

theorem run_opens (h : Run (system e) always tr l) : ∀ s,
    l.started s = false ∧ log s tr = [] ∨
      l.started s = true ∧ (log s tr).sent ≠ [] ∧ Opens (e s).machine.ownHandshake (log s tr).sent := by
  refine run_induction (P := fun tr l => ∀ s, l.started s = false ∧ log s tr = [] ∨
      l.started s = true ∧ (log s tr).sent ≠ [] ∧ Opens (e s).machine.ownHandshake (log s tr).sent)
    (fun s => Or.inl ⟨rfl, rfl⟩) (fun tr l l' c hr ih hm s => ?_) h
  rcases Side.eq_or_other c.side s with rfl | rfl
  · obtain ⟨nonce, clock, hh⟩ := hm.handled
    refine Or.inr ⟨by simp [hm.started], ?_⟩
    rw [log_snoc_self, Log.sent_snoc]
    by_cases hc : c.event = .started
    · have ha : c.actions = [.send (.handshake (e c.side).machine.ownHandshake)] := by
        rw [hc, ConnectionMachine.handle, Prod.mk.injEq] at hh
        rw [← hh.2, (run_history hr c.side).ownHandshake]
      rcases ih c.side with ⟨-, hl⟩ | ⟨hs, -⟩
      · rw [hl, ha]
        exact ⟨by simp [Action.message?], Or.inr ⟨[], by simp [Log.sent, Log.emitted, Action.message?], by simp⟩⟩
      · rw [hm.first.mp hc] at hs
        cases hs
    · have hn := handle_no_handshake (l.machine c.side) c.event nonce clock hc
      rw [hh] at hn
      rcases ih c.side with ⟨hs, -⟩ | ⟨-, hne, ho⟩
      · exact absurd (hm.first.mpr hs) hc
      · exact ⟨by simp [hne], ho.append hne hn⟩
  · rw [log_snoc_other, hm.started, Function.update_of_ne (Side.other_ne _)]
    exact ih _

theorem run_hears (h : Run (system e) always tr l) (s : Side) :
    Opens (e s.other).machine.ownHandshake ((log s tr).received ++ l.chan s) := by
  rw [run_flow h s]
  rcases run_opens h s.other with ⟨-, hl⟩ | ⟨-, -, ho⟩
  · exact Or.inl (by rw [hl]; rfl)
  · exact ho

theorem run_keeps (h : Run (system e) always tr l) (s : Side) :
    Keeps (e s.other).machine.ownHandshake (l.machine s) (log s tr) :=
  (run_history h s).keeps rfl rfl rfl (run_hears h s).append_left

/-! ## Late pongs -/

/-- A message that led to no action is a pong for a ping that was given up on:
fewer pongs with its nonce were ignored before than pings with it were lost. -/
def Excused (log : Log) : Prop :=
  ∀ (pre : Log) (msg : Message) (post : Log), log = pre ++ (.received msg, []) :: post →
    ∃ p : Pong, msg = .pong p ∧ pre.ignored.count p.nonce < pre.timedOut.count p.nonce

/-- Nothing is lost between the two counts: what was given up on and not yet
ignored is still on its way, as a ping or as a pong. -/
theorem lost_eq (h : Run (system e) always tr l) (s : Side) (n : UInt64) :
    (log s tr).timedOut.count n + (if (l.machine s).waits = some n then 1 else 0) =
      (log s tr).ignored.count n + (l.chan s.other).count (.ping ⟨n⟩) + (l.chan s).count (.pong ⟨n⟩) := by
  have hp := (run_keeps h s).pings n
  have ha := (run_keeps h s.other).pongs n
  have hf := congrArg (List.count (.pong ⟨n⟩)) (run_flow h s)
  have hg := congrArg (List.count (.ping ⟨n⟩)) (run_flow h s.other)
  rw [Side.other_other] at hg
  rw [List.count_append] at hf hg
  omega

theorem run_excused (h : Run (system e) always tr l) : ∀ s, Excused (log s tr) := by
  refine run_induction (P := fun tr _ => ∀ s, Excused (log s tr)) (fun s pre msg post he => ?_)
    (fun tr l l' c hr ih hm s => ?_) h
  · simp [log] at he
  · rcases Side.eq_or_other c.side s with rfl | rfl
    · rw [log_snoc_self]
      intro pre msg post he
      rcases position_snoc he with ⟨-, rfl, hx⟩ | ⟨post', -, he⟩
      · obtain ⟨nonce, clock, hh⟩ := hm.handled
        have ht := hm.taken
        have ho := run_hears hr c.side
        simp only [Prod.mk.injEq] at hx
        rw [ht, ← List.append_assoc] at ho
        have hturn := handle_turn hh ((run_keeps hr c.side).greeted.expected rfl ho.append_left)
        rw [hx.1, hx.2] at hturn
        rw [hx.1] at ht
        generalize l'.machine c.side = m' at hturn
        cases hturn with
        | late p _ hw =>
          have hl := lost_eq hr c.side p.nonce
          have hc : 0 < (l.chan c.side).count (.pong ⟨p.nonce⟩) :=
            List.count_pos_iff.mpr (by simp [ht, Event.message?])
          rw [if_neg hw] at hl
          exact ⟨p, rfl, by omega⟩
      · exact ih c.side pre msg post' he
    · rw [log_snoc_other]
      exact ih _

/-! ## The exchange -/

/-- Whatever the interleaving, a side reports the other once and before anything
else, hears its clips in order, answers its pings, and ignores only late pongs. -/
theorem run_exchange (h : Run (system e) always tr l) (s : Side) :
    ((log s tr).peerActions = [] ∨ ∃ rest, (log s tr).peerActions =
        .peerHandshake (e s.other).localId.deviceId (e s.other).localId.name (e s.other).localId.capabilities
          (e s.other).pairingToken :: rest ∧ ∀ a ∈ rest, a.isPeerHandshake = false) ∧
      (log s tr).peerClips <+: (log s.other tr).sent.filterMap Message.clip? ∧
      (l.chan s = [] → (log s tr).peerClips = (log s.other tr).sent.filterMap Message.clip?) ∧
      (∀ x ∈ log s tr, ∀ p, x.1 = .received (.ping p) → x.2 = [.send (.pong ⟨p.nonce⟩)]) ∧
      Excused (log s tr) := by
  have hk := run_keeps h s
  have hc := congrArg (List.filterMap Message.clip?) (run_flow h s)
  rw [List.filterMap_append, ← hk.clips] at hc
  refine ⟨?_, ⟨_, hc⟩, fun he => ?_, hk.answered, run_excused h s⟩
  · rcases hk.greeted with ⟨-, -, hp⟩ | ⟨-, -, hp⟩
    · exact Or.inl hp
    · exact Or.inr hp
  · rwa [he, List.filterMap_nil, List.append_nil] at hc

end

def twins : Side → Endpoint
  | .left => ⟨⟨Bytes.fill 32 1, "left", []⟩, secs 15, some (Bytes.fill tokenLen 7)⟩
  | .right => ⟨⟨Bytes.fill 32 2, "right", []⟩, secs 15, none⟩

/-- Both open; `right` copies before it is ready, which is dropped, and after. -/
def hello : List Act :=
  [.start .right, .sendClipboard .right ⟨mimeTextPlain, [1], Bytes.fill 32 0⟩, .start .left, .deliver .left 0,
    .deliver .right 0, .sendClipboard .right ⟨mimeTextPlain, [2], Bytes.fill 32 0⟩, .deliver .left 0]

theorem hello_enabled : (exec (system twins) anyway [] (initial twins) hello).isSome = true := by decide

/-- After `hello`, `left` has heard every clip `right` sent. -/
theorem run_exchange_hello :
    let r := (exec (system twins) anyway [] (initial twins) hello).get hello_enabled
    (log .left r.1).peerClips = [⟨mimeTextPlain, [2], Bytes.fill 32 0⟩] ∧
      (log .right r.1).sent.filterMap Message.clip? = (log .left r.1).peerClips :=
  ⟨by decide, ((run_exchange (run_of_anyway rfl hello_enabled) .left).2.2.1 (by decide)).symm⟩

end Link

end PenguinSync
