import Mathlib.Data.List.Count
import PenguinSync.Protocol.Connection

/-!
# The history of one connection machine

A log lists the calls of `handle` on one machine with the actions each of them
returned. A machine whose received messages open with a handshake of our own
version and hold no second one reports the peer first and ignores nothing but
late pongs.
-/

namespace PenguinSync

def Message.isHandshake : Message → Bool
  | .handshake _ => true
  | _ => false

def Message.clip? : Message → Option Clip
  | .clipboard c => some c
  | _ => none

def Event.message? : Event → Option Message
  | .received m => some m
  | _ => none

namespace Action

def message? : Action → Option Message
  | .send m => some m
  | _ => none

def peerClip? : Action → Option Clip
  | .peerClipboard c => some c
  | _ => none

def aboutPeer : Action → Bool
  | .peerHandshake .. | .ponged _ | .peerClipboard _ => true
  | _ => false

def isPeerHandshake : Action → Bool
  | .peerHandshake .. => true
  | _ => false

end Action

def Handshake.report (h : Handshake) : Action :=
  .peerHandshake h.deviceId h.name h.capabilities h.pairingToken

abbrev Log := List (Event × List Action)

/-- The nonce of the ping last sent and those of the pings given up on, after one more action. -/
def pingStep : Option UInt64 × List UInt64 → Action → Option UInt64 × List UInt64
  | (_, lost), .send (.ping p) => (some p.nonce, lost)
  | (last, lost), .keepaliveTimedOut => (none, lost ++ last.toList)
  | acc, _ => acc

def pingLog (as : List Action) : Option UInt64 × List UInt64 := as.foldl pingStep (none, [])

theorem pingLog_append (as bs : List Action) : pingLog (as ++ bs) = bs.foldl pingStep (pingLog as) :=
  List.foldl_append

namespace Log

def emitted (log : Log) : List Action := log.flatMap Prod.snd

def sent (log : Log) : List Message := log.emitted.filterMap Action.message?

def received (log : Log) : List Message := log.filterMap fun e => e.1.message?

def peerActions (log : Log) : List Action := log.emitted.filter Action.aboutPeer

def peerClips (log : Log) : List Clip := log.emitted.filterMap Action.peerClip?

def timedOut (log : Log) : List UInt64 := (pingLog log.emitted).2

def ignored (log : Log) : List UInt64 :=
  log.filterMap fun
    | (.received (.pong p), []) => some p.nonce
    | _ => none

section
variable (log : Log) (e : Event × List Action)

@[simp] theorem emitted_snoc : emitted (log ++ [e]) = log.emitted ++ e.2 := by simp [emitted]

@[simp] theorem sent_snoc : sent (log ++ [e]) = log.sent ++ e.2.filterMap Action.message? := by
  simp [sent]

@[simp] theorem received_snoc : received (log ++ [e]) = log.received ++ e.1.message?.toList := by
  cases h : e.1.message? <;> simp [received, h]

@[simp] theorem peerActions_snoc :
    peerActions (log ++ [e]) = log.peerActions ++ e.2.filter Action.aboutPeer := by
  simp [peerActions]

@[simp] theorem peerClips_snoc :
    peerClips (log ++ [e]) = log.peerClips ++ e.2.filterMap Action.peerClip? := by
  simp [peerClips]

theorem ignored_snoc : ignored (log ++ [e]) = log.ignored ++ ignored [e] := by
  simp [ignored, List.filterMap_append]

end

end Log

/-- The logs of a machine that was `m₀` at first and is `m` now. -/
inductive History (m₀ : ConnectionMachine) : Log → ConnectionMachine → Prop
  | new : History m₀ [] m₀
  | call {log m ev nonce clock m' acts} : History m₀ log m → m.handle ev nonce clock = (m', acts) →
      History m₀ (log ++ [(ev, acts)]) m'

/-! ## What one call does -/

section
variable {m m' : ConnectionMachine} {ev : Event} {nonce : UInt64} {clock : Time} {acts : List Action}

def ConnectionMachine.waits (m : ConnectionMachine) : Option UInt64 := m.pendingPing.map Prod.fst

/-- All that `handle` does when the peer's messages come in the right phase. -/
inductive Turn (m : ConnectionMachine) : Event → ConnectionMachine → List Action → Prop
  | started : Turn m .started m [.send (.handshake m.ownHandshake)]
  | opened (h : Handshake) : m.phase = .awaitingPeerHandshake →
      Turn m (.received (.handshake h)) { m with phase := .ready } [h.report]
  | answered (p : Ping) : m.phase = .ready → Turn m (.received (.ping p)) m [.send (.pong ⟨p.nonce⟩)]
  | ponged (p : Pong) (rtt : Time) : m.phase = .ready → m.waits = some p.nonce →
      Turn m (.received (.pong p)) { m with pendingPing := none } [.ponged rtt]
  | late (p : Pong) : m.phase = .ready → m.waits ≠ some p.nonce → Turn m (.received (.pong p)) m []
  | clip (c : Clip) : m.phase = .ready → Turn m (.received (.clipboard c)) m [.peerClipboard c]
  | idle (now : Time) (last : Option Time) : Turn m (.tick now) { m with lastPingSent := last } []
  | pinged (now : Time) (n next : UInt64) : m.phase = .ready → m.waits = none →
      Turn m (.tick now) { m with nextNonce := next, lastPingSent := some now, pendingPing := some (n, now) }
        [.send (.ping ⟨n⟩)]
  | lost (now : Time) (n : UInt64) : m.phase = .ready → m.waits = some n →
      Turn m (.tick now) { m with pendingPing := none } [.keepaliveTimedOut]
  | shared (c : Clip) : m.phase = .ready → Turn m (.sendClipboard c) m [.send (.clipboard c)]
  | dropped (c : Clip) : m.phase = .awaitingPeerHandshake → Turn m (.sendClipboard c) m []

theorem not_ready : m.phase ≠ .ready ↔ m.phase = .awaitingPeerHandshake := by
  cases m.phase <;> simp

/-- A message is in its place if it is a handshake of our version before any
other message, or anything else after that. -/
def Message.expected (m : ConnectionMachine) : Message → Prop
  | .handshake h => m.phase = .awaitingPeerHandshake ∧ h.version = protocolVersion
  | _ => m.phase = .ready

theorem Call.turn (hc : Call m nonce clock ev m' acts) (he : ∀ msg, ev = .received msg → msg.expected m) :
    Turn m ev m' acts := by
  have hwaits : ∀ {n : UInt64} {sentAt : Time}, m.pendingPing = some (n, sentAt) → m.waits = some n := by
    intro n sentAt hp
    rw [ConnectionMachine.waits, hp]
    rfl
  cases hc with
  | started => exact .started
  | rejected h _ hv => exact absurd (he _ rfl).2 hv
  | opened h hp _ => exact .opened h hp
  | repeated h hr => exact absurd (he _ rfl).1 (by simp [hr])
  | premature msg hp hn =>
    have hm := he _ rfl
    cases msg with
    | handshake h => exact absurd rfl (hn h)
    | _ =>
      have hr : m.phase = .ready := hm
      rw [hp] at hr
      cases hr
  | answered p hr => exact .answered p hr
  | ponged p sentAt hr hp => exact .ponged p _ hr (hwaits hp)
  | stale p hr hp =>
    refine .late p hr fun hw => ?_
    obtain ⟨⟨n, sentAt⟩, hp', rfl⟩ := Option.map_eq_some_iff.mp hw
    exact hp sentAt hp'
  | clip c hr => exact .clip c hr
  | early now _ => exact .idle now m.lastPingSent
  | waiting now _ _ _ _ _ => exact .idle now m.lastPingSent
  | lost now _ n hr hp _ => exact .lost now n hr (hwaits hp)
  | baseline now _ _ _ => exact .idle now (some now)
  | undue now _ _ _ _ _ => exact .idle now m.lastPingSent
  | pinged now _ hr hp _ _ => exact .pinged now nonce _ hr (by rw [ConnectionMachine.waits, hp]; rfl)
  | shared c hr => exact .shared c hr
  | dropped c hp => exact .dropped c hp

theorem handle_turn (h : m.handle ev nonce clock = (m', acts))
    (he : ∀ msg, ev = .received msg → msg.expected m) : Turn m ev m' acts :=
  (handle_call h).turn he

end

/-! ## What no call does -/

section
variable (m : ConnectionMachine) (ev : Event) (nonce : UInt64) (clock : Time)

theorem handle_ownHandshake : (m.handle ev nonce clock).1.ownHandshake = m.ownHandshake := by
  have hc : ∀ {m' acts}, Call m nonce clock ev m' acts → m'.ownHandshake = m.ownHandshake := by
    intro m' acts hc
    cases hc <;> rfl
  exact hc (handle_call rfl)

theorem History.ownHandshake {m₀ : ConnectionMachine} {log : Log} {m : ConnectionMachine} (h : History m₀ log m) :
    m.ownHandshake = m₀.ownHandshake := by
  induction h with
  | new => rfl
  | @call log m ev nonce clock m' acts _ hc ih =>
    rw [← ih, ← handle_ownHandshake m ev nonce clock, hc]

theorem handle_no_handshake (h : ev ≠ .started) :
    ∀ msg ∈ (m.handle ev nonce clock).2.filterMap Action.message?, msg.isHandshake = false := by
  have hc : ∀ {m' acts}, Call m nonce clock ev m' acts →
      ∀ msg ∈ acts.filterMap Action.message?, msg.isHandshake = false := by
    intro m' acts hc
    cases hc with
    | started => exact absurd rfl h
    | _ => simp [Action.message?, Message.isHandshake]
  exact hc (handle_call rfl)

end

/-! ## A peer that opens with its handshake -/

/-- `h` first and no second handshake. -/
def Opens (h : Handshake) (ms : List Message) : Prop :=
  ms = [] ∨ ∃ rest, ms = .handshake h :: rest ∧ ∀ m ∈ rest, m.isHandshake = false

section
variable {h : Handshake} {ms ns : List Message} {msg : Message}

theorem Opens.append_left (ho : Opens h (ms ++ ns)) : Opens h ms := by
  rcases ho with he | ⟨rest, he, hr⟩
  · exact Or.inl (List.append_eq_nil_iff.mp he).1
  · cases ms with
    | nil => exact Or.inl rfl
    | cons m ms =>
      simp only [List.cons_append, List.cons.injEq] at he
      obtain ⟨rfl, rfl⟩ := he
      exact Or.inr ⟨ms, rfl, fun m hm => hr m (by simp [hm])⟩

theorem Opens.first (ho : Opens h (msg :: ns)) : msg = .handshake h := by
  rcases ho with he | ⟨rest, he, -⟩
  · cases he
  · simp only [List.cons.injEq] at he
    exact he.1

theorem Opens.later (ho : Opens h (ms ++ msg :: ns)) (hne : ms ≠ []) : msg.isHandshake = false := by
  rcases ho with he | ⟨rest, he, hr⟩
  · simp at he
  · cases ms with
    | nil => exact absurd rfl hne
    | cons m ms =>
      simp only [List.cons_append, List.cons.injEq] at he
      obtain ⟨rfl, rfl⟩ := he
      exact hr _ (by simp)

theorem Opens.append (ho : Opens h ms) (hne : ms ≠ []) (hn : ∀ m ∈ ns, m.isHandshake = false) :
    Opens h (ms ++ ns) := by
  rcases ho with rfl | ⟨rest, rfl, hr⟩
  · exact absurd rfl hne
  · refine Or.inr ⟨rest ++ ns, rfl, fun m hm => ?_⟩
    rcases List.mem_append.mp hm with hm | hm
    · exact hr m hm
    · exact hn m hm

end

/-- Either nothing was heard, or the handshake was, and was reported first and once. -/
def Greeted (h : Handshake) (m : ConnectionMachine) (log : Log) : Prop :=
  m.phase = .awaitingPeerHandshake ∧ log.received = [] ∧ log.peerActions = [] ∨
    m.phase = .ready ∧ log.received ≠ [] ∧
      ∃ rest, log.peerActions = h.report :: rest ∧ ∀ a ∈ rest, a.isPeerHandshake = false

/-- What a machine has made of a peer that opened with `h`. -/
structure Keeps (h : Handshake) (m : ConnectionMachine) (log : Log) : Prop where
  greeted : Greeted h m log
  clips : log.peerClips = log.received.filterMap Message.clip?
  answered : ∀ e ∈ log, ∀ p, e.1 = .received (.ping p) → e.2 = [.send (.pong ⟨p.nonce⟩)]
  pongs : ∀ n, log.sent.count (.pong ⟨n⟩) = log.received.count (.ping ⟨n⟩)
  -- a ping that was sent is waited for, lost, or met by a pong
  pings : ∀ n, log.received.count (.pong ⟨n⟩) + log.timedOut.count n + (if m.waits = some n then 1 else 0) =
    log.sent.count (.ping ⟨n⟩) + log.ignored.count n
  last : ∀ n, m.waits = some n → (pingLog log.emitted).1 = some n

section
variable {h : Handshake} {m m' : ConnectionMachine} {log : Log} {ev : Event} {nonce : UInt64} {clock : Time}
  {acts : List Action}

theorem Greeted.expected (hg : Greeted h m log) (hv : h.version = protocolVersion)
    (ho : Opens h (log.received ++ ev.message?.toList)) : ∀ msg, ev = .received msg → msg.expected m := by
  rintro msg rfl
  simp only [Event.message?, Option.toList_some] at ho
  rcases hg with ⟨hp, hr, -⟩ | ⟨hp, hr, -⟩
  · rw [hr, List.nil_append] at ho
    rw [ho.first]
    exact ⟨hp, hv⟩
  · have := ho.later hr
    cases msg with
    | handshake h' => simp [Message.isHandshake] at this
    | ping _ => exact hp
    | pong _ => exact hp
    | clipboard _ => exact hp

/-- A call that keeps the phase and, before the handshake, hears and reports nothing. -/
theorem Greeted.call (hg : Greeted h m log) (hph : m'.phase = m.phase)
    (hn : ∀ a ∈ acts.filter Action.aboutPeer, a.isPeerHandshake = false)
    (ha : m.phase = .awaitingPeerHandshake → ev.message? = none ∧ acts.filter Action.aboutPeer = []) :
    Greeted h m' (log ++ [(ev, acts)]) := by
  rcases hg with ⟨hp, hr, hpa⟩ | ⟨hp, hr, rest, hpa, hrest⟩
  · obtain ⟨hm, he⟩ := ha hp
    exact Or.inl ⟨hph.trans hp, by simp [hr, hm], by simp [hpa, he]⟩
  · refine Or.inr ⟨hph.trans hp, by simp [hr], rest ++ acts.filter Action.aboutPeer, by simp [hpa], ?_⟩
    intro a hmem
    rcases List.mem_append.mp hmem with h1 | h1
    · exact hrest a h1
    · exact hn a h1

theorem Greeted.turn (hg : Greeted h m log) (ht : Turn m ev m' acts)
    (ho : Opens h (log.received ++ ev.message?.toList)) : Greeted h m' (log ++ [(ev, acts)]) := by
  have hready : m.phase = .ready → m.phase = .awaitingPeerHandshake →
      ev.message? = none ∧ acts.filter Action.aboutPeer = [] := fun h1 h2 => by rw [h1] at h2; cases h2
  cases ht with
  | opened h' hp =>
    rcases hg with ⟨-, hr, hpa⟩ | ⟨hp', -⟩
    · simp only [hr, Event.message?, Option.toList_some, List.nil_append] at ho
      have hh := ho.first
      simp only [Message.handshake.injEq] at hh
      subst hh
      exact Or.inr ⟨rfl, by simp [Event.message?], [], by simp [hpa, Handshake.report, Action.aboutPeer], by simp⟩
    · rw [hp] at hp'; cases hp'
  | started => exact hg.call rfl (by simp [Action.aboutPeer]) (fun _ => ⟨rfl, rfl⟩)
  | idle now last => exact hg.call rfl (by simp) (fun _ => ⟨rfl, rfl⟩)
  | dropped c hp => exact hg.call rfl (by simp) (fun _ => ⟨rfl, rfl⟩)
  | answered p hp => exact hg.call rfl (by simp [Action.aboutPeer]) (hready hp)
  | ponged p rtt hp _ => exact hg.call rfl (by simp [Action.aboutPeer, Action.isPeerHandshake]) (hready hp)
  | late p hp _ => exact hg.call rfl (by simp) (hready hp)
  | clip c hp => exact hg.call rfl (by simp [Action.aboutPeer, Action.isPeerHandshake]) (hready hp)
  | pinged now n next hp _ => exact hg.call rfl (by simp [Action.aboutPeer]) (hready hp)
  | lost now n hp _ => exact hg.call rfl (by simp [Action.aboutPeer]) (hready hp)
  | shared c hp => exact hg.call rfl (by simp [Action.aboutPeer]) (hready hp)

theorem Turn.clips (ht : Turn m ev m' acts) :
    acts.filterMap Action.peerClip? = ev.message?.toList.filterMap Message.clip? := by
  cases ht <;> rfl

theorem Turn.answers (ht : Turn m ev m' acts) {p : Ping} (he : ev = .received (.ping p)) :
    acts = [.send (.pong ⟨p.nonce⟩)] := by
  cases ht <;> simp_all

theorem Turn.pongs (ht : Turn m ev m' acts) (n : UInt64) :
    (acts.filterMap Action.message?).count (.pong ⟨n⟩) = ev.message?.toList.count (.ping ⟨n⟩) := by
  cases ht with
  | answered p _ =>
    obtain ⟨k⟩ := p
    simp [Action.message?, Event.message?, List.count_singleton]
  | _ => simp [List.filterMap_cons, Action.message?, Event.message?, Handshake.report]

theorem Turn.pings (ht : Turn m ev m' acts) (n : UInt64) {last : Option UInt64} (lost : List UInt64)
    (hl : ∀ k, m.waits = some k → last = some k) :
    ev.message?.toList.count (.pong ⟨n⟩) + (acts.foldl pingStep (last, lost)).2.count n +
        (if m'.waits = some n then 1 else 0) =
      (acts.filterMap Action.message?).count (.ping ⟨n⟩) + (Log.ignored [(ev, acts)]).count n +
        (lost.count n + if m.waits = some n then 1 else 0) := by
  cases ht with
  | ponged p rtt _ hw =>
    obtain ⟨k⟩ := p
    have h' : ({ m with pendingPing := none } : ConnectionMachine).waits = none := rfl
    simp [h', hw, pingStep, Event.message?, Action.message?, Log.ignored, List.count_singleton,
      List.filterMap_cons, Nat.add_comm]
  | late p _ hw =>
    obtain ⟨k⟩ := p
    simp [Event.message?, Log.ignored, List.count_singleton]
    omega
  | pinged now k next _ hw =>
    have h' : ({ m with nextNonce := next, lastPingSent := some now, pendingPing := some (k, now) } :
        ConnectionMachine).waits = some k := rfl
    simp [h', hw, pingStep, Event.message?, Action.message?, Log.ignored, List.count_singleton, Nat.add_comm]
  | lost now k _ hw =>
    have h' : ({ m with pendingPing := none } : ConnectionMachine).waits = none := rfl
    simp [h', hw, hl k hw, pingStep, Event.message?, Action.message?, Log.ignored, List.filterMap_cons,
      List.count_singleton]
  | idle now last' =>
    have h' : ({ m with lastPingSent := last' } : ConnectionMachine).waits = m.waits := rfl
    simp [h', Event.message?, Log.ignored]
  | opened h' hp =>
    have h' : ({ m with phase := .ready } : ConnectionMachine).waits = m.waits := rfl
    simp [h', Event.message?, Log.ignored, Handshake.report, pingStep, List.filterMap_cons, Action.message?]
  | _ => simp [Event.message?, Log.ignored, pingStep, List.filterMap_cons, Action.message?]

theorem Turn.last (ht : Turn m ev m' acts) {last : Option UInt64} (lost : List UInt64)
    (hl : ∀ k, m.waits = some k → last = some k) :
    ∀ k, m'.waits = some k → (acts.foldl pingStep (last, lost)).1 = some k := by
  cases ht with
  | pinged now k next _ _ => exact fun k' hk => hk
  | ponged p rtt _ _ => intro k hk; cases hk
  | lost now k _ _ => intro k hk; cases hk
  | _ => exact hl

theorem Keeps.turn (hk : Keeps h m log) (ht : Turn m ev m' acts)
    (ho : Opens h (log.received ++ ev.message?.toList)) : Keeps h m' (log ++ [(ev, acts)]) where
  greeted := hk.greeted.turn ht ho
  clips := by
    rw [Log.peerClips_snoc, Log.received_snoc, List.filterMap_append, hk.clips]
    exact congrArg _ ht.clips
  answered := by
    intro e he p hp
    rcases List.mem_append.mp he with he | he
    · exact hk.answered e he p hp
    · rw [List.mem_singleton] at he
      subst he
      exact ht.answers hp
  pongs := by
    intro n
    rw [Log.sent_snoc, Log.received_snoc, List.count_append, List.count_append, hk.pongs n]
    exact congrArg _ (ht.pongs n)
  pings := by
    intro n
    have h1 := hk.pings n
    have h2 := ht.pings n (pingLog log.emitted).2 hk.last
    rw [← pingLog_append, ← Log.emitted_snoc log (ev, acts)] at h2
    simp only [Log.received_snoc, Log.sent_snoc, Log.ignored_snoc, List.count_append]
    unfold Log.timedOut at h1 ⊢
    omega
  last := by
    rw [Log.emitted_snoc, pingLog_append]
    exact ht.last _ hk.last

/-- A machine whose peer opens with a handshake of our version keeps track of it in every history. -/
theorem History.keeps {m₀ : ConnectionMachine} (hh : History m₀ log m)
    (h0 : m₀.phase = .awaitingPeerHandshake) (hw : m₀.waits = none) (hv : h.version = protocolVersion)
    (ho : Opens h log.received) : Keeps h m log := by
  induction hh with
  | new =>
    refine ⟨Or.inl ⟨h0, rfl, rfl⟩, rfl, by simp, fun _ => rfl, fun n => ?_, fun n hn => ?_⟩
    · simp [hw, Log.received, Log.timedOut, Log.emitted, pingLog, Log.sent, Log.ignored]
    · rw [hw] at hn; cases hn
  | @call log m ev nonce clock m' acts hl hc ih =>
    rw [Log.received_snoc] at ho
    have hk := ih ho.append_left
    exact hk.turn (handle_turn hc (hk.greeted.expected hv ho)) ho

end

end PenguinSync
