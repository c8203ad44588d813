import PenguinSync.Protocol.Pairing

/-!
# The connection machine

`handle` takes the event, the nonce the caller's generator would return and the
reading of the clock at which a round trip would be measured.
-/

namespace PenguinSync

structure LocalIdentity where
  deviceId : DeviceId
  name : String
  capabilities : List Capability
  deriving DecidableEq

inductive Event where
  | started
  | received (m : Message)
  | tick (now : Time)
  | sendClipboard (c : Clip)
  deriving DecidableEq

inductive RejectReason where
  | versionMismatch (ours theirs : UInt16)
  deriving DecidableEq

inductive Action where
  | send (m : Message)
  | peerHandshake (deviceId : DeviceId) (name : String) (capabilities : List Capability)
      (pairingToken : Option TokenBytes)
  | ponged (rtt : Time)
  | peerClipboard (c : Clip)
  | keepaliveTimedOut
  | reject (reason : RejectReason)
  deriving DecidableEq

def pongTimeoutMultiplier : Nat := 3

inductive Phase where
  | awaitingPeerHandshake
  | ready
  deriving DecidableEq

structure ConnectionMachine where
  phase : Phase
  localId : LocalIdentity
  outgoingPairingToken : Option TokenBytes
  keepaliveInterval : Time
  lastPingSent : Option Time
  pendingPing : Option (UInt64 × Time)
  nextNonce : UInt64
  deriving DecidableEq

namespace ConnectionMachine

def new (localId : LocalIdentity) (keepaliveInterval : Time) (outgoingPairingToken : Option TokenBytes) :
    ConnectionMachine :=
  { phase := .awaitingPeerHandshake, localId, outgoingPairingToken, keepaliveInterval
    lastPingSent := none, pendingPing := none, nextNonce := 0 }

def ownHandshake (m : ConnectionMachine) : Handshake :=
  { version := protocolVersion, deviceId := m.localId.deviceId, name := m.localId.name
    capabilities := m.localId.capabilities, pairingToken := m.outgoingPairingToken }

def onReceived (m : ConnectionMachine) (msg : Message) (clock : Time) : ConnectionMachine × List Action :=
  match m.phase, msg with
  | .awaitingPeerHandshake, .handshake h =>
    if h.version ≠ protocolVersion then (m, [.reject (.versionMismatch protocolVersion h.version)])
    else ({ m with phase := .ready }, [.peerHandshake h.deviceId h.name h.capabilities h.pairingToken])
  | .ready, .ping p => (m, [.send (.pong ⟨p.nonce⟩)])
  | .ready, .pong p =>
    match m.pendingPing with
    | some (expected, sentAt) =>
      if expected = p.nonce then ({ m with pendingPing := none }, [.ponged (clock - sentAt)]) else (m, [])
    | none => (m, [])
  | .ready, .clipboard c => (m, [.peerClipboard c])
  | _, _ => (m, [])

def onTick (m : ConnectionMachine) (now : Time) (nonce : UInt64) : ConnectionMachine × List Action :=
  if m.phase ≠ .ready then (m, [])
  else
    match m.pendingPing with
    | some (_, sentAt) =>
      if m.keepaliveInterval * pongTimeoutMultiplier ≤ now - sentAt then
        ({ m with pendingPing := none }, [.keepaliveTimedOut])
      else (m, [])
    | none =>
      match m.lastPingSent with
      | none => ({ m with lastPingSent := some now }, [])
      | some last =>
        if m.keepaliveInterval ≤ now - last then
          ({ m with nextNonce := m.nextNonce + 1, lastPingSent := some now, pendingPing := some (nonce, now) },
            [.send (.ping ⟨nonce⟩)])
        else (m, [])

def handle (m : ConnectionMachine) (ev : Event) (nonce : UInt64) (clock : Time) :
    ConnectionMachine × List Action :=
  match ev with
  | .started => (m, [.send (.handshake m.ownHandshake)])
  | .received msg => m.onReceived msg clock
  | .tick now => m.onTick now nonce
  | .sendClipboard c => if m.phase = .ready then (m, [.send (.clipboard c)]) else (m, [])

end ConnectionMachine

/-! ## What one call does -/

/-- All that a call of `handle` can do, and when. -/
inductive Call (m : ConnectionMachine) (nonce : UInt64) (clock : Time) :
    Event → ConnectionMachine → List Action → Prop
  | started : Call m nonce clock .started m [.send (.handshake m.ownHandshake)]
  | rejected (h : Handshake) : m.phase = .awaitingPeerHandshake → h.version ≠ protocolVersion →
      Call m nonce clock (.received (.handshake h)) m [.reject (.versionMismatch protocolVersion h.version)]
  | opened (h : Handshake) : m.phase = .awaitingPeerHandshake → h.version = protocolVersion →
      Call m nonce clock (.received (.handshake h)) { m with phase := .ready }
        [.peerHandshake h.deviceId h.name h.capabilities h.pairingToken]
  | repeated (h : Handshake) : m.phase = .ready → Call m nonce clock (.received (.handshake h)) m []
  | premature (msg : Message) : m.phase = .awaitingPeerHandshake → (∀ h, msg ≠ .handshake h) →
      Call m nonce clock (.received msg) m []
  | answered (p : Ping) : m.phase = .ready →
      Call m nonce clock (.received (.ping p)) m [.send (.pong ⟨p.nonce⟩)]
  | ponged (p : Pong) (sentAt : Time) : m.phase = .ready → m.pendingPing = some (p.nonce, sentAt) →
      Call m nonce clock (.received (.pong p)) { m with pendingPing := none } [.ponged (clock - sentAt)]
  | stale (p : Pong) : m.phase = .ready → (∀ sentAt, m.pendingPing ≠ some (p.nonce, sentAt)) →
      Call m nonce clock (.received (.pong p)) m []
  | clip (c : Clip) : m.phase = .ready → Call m nonce clock (.received (.clipboard c)) m [.peerClipboard c]
  | early (now : Time) : m.phase = .awaitingPeerHandshake → Call m nonce clock (.tick now) m []
  | waiting (now sentAt : Time) (n : UInt64) : m.phase = .ready → m.pendingPing = some (n, sentAt) →
      now - sentAt < m.keepaliveInterval * pongTimeoutMultiplier → Call m nonce clock (.tick now) m []
  | lost (now sentAt : Time) (n : UInt64) : m.phase = .ready → m.pendingPing = some (n, sentAt) →
      m.keepaliveInterval * pongTimeoutMultiplier ≤ now - sentAt →
      Call m nonce clock (.tick now) { m with pendingPing := none } [.keepaliveTimedOut]
  | baseline (now : Time) : m.phase = .ready → m.pendingPing = none → m.lastPingSent = none →
      Call m nonce clock (.tick now) { m with lastPingSent := some now } []
  | undue (now last : Time) : m.phase = .ready → m.pendingPing = none → m.lastPingSent = some last →
      now - last < m.keepaliveInterval → Call m nonce clock (.tick now) m []
  | pinged (now last : Time) : m.phase = .ready → m.pendingPing = none → m.lastPingSent = some last →
      m.keepaliveInterval ≤ now - last → Call m nonce clock (.tick now)
        { m with nextNonce := m.nextNonce + 1, lastPingSent := some now, pendingPing := some (nonce, now) }
        [.send (.ping ⟨nonce⟩)]
  | shared (c : Clip) : m.phase = .ready → Call m nonce clock (.sendClipboard c) m [.send (.clipboard c)]
  | dropped (c : Clip) : m.phase = .awaitingPeerHandshake → Call m nonce clock (.sendClipboard c) m []

section
variable (m : ConnectionMachine) (nonce : UInt64) (clock : Time)

theorem onReceived_call (msg : Message) :
    Call m nonce clock (.received msg) (m.onReceived msg clock).1 (m.onReceived msg clock).2 := by
  cases hp : m.phase with
  | awaitingPeerHandshake =>
    cases msg with
    | handshake h =>
      simp only [ConnectionMachine.onReceived, hp]
      by_cases hv : h.version ≠ protocolVersion
      · rw [if_pos hv]
        exact .rejected h hp hv
      · rw [if_neg hv]
        exact .opened h hp (not_not.mp hv)
    | ping p =>
      simp only [ConnectionMachine.onReceived, hp]
      exact .premature _ hp (by simp)
    | pong p =>
      simp only [ConnectionMachine.onReceived, hp]
      exact .premature _ hp (by simp)
    | clipboard c =>
      simp only [ConnectionMachine.onReceived, hp]
      exact .premature _ hp (by simp)
  | ready =>
    cases msg with
    | handshake h =>
      simp only [ConnectionMachine.onReceived, hp]
      exact .repeated h hp
    | ping p =>
      simp only [ConnectionMachine.onReceived, hp]
      exact .answered p hp
    | pong p =>
      simp only [ConnectionMachine.onReceived, hp]
      cases hw : m.pendingPing with
      | none => exact .stale p hp (by simp [hw])
      | some q =>
        obtain ⟨expected, sentAt⟩ := q
        by_cases hn : expected = p.nonce
        · simp only [if_pos hn]
          exact hp ▸ .ponged p sentAt hp (hn ▸ hw)
        · simp only [if_neg hn]
          exact .stale p hp (by simp [hw, hn])
    | clipboard c =>
      simp only [ConnectionMachine.onReceived, hp]
      exact .clip c hp

theorem onTick_call (now : Time) :
    Call m nonce clock (.tick now) (m.onTick now nonce).1 (m.onTick now nonce).2 := by
  unfold ConnectionMachine.onTick
  cases hp : m.phase with
  | awaitingPeerHandshake => exact .early now hp
  | ready =>
    rw [if_neg (by simp)]
    cases hw : m.pendingPing with
    | some q =>
      obtain ⟨n, sentAt⟩ := q
      by_cases ht : m.keepaliveInterval * pongTimeoutMultiplier ≤ now - sentAt
      · simp only [if_pos ht]
        exact hp ▸ .lost now sentAt n hp hw ht
      · simp only [if_neg ht]
        exact .waiting now sentAt n hp hw (Nat.lt_of_not_le ht)
    | none =>
      cases hl : m.lastPingSent with
      | none =>
        have hc : Call m nonce clock (.tick now) _ _ := .baseline now hp hw hl
        rwa [hp, hw] at hc
      | some last =>
        by_cases hd : m.keepaliveInterval ≤ now - last
        · simp only [if_pos hd]
          exact hp ▸ .pinged now last hp hw hl hd
        · simp only [if_neg hd]
          exact .undue now last hp hw hl (Nat.lt_of_not_le hd)

variable {m nonce clock}

theorem handle_call {ev : Event} {m' : ConnectionMachine} {acts : List Action}
    (h : m.handle ev nonce clock = (m', acts)) : Call m nonce clock ev m' acts := by
  have hm : m' = (m.handle ev nonce clock).1 := by rw [h]
  have ha : acts = (m.handle ev nonce clock).2 := by rw [h]
  subst hm ha
  cases ev with
  | started => exact .started
  | received msg => exact onReceived_call m nonce clock msg
  | tick now => exact onTick_call m nonce clock now
  | sendClipboard c =>
    unfold ConnectionMachine.handle
    cases hp : m.phase with
    | ready => exact .shared c hp
    | awaitingPeerHandshake => exact .dropped c hp

variable {ev : Event} {m' : ConnectionMachine} {acts : List Action}

theorem Call.ready (hc : Call m nonce clock ev m' acts) (h : m.phase = .ready) : m'.phase = .ready := by
  cases hc with
  | opened _ _ _ => rfl
  | _ => exact h

theorem ConnectionMachine.handle_ready (h : m.phase = .ready) : (m.handle ev nonce clock).1.phase = .ready :=
  (handle_call rfl).ready h

end

end PenguinSync
