import Mathlib.Data.Finmap
import PenguinSync.Net.Session
import PenguinSync.Net.Trust
import PenguinSync.Daemon.State

/-!
# The daemon's state

One record holds what the tasks share and where each task stands: the
orchestrator, the clipboard watch, the driving task of every connection, the
D-Bus calls in flight and the loop of `main` that exports the devices of the
file, with those it has still to come to. A session handle is the index of its
connection.
The orchestrator alone uses `remoteToDevice` and `remoteHandles`, so these are
read and written in the step that needs them; everything else is touched in
one step per lock or call.
-/

namespace PenguinSync

abbrev HashMap (K V : Type) := Finmap fun _ : K => V

namespace HashMap

variable {K V : Type} [DecidableEq K] {m : HashMap K V} {a b : K} {v w : V}

def values (m : HashMap K V) : Multiset V := m.entries.map Sigma.snd

theorem mem_iff : a ∈ m ↔ ∃ v, m.lookup a = some v := Finmap.mem_iff

theorem mem_values : v ∈ m.values ↔ ∃ a, m.lookup a = some v := by
  unfold values
  rw [Multiset.mem_map]
  constructor
  · rintro ⟨⟨a, v⟩, hm, rfl⟩
    exact ⟨a, Finmap.lookup_eq_some_iff.mpr hm⟩
  · rintro ⟨a, hm⟩
    exact ⟨⟨a, v⟩, Finmap.lookup_eq_some_iff.mp hm, rfl⟩

theorem lookup_insert_some : (m.insert a v).lookup b = some w ↔ b = a ∧ v = w ∨ b ≠ a ∧ m.lookup b = some w := by
  by_cases h : b = a
  · subst h
    simp
  · simp [Finmap.lookup_insert_of_ne _ h, h]

theorem lookup_erase_some : (m.erase a).lookup b = some w ↔ b ≠ a ∧ m.lookup b = some w := by
  by_cases h : b = a
  · subst h
    simp
  · simp [Finmap.lookup_erase_ne h, h]

end HashMap

structure Config where
  crypto : Crypto
  localId : LocalIdentity

inductive ListenerEvent where
  | connected (remote : SocketAddr) (handle : Nat)
  | session (remote : SocketAddr) (event : SessionEvent)
  deriving DecidableEq

/-- `spki` is the key the peer authenticated with; `events` is what the driving
task has sent and the drain has not yet passed on. -/
structure Connection where
  remote : SocketAddr
  spki : List UInt8
  session : Session
  events : List SessionEvent

structure Device1 where
  name : String
  deviceId : String
  connected : Bool

/-- What the desktop's clipboard holds. -/
structure Content where
  mime : String
  bytes : List UInt8
  deriving DecidableEq

/-! ## Where the tasks stand -/

structure Handling where
  session : Nat
  remote : SocketAddr
  deviceId : DeviceId
  name : String
  pairingToken : Option TokenBytes
  deriving DecidableEq

inductive HandshakePc where
  | isPaired
  | redeem (presented : TokenBytes)
  | pairingRequested
  | awaitConfirmation
  | awaiting (channel : Nat) (deadline : Time) (answer : Option Bool)
  | pin
  | closeWindow
  | upsert
  | persist
  | ensureObject
  | createObject
  | setConnected
  | promote
  deriving DecidableEq

structure Received where
  session : Nat
  sender : DeviceId
  clip : Clip
  deriving DecidableEq

inductive ReceivedPc where
  | isPaired
  | shouldBroadcast
  | write
  | handles
  | relay (rest : HashMap DeviceId Nat)
  deriving DecidableEq

inductive ClosedPc where
  | disconnect
  | setConnected
  deriving DecidableEq

inductive Orchestrator where
  | idle
  | handshake (h : Handling) (pc : HandshakePc)
  | received (r : Received) (pc : ReceivedPc)
  | closed (id : DeviceId) (pc : ClosedPc)
  deriving DecidableEq

/-- `off` until the backend is found and again once its change stream ended. -/
inductive Watch where
  | off
  | idle
  | reading (mime : String)
  | checking (c : Clip)
  | handles (c : Clip)
  | sending (c : Clip) (rest : HashMap DeviceId Nat)
  deriving DecidableEq

/-- `opened` once the call has opened the pairing window. -/
structure StartPairingCall where
  random : TokenBytes
  now : Time
  opened : Bool

inductive UnpairPc where
  | unpin
  | remove
  | persist
  | removeObject
  deriving DecidableEq

structure UnpairCall where
  call : Nat
  id : DeviceId
  pc : UnpairPc

/-! ## The state -/

structure Daemon where
  now : Time
  connections : List Connection
  queue : List (Nat × ListenerEvent)
  trust : TrustStore
  state : PersistedState
  file : Option PersistedState
  currentToken : Option PairingToken
  pendingConfirmations : HashMap DeviceId Nat
  nextChannel : Nat
  remoteToDevice : HashMap SocketAddr DeviceId
  remoteHandles : HashMap SocketAddr Nat
  connectedDevices : HashMap DeviceId Nat
  objects : HashMap DeviceId Device1
  restoring : List PersistedDevice
  backend : Bool
  lastHash : Option (Bytes 32)
  clipboard : Content
  changes : List String
  orchestrator : Orchestrator
  watch : Watch
  startPairings : List StartPairingCall
  unpairs : List UnpairCall
  nextCall : Nat

/-- The two loops that check `last_hash` and send clips. -/
inductive ClipLoop where
  | watch
  | received
  deriving DecidableEq

inductive Obs where
  | out (i : Nat) (o : Output)
  | startedPairing (qr : QrPayload) (fingerprint : String)
  | tokenSet (bytes : TokenBytes) (issuedAt : Time)
  | redeemed (id : DeviceId) (bytes : TokenBytes) (at_ : Time)
  | pairingRequested (deviceId fingerprint name : String)
  | invalidArgs (message : String)
  | confirmed (id : DeviceId) (accept : Bool)
  | pinned (id : DeviceId)
  | unpairCalled (call : Nat) (id : DeviceId)
  | unpinned (call : Nat) (id : DeviceId)
  | removed (call : Nat) (id : DeviceId)
  | saved (call : Nat) (id : DeviceId) (ok : Bool)
  | unpaired (call : Nat) (id : DeviceId)
  | recorded (i : Nat) (id : DeviceId)
  | promoted (i : Nat) (id : DeviceId) (handle : Nat)
  | closed (i : Nat)
  | accepted (i : Nat) (id : DeviceId) (c : Clip)
  | checked (loop : ClipLoop) (c : Clip)
  | applied (id : DeviceId) (c : Clip)
  | handed (loop : ClipLoop) (id : DeviceId) (i : Nat) (c : Clip)
  | copied (c : Content)
  deriving DecidableEq

namespace Daemon

/-- `persist_state`; the file stays as it was where the save fails. -/
def persistState (s : Daemon) (ok : Bool) : Daemon := if ok then { s with file := some s.state } else s

def sendClipboard (s : Daemon) (i : Nat) (c : Clip) : Daemon :=
  { s with connections := s.connections.modify i fun k => { k with session := k.session.sendClipboard c } }

end Daemon

end PenguinSync
