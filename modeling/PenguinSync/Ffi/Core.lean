import Mathlib.Logic.Function.Basic
import PenguinSync.Net.Reconnect
import PenguinSync.Net.Trust
import PenguinSync.Daemon.State

/-!
# The core behind the FFI

Each call of `pair` that gets as far as dialling starts a dial task and a task
that forwards its events; such a run is known by how many were started before
it. A file is kept as what it parses to: `none` where it is missing and
`some none` where it is malformed.
-/

namespace PenguinSync

open Lts

namespace Ffi

structure Config where
  deviceId : DeviceId
  deviceName : String
  blake3 : List UInt8 → Bytes 32

inductive CoreError where
  | invalidQr (e : String)
  | network (e : String)
  | invalidClipboard (e : ClipError)
  | notConnected
  deriving DecidableEq

/-- A framing error stands for its own text. -/
inductive Reason where
  | text (s : String)
  | framing (e : FramingError)
  deriving DecidableEq

inductive CoreEvent where
  | peerHandshake (deviceId : String) (name : String)
  | ponged (rttMs : UInt64)
  | disconnected (reason : Reason)
  | reconnecting (attempt : UInt32) (delayMs : UInt64)
  | clipboardReceived (text : String)
  deriving DecidableEq

def describeClose : CloseReason → Reason
  | .versionMismatch ours theirs => .text s!"protocol version mismatch (this app: {ours}, peer: {theirs})"
  | .keepaliveTimedOut => .text "connection timed out"
  | .connectionLost s => .text s
  | .framingError e => .framing e

def asMillis (d : Time) : UInt64 := .ofNat (d / 10 ^ 6)

def toCoreEvent : DialerEvent → Option CoreEvent
  | .connected _ => none
  | .reconnecting attempt delay => some (.reconnecting attempt (asMillis delay))
  | .session (.peerHandshake deviceId name _ _) => some (.peerHandshake (toHex deviceId) name)
  | .session (.clipboardReceived c) => (fromUtf8 c.content).map .clipboardReceived
  | .session (.ponged rtt) => some (.ponged (asMillis rtt))
  | .session (.closed reason) => some (.disconnected (describeClose reason))

/-! ## The paired-peer list -/

abbrev PersistedPeer := PersistedDevice

structure PersistedPeers where
  peers : List PersistedPeer
  deriving DecidableEq

abbrev PeersFile := Option (Option PersistedPeers)

namespace PersistedPeers

def load (file : PeersFile) : PersistedPeers := file.join.getD ⟨[]⟩

def upsert (s : PersistedPeers) (id : DeviceId) (name : String) : PersistedPeers :=
  ⟨PersistedState.upsertIn (toHex id) name s.peers⟩

def deviceIds (s : PersistedPeers) : List DeviceId := s.peers.filterMap fun p => fromHex p.deviceId

end PersistedPeers

/-! ## One run of the dialer -/

/-- A connection the run brought up. `closed` is set where either side or a
timeout closes it; `events` is what the driving task has sent and the drain has
not passed on. -/
structure Conn where
  closed : Bool
  session : Option Session
  events : List SessionEvent

/-- Where `forward_events` stands: at `recv`, or before one of the steps that
persist the peer, with the event it has yet to report. -/
inductive Forwarder where
  | recv
  | load (e : DialerEvent)
  | write (peers : PersistedPeers) (e : DialerEvent)
  | rename (e : DialerEvent)
  | exited
  deriving DecidableEq

structure PairRun where
  peerId : DeviceId
  peerName : String
  dialer : Dialer
  cancelled : Bool
  conns : Nat → Conn
  channel : List DialerEvent
  forwarder : Forwarder
  persisted : Bool

namespace PairRun

def setConn (r : PairRun) (h : SessionHandle) (c : Conn) : PairRun := { r with conns := Function.update r.conns h c }

/-- What the dial task does in a step, done to the run. -/
def absorb (r : PairRun) : Dialer.Obs → PairRun
  | .attempted _ => r
  | .opened h m => r.setConn h { r.conns h with session := some (.new m) }
  | .event e => { r with channel := r.channel ++ [e] }
  | .hungUp h => r.setConn h { r.conns h with closed := true }

def task (r : PairRun) (a : Dialer.Act) : Option PairRun :=
  match r.dialer.step a with
  | some (d, os) => some (os.foldl absorb { r with dialer := d })
  | none => none

def drives (r : PairRun) (h : SessionHandle) : Prop := ∃ s ∈ (r.conns h).session, s.stage ≠ .done

instance (r : PairRun) (h : SessionHandle) : Decidable (r.drives h) :=
  inferInstanceAs (Decidable (∃ s ∈ (r.conns h).session, s.stage ≠ .done))

def severs : Output → Bool
  | .event (.closed (.framingError e)) => e ≠ .write
  | _ => false

inductive Act where
  | dial (ok : Bool)
  | connect (ok : Bool)
  | openBi (ok : Bool)
  | drain
  | retry
  | wake
  | abort
  | drive (h : SessionHandle) (a : Session.Act)
  | lose (h : SessionHandle)

def step (r : PairRun) : Act → Option (PairRun × List (SessionHandle × Output))
  | .dial ok => (r.task (.dial ok)).map (·, [])
  | .connect ok => (r.task (.connect ok)).map (·, [])
  | .openBi ok => (r.task (.openBi ok)).map (·, [])
  | .drain =>
    match r.dialer.pc with
    | .draining h =>
      match (r.conns h).events with
      | e :: rest => ((r.setConn h { r.conns h with events := rest }).task (.event e)).map (·, [])
      | [] => if r.drives h then none else (r.task .ended).map (·, [])
    | _ => none
  | .retry => (r.task .retry).map (·, [])
  | .wake => (r.task .wake).map (·, [])
  | .abort => if r.cancelled then (r.task .abort).map (·, []) else none
  | .drive h a =>
    match (r.conns h).session with
    | some s =>
      match s.step a with
      | some (s', outs) =>
        some (r.setConn h
          { closed := (r.conns h).closed || outs.any severs
            session := some s'
            events := if r.dialer.pc = .draining h then (r.conns h).events ++ outs.filterMap Output.event?
              else (r.conns h).events }, outs.map (h, ·))
      | none => none
    | none => none
  | .lose h =>
    if h < r.dialer.connections then some (r.setConn h { r.conns h with closed := true }, []) else none

end PairRun

/-! ## The core -/

structure Core where
  trust : TrustStore
  peers : PeersFile
  peersTmp : PeersFile
  started : Nat
  runs : Nat → PairRun
  activeSession : Option (Nat × SessionHandle)

/-- How the write of the temporary file ends: not begun, left malformed or done. -/
inductive Written where
  | none
  | torn
  | whole
  deriving DecidableEq

inductive Act where
  | pair (decoded : Except String QrPayload) (endpoint : Except String Unit)
  | cancel (q : Nat)
  | run (q : Nat) (a : PairRun.Act)
  | forward (q : Nat)
  | load (q : Nat) (read : Bool)
  | write (q : Nat) (o : Written)
  | rename (q : Nat) (ok : Bool)
  | sendClipboard (text : String)

inductive Obs where
  | paired (res : Except CoreError Nat)
  | out (q : Nat) (h : SessionHandle) (o : Output)
  | listener (q : Nat) (e : CoreEvent)
  | returned (res : Except CoreError Unit)

namespace PairRun

def idle : PairRun :=
  { peerId := Bytes.fill 32 0, peerName := "", dialer := { Dialer.initial ⟨Bytes.fill 32 0, "", []⟩ 0 none with pc := .gone }
    cancelled := false, conns := fun _ => ⟨false, none, []⟩, channel := [], forwarder := .exited, persisted := false }

def start (cfg : Config) (payload : QrPayload) : PairRun :=
  { peerId := payload.deviceId, peerName := payload.name
    dialer := .initial ⟨cfg.deviceId, cfg.deviceName, []⟩ (secs 20) (some payload.token)
    cancelled := false, conns := fun _ => ⟨false, none, []⟩, channel := [], forwarder := .recv, persisted := false }

end PairRun

namespace Core

def setRun (c : Core) (q : Nat) (r : PairRun) : Core := { c with runs := Function.update c.runs q r }

def pair (cfg : Config) (c : Core) (decoded : Except String QrPayload) (endpoint : Except String Unit) :
    Core × Except CoreError Nat :=
  match decoded with
  | .error e => (c, .error (.invalidQr e))
  | .ok payload =>
    if payload.version ≠ protocolVersion then
      (c, .error (.invalidQr
        s!"protocol version mismatch: this app speaks {protocolVersion}, the QR is from {payload.version}"))
    else
      match payload.addrs with
      | [] => (c, .error (.invalidQr "QR carried no candidate address"))
      | _ :: _ =>
        let c := { c with trust := c.trust.pin payload.deviceId }
        match endpoint with
        | .error e => (c, .error (.network e))
        | .ok () => ({ c.setRun c.started (.start cfg payload) with started := c.started + 1 }, .ok c.started)

def sendClipboard (cfg : Config) (c : Core) (text : String) : Core × Except CoreError Unit :=
  match Clip.new cfg.blake3 mimeTextPlain (utf8 text) with
  | .error e => (c, .error (.invalidClipboard e))
  | .ok clip =>
    match c.activeSession with
    | some (q, h) =>
      let conn := (c.runs q).conns h
      (c.setRun q ((c.runs q).setConn h { conn with session := conn.session.map (·.sendClipboard clip) }), .ok ())
    | none => (c, .error .notConnected)

/-- `active_session` after `forward_events` has matched on an event of run `q`. -/
def slotAfter (c : Core) (q : Nat) : DialerEvent → Option (Nat × SessionHandle)
  | .connected h => some (q, h)
  | .session (.closed _) => none
  | _ => c.activeSession

def isPeerHandshake : DialerEvent → Bool
  | .session (.peerHandshake ..) => true
  | _ => false

def report (q : Nat) (e : DialerEvent) : List Obs := ((toCoreEvent e).map (Obs.listener q)).toList

def resume (c : Core) (q : Nat) (e : DialerEvent) : Core × List Obs :=
  (c.setRun q { c.runs q with forwarder := .recv }, report q e)

/-- `recv` yields the next event, or `None` once the dial task is gone. -/
def forward (c : Core) (q : Nat) : Option (Core × List Obs) :=
  let r := c.runs q
  match r.forwarder, r.channel with
  | .recv, e :: rest =>
    if r.persisted = false ∧ isPeerHandshake e then
      some ({ c with activeSession := c.slotAfter q e }.setRun q
        { r with channel := rest, persisted := true, forwarder := .load e }, [])
    else
      some ({ c with activeSession := c.slotAfter q e }.setRun q { r with channel := rest }, report q e)
  | .recv, [] => if r.dialer.pc = .gone then some (c.setRun q { r with forwarder := .exited }, []) else none
  | _, _ => none

def step (cfg : Config) (c : Core) : Act → Option (Core × List Obs)
  | .pair decoded endpoint =>
    let o := c.pair cfg decoded endpoint
    some (o.1, [.paired o.2])
  | .cancel q => if q < c.started then some (c.setRun q { c.runs q with cancelled := true }, []) else none
  | .run q a =>
    match (c.runs q).step a with
    | some (r, outs) => some (c.setRun q r, outs.map fun o => .out q o.1 o.2)
    | none => none
  | .forward q => c.forward q
  | .load q read =>
    match (c.runs q).forwarder with
    | .load e =>
      let r := c.runs q
      -- a file that cannot be read is taken for an empty list, as a missing one is
      let peers := PersistedPeers.load (if read then c.peers else none)
      some (c.setRun q { r with forwarder := .write (peers.upsert r.peerId r.peerName) e }, [])
    | _ => none
  | .write q o =>
    match (c.runs q).forwarder with
    | .write peers e =>
      match o with
      | .none => some (c.resume q e)
      | .torn => some ({ c with peersTmp := some none }.resume q e)
      | .whole =>
        some ({ c with peersTmp := some (some peers) }.setRun q { c.runs q with forwarder := .rename e }, [])
    | _ => none
  | .rename q ok =>
    match (c.runs q).forwarder with
    | .rename e =>
      if ok then
        match c.peersTmp with
        | some content => some ({ c with peers := some content, peersTmp := none }.resume q e)
        | none => none
      else some (c.resume q e)
    | _ => none
  | .sendClipboard text =>
    let o := c.sendClipboard cfg text
    some (o.1, [.returned o.2])

def new (peers peersTmp : PeersFile) : Core :=
  { trust := .new (PersistedPeers.load peers).deviceIds, peers, peersTmp, started := 0, runs := fun _ => .idle
    activeSession := none }

def system (cfg : Config) : System Core Act Obs :=
  { init := fun c => ∃ peers peersTmp, c = new peers peersTmp, step := step cfg }

end Core

end Ffi

end PenguinSync
