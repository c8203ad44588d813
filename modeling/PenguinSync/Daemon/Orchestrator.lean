import PenguinSync.Daemon.Clipboard
import PenguinSync.Daemon.Dbus

/-!
# The orchestrator

It takes one event off the queue at a time and is done with it before it takes
the next.
-/

namespace PenguinSync

def confirmationTimeout : Time := tokenTtl + secs 5

namespace Daemon

def handshake (s : Daemon) (h : Handling) (pc : HandshakePc) : Daemon := { s with orchestrator := .handshake h pc }

def idle (s : Daemon) : Daemon := { s with orchestrator := .idle }

/-- The next event leaves the queue. -/
def dispatch (s : Daemon) (i : Nat) : ListenerEvent → Daemon × List Obs
  | .connected remote handle => ({ s with remoteHandles := s.remoteHandles.insert remote handle }, [])
  | .session remote (.peerHandshake deviceId name _ pairingToken) =>
    (({ s with remoteToDevice := s.remoteToDevice.insert remote deviceId } : Daemon).handshake
      ⟨i, remote, deviceId, name, pairingToken⟩ .isPaired, [.recorded i deviceId])
  | .session _ (.ponged _) => (s, [])
  | .session remote (.clipboardReceived clip) =>
    match s.remoteToDevice.lookup remote with
    | some sender => ({ s with orchestrator := .received ⟨i, sender, clip⟩ .isPaired }, [])
    | none => (s, [])
  | .session remote (.closed _) =>
    ({ s with
      remoteHandles := s.remoteHandles.erase remote
      remoteToDevice := s.remoteToDevice.erase remote
      orchestrator := match s.remoteToDevice.lookup remote with
        | some id => .closed id .disconnect
        | none => .idle }, [.closed i])

/-- `handle_handshake`, with `mark_connected` and `ensure_device_object` at its
end; `ok` is the outcome of the save. -/
def handshakeStep (s : Daemon) (h : Handling) (ok : Bool) : HandshakePc → Option (Daemon × List Obs)
  | .isPaired =>
    if s.trust.isPaired h.deviceId then some (s.handshake h .ensureObject, [])
    else
      match h.pairingToken with
      | none => some (s.idle, [])
      | some presented => some (s.handshake h (.redeem presented), [])
  | .redeem presented =>
    match s.currentToken with
    | none => some (s.idle, [])
    | some t =>
      match t.redeem presented s.now with
      | .ok t' =>
        some (({ s with currentToken := some t' } : Daemon).handshake h .pairingRequested,
          [.redeemed h.deviceId presented s.now])
      | .error _ => some (s.idle, [])
  | .pairingRequested =>
    some (s.handshake h .awaitConfirmation,
      [.pairingRequested (toHex h.deviceId) (shortFingerprint h.deviceId) h.name])
  | .awaitConfirmation =>
    some (({ s with
        pendingConfirmations := s.pendingConfirmations.insert h.deviceId s.nextChannel
        nextChannel := s.nextChannel + 1 } : Daemon).handshake h
      (.awaiting s.nextChannel (s.now + confirmationTimeout) none), [])
  | .awaiting _ _ (some true) => some (s.handshake h .pin, [])
  | .awaiting _ _ (some false) => some (s.idle, [])
  | .awaiting _ deadline none => if deadline ≤ s.now then some (s.idle, []) else none
  | .pin => some (({ s with trust := s.trust.pin h.deviceId } : Daemon).handshake h .closeWindow, [.pinned h.deviceId])
  | .closeWindow => some (({ s with trust := s.trust.closePairingWindow } : Daemon).handshake h .upsert, [])
  | .upsert => some (({ s with state := s.state.upsert h.deviceId h.name } : Daemon).handshake h .persist, [])
  | .persist => some ((s.persistState ok).handshake h .ensureObject, [])
  | .ensureObject =>
    some (s.handshake h (if (s.objects.lookup h.deviceId).isSome then .setConnected else .createObject), [])
  | .createObject =>
    -- `at` leaves an object that appeared meanwhile alone
    some (({ s with
        objects := if (s.objects.lookup h.deviceId).isSome then s.objects
          else s.objects.insert h.deviceId ⟨h.name, toHex h.deviceId, false⟩ } : Daemon).handshake h .setConnected, [])
  | .setConnected =>
    some (({ s with objects := PenguinSync.setConnected s.objects h.deviceId true } : Daemon).handshake h .promote, [])
  | .promote =>
    match s.remoteHandles.lookup h.remote with
    | some i =>
      some (({ s with connectedDevices := s.connectedDevices.insert h.deviceId i } : Daemon).idle,
        [.promoted h.session h.deviceId i])
    | none => some (s.idle, [])

def closedStep (s : Daemon) (id : DeviceId) : ClosedPc → Daemon
  | .disconnect =>
    { s with connectedDevices := s.connectedDevices.erase id, orchestrator := .closed id .setConnected }
  | .setConnected => { s with objects := PenguinSync.setConnected s.objects id false, orchestrator := .idle }

def orchestrate (s : Daemon) (ok : Bool) (target : DeviceId) : Option (Daemon × List Obs) :=
  match s.orchestrator with
  | .idle =>
    match s.queue with
    | [] => none
    | (i, e) :: rest => some (({ s with queue := rest } : Daemon).dispatch i e)
  | .handshake h pc => s.handshakeStep h ok pc
  | .received r pc => s.receivedStep r ok target pc
  | .closed id pc => some (s.closedStep id pc, [])

end Daemon

end PenguinSync
