import PenguinSync.Daemon.Shared

/-!
# The D-Bus calls

Any number of calls may be in flight. Each step of a call is one access to the
shared state.
-/

namespace PenguinSync

def malformedDeviceId : String := "malformed device id"

namespace Daemon

def startPairing (s : Daemon) (random : TokenBytes) : Daemon :=
  { s with startPairings := s.startPairings ++ [⟨random, s.now, false⟩] }

def openWindow (s : Daemon) (k : Nat) : Option (Daemon × List Obs) :=
  match s.startPairings[k]? with
  | some ⟨random, now, false⟩ =>
    some ({ s with
      trust := s.trust.openPairingWindow (now + tokenTtl)
      startPairings := s.startPairings.set k ⟨random, now, true⟩ }, [])
  | _ => none

/-- The `k`-th call in flight sets the current token and returns. -/
def setToken (cfg : Config) (s : Daemon) (k : Nat) (addrs : List SocketAddr) : Option (Daemon × List Obs) :=
  match s.startPairings[k]? with
  | some ⟨random, now, true⟩ =>
    some ({ s with currentToken := some (.issue random now), startPairings := s.startPairings.eraseIdx k },
      [.tokenSet random now,
        .startedPairing ⟨protocolVersion, cfg.localId.deviceId, cfg.localId.name, addrs, random⟩
          (shortFingerprint cfg.localId.deviceId)])
  | _ => none

/-- The answer reaches the orchestrator if it still waits on that channel. -/
def answer (channel : Nat) (accept : Bool) : Orchestrator → Orchestrator
  | .handshake h (.awaiting ch deadline none) =>
    if ch = channel then .handshake h (.awaiting ch deadline (some accept)) else .handshake h (.awaiting ch deadline none)
  | o => o

def confirmPairing (s : Daemon) (deviceId : String) (accept : Bool) : Daemon × List Obs :=
  match fromHex deviceId with
  | none => (s, [.invalidArgs malformedDeviceId])
  | some id =>
    match s.pendingConfirmations.lookup id with
    | none => (s, [.confirmed id accept])
    | some channel =>
      ({ s with
        pendingConfirmations := s.pendingConfirmations.erase id
        orchestrator := answer channel accept s.orchestrator }, [.confirmed id accept])

def unpair (s : Daemon) (deviceId : String) : Daemon × List Obs :=
  match fromHex deviceId with
  | none => (s, [.invalidArgs malformedDeviceId])
  | some id =>
    ({ s with unpairs := s.unpairs ++ [⟨s.nextCall, id, .unpin⟩], nextCall := s.nextCall + 1 },
      [.unpairCalled s.nextCall id])

/-- The `k`-th `unpair` in flight takes its next step; `ok` is the outcome of its save. -/
def unpairStep (s : Daemon) (k : Nat) (ok : Bool) : Option (Daemon × List Obs) :=
  match s.unpairs[k]? with
  | none => none
  | some ⟨call, id, .unpin⟩ =>
    some ({ s with trust := s.trust.unpair id, unpairs := s.unpairs.set k ⟨call, id, .remove⟩ }, [.unpinned call id])
  | some ⟨call, id, .remove⟩ =>
    some ({ s with state := s.state.remove id, unpairs := s.unpairs.set k ⟨call, id, .persist⟩ }, [.removed call id])
  | some ⟨call, id, .persist⟩ =>
    some ({ s.persistState ok with unpairs := s.unpairs.set k ⟨call, id, .removeObject⟩ }, [.saved call id ok])
  | some ⟨call, id, .removeObject⟩ =>
    some ({ s with objects := s.objects.erase id, unpairs := s.unpairs.eraseIdx k }, [.unpaired call id])

end Daemon

/-- `set_connected` on the objects: nothing where the object is not exported. -/
def setConnected (objects : HashMap DeviceId Device1) (id : DeviceId) (connected : Bool) : HashMap DeviceId Device1 :=
  match objects.lookup id with
  | none => objects
  | some o => objects.insert id { o with connected }

theorem lookup_setConnected {objects : HashMap DeviceId Device1} {id d : DeviceId} {connected : Bool} {o : Device1} :
    (setConnected objects id connected).lookup d = some o ↔
      d = id ∧ (∃ o', objects.lookup id = some o' ∧ { o' with connected } = o) ∨ d ≠ id ∧ objects.lookup d = some o := by
  unfold setConnected
  cases h : objects.lookup id with
  | none =>
    by_cases hd : d = id
    · subst hd
      simp [h]
    · simp [hd]
  | some o' =>
    simp only [HashMap.lookup_insert_some]
    simp

theorem mem_setConnected {objects : HashMap DeviceId Device1} {id d : DeviceId} {connected : Bool} :
    d ∈ setConnected objects id connected ↔ d ∈ objects := by
  unfold setConnected
  cases h : objects.lookup id with
  | none => rfl
  | some o =>
    simp only [Finmap.mem_insert, or_iff_right_iff_imp]
    rintro rfl
    exact HashMap.mem_iff.mpr ⟨o, h⟩

end PenguinSync
