import PenguinSync.Lib.Lts
import PenguinSync.Daemon.Listener
import PenguinSync.Daemon.Orchestrator

/-!
# The daemon as a transition system

The file a run starts from is arbitrary, and so are the peers that get past
TLS, the calls on the bus, the passage of time and the order of all steps.
-/

namespace PenguinSync

open Lts

namespace Daemon

inductive Act where
  | advance (dt : Time)
  | accept (remote : SocketAddr) (spki : List UInt8)
  | connection (i : Nat) (a : ConnectionAct)
  | drain (i : Nat)
  | startPairing (random : TokenBytes)
  | openWindow (k : Nat)
  | setToken (k : Nat) (addrs : List SocketAddr)
  | confirmPairing (deviceId : String) (accept : Bool)
  | unpair (deviceId : String)
  | unpairStep (k : Nat) (ok : Bool)
  | restore
  | orchestrate (ok : Bool) (target : DeviceId)
  | probe
  | copy (c : Content)
  | notify
  | watch (ok : Bool) (target : DeviceId)
  | watchEnds

variable (cfg : Config)

/-- The next device of the list that was loaded is exported; `at` leaves an object alone
that is there already. -/
def restore (s : Daemon) : Option (Daemon × List Obs) :=
  match s.restoring with
  | [] => none
  | d :: ds =>
    match fromHex d.deviceId with
    | none => some ({ s with restoring := ds }, [])
    | some id =>
      some ({ s with
        objects := if (s.objects.lookup id).isSome then s.objects
          else s.objects.insert id ⟨d.name, d.deviceId, false⟩
        restoring := ds }, [])

/-- An entry that reads as `d` is still to be exported. -/
def Awaits (s : Daemon) (d : DeviceId) : Prop := ∃ e ∈ s.restoring, fromHex e.deviceId = some d

instance (s : Daemon) (d : DeviceId) : Decidable (s.Awaits d) := inferInstanceAs (Decidable (∃ e ∈ s.restoring, _))

/-- The extension is found, its backend stored and the watch started. -/
def probe (s : Daemon) : Option (Daemon × List Obs) :=
  if s.restoring ≠ [] ∨ s.backend then none else some ({ s with backend := true, watch := .idle }, [])

/-- A change notification without a change. -/
def notify (s : Daemon) : Daemon := s.setContent s.clipboard

def watchEnds (s : Daemon) : Option (Daemon × List Obs) :=
  match s.watch, s.changes with
  | .idle, [] => some ({ s with watch := .off }, [])
  | _, _ => none

def step (s : Daemon) : Act → Option (Daemon × List Obs)
  | .advance dt => some ({ s with now := s.now + dt }, [])
  | .accept remote spki => s.accept cfg remote spki
  | .connection i a => s.connectionStep i a
  | .drain i => s.drain i
  | .startPairing random => some (s.startPairing random, [])
  | .openWindow k => s.openWindow k
  | .setToken k addrs => s.setToken cfg k addrs
  | .confirmPairing deviceId accept => some (s.confirmPairing deviceId accept)
  | .unpair deviceId => some (s.unpair deviceId)
  | .unpairStep k ok => s.unpairStep k ok
  | .restore => s.restore
  | .orchestrate ok target => s.orchestrate ok target
  | .probe => s.probe
  | .copy c => some (s.setContent c, [.copied c])
  | .notify => some (s.notify, [])
  | .watch ok target => s.watchStep cfg ok target
  | .watchEnds => s.watchEnds

/-- The calls on the bus are served from here on; nothing is exported yet. -/
def initial (file : Option PersistedState) (clipboard : Content) : Daemon :=
  let state := PersistedState.load file
  { now := 0, connections := [], queue := [], trust := .new state.deviceIds, state, file, currentToken := none
    pendingConfirmations := ∅, nextChannel := 0, remoteToDevice := ∅, remoteHandles := ∅, connectedDevices := ∅
    objects := ∅, restoring := state.devices, backend := false, lastHash := none, clipboard, changes := []
    orchestrator := .idle, watch := .off, startPairings := [], unpairs := [], nextCall := 0 }

def system (file : Option PersistedState) (clipboard : Content) : System Daemon Act Obs :=
  { init := (· = initial file clipboard), step := step cfg }

end Daemon

end PenguinSync
