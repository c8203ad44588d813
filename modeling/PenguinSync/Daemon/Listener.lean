import PenguinSync.Daemon.Shared

/-!
# Accepted connections

TLS admits a peer by the trust store; after that the connection's driving task
takes the steps of a session, and its events reach the orchestrator's queue
tagged with the remote address, through the drain.
-/

namespace PenguinSync

/-- The steps of a driving task, at the daemon's clock. -/
inductive ConnectionAct where
  | start (write : Bool)
  | receive (body : List UInt8) (nonce : UInt64) (write : Bool)
  | oversized (len : Nat)
  | tick (nonce : UInt64) (write : Bool)
  | command (write : Bool)
  | lost (e : String)

def ConnectionAct.at_ (now : Time) : ConnectionAct → Session.Act
  | .start write => .start write
  | .receive body nonce write => .receive body nonce now write
  | .oversized len => .oversized len
  | .tick nonce write => .tick now nonce write
  | .command write => .command write
  | .lost e => .lost e

namespace Daemon

def keepaliveInterval : Time := secs 20

/-- The listener runs once the devices of the file are exported. -/
def accept (cfg : Config) (s : Daemon) (remote : SocketAddr) (spki : List UInt8) : Option (Daemon × List Obs) :=
  if s.restoring = [] ∧ s.trust.check cfg.crypto spki s.now then
    let machine := .new { cfg.localId with capabilities := [] } keepaliveInterval none
    some ({ s with connections := s.connections ++ [⟨remote, spki, .new machine, []⟩] }, [])
  else none

/-- The `Connected` event goes out when the control stream was accepted. -/
def connected (i : Nat) (c : Connection) : ConnectionAct → List (Nat × ListenerEvent)
  | .start _ => [(i, .connected c.remote i)]
  | _ => []

def connectionStep (s : Daemon) (i : Nat) (a : ConnectionAct) : Option (Daemon × List Obs) :=
  match s.connections[i]? with
  | none => none
  | some c =>
    match c.session.step (a.at_ s.now) with
    | none => none
    | some (ses, outs) =>
      some ({ s with
        connections := s.connections.set i { c with session := ses, events := c.events ++ outs.filterMap Output.event? }
        queue := s.queue ++ connected i c a }, outs.map (.out i))

def drain (s : Daemon) (i : Nat) : Option (Daemon × List Obs) :=
  match s.connections[i]? with
  | none => none
  | some c =>
    match c.events with
    | [] => none
    | e :: rest =>
      some ({ s with
        connections := s.connections.set i { c with events := rest }
        queue := s.queue ++ [(i, .session c.remote e)] }, [])

end Daemon

end PenguinSync
