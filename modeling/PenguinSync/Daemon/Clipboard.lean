import PenguinSync.Daemon.Shared

/-!
# The two clipboard loops

`ok` is the outcome of the backend call a step makes, `target` the device a fan-out
turns to next: the handles are taken from a hash map, in no particular order.
-/

namespace PenguinSync

/-- Is `hash` new since the last call? It is the last hash afterwards. -/
def shouldBroadcast (lastHash : Option (Bytes 32)) (hash : Bytes 32) : Bool := lastHash ≠ some hash

namespace Daemon

/-- The desktop's clipboard changes and, if someone watches, says so. -/
def setContent (s : Daemon) (c : Content) : Daemon :=
  { s with
    clipboard := c
    changes := match s.watch with
      | .off => s.changes
      | _ => s.changes ++ [mimeTextPlain] }

/-! ## `watch_and_broadcast` -/

def watchStep (cfg : Config) (s : Daemon) (ok : Bool) (target : DeviceId) : Option (Daemon × List Obs) :=
  match s.watch with
  | .off => none
  | .idle =>
    match s.changes with
    | [] => none
    | mime :: rest =>
      if mime ≠ mimeTextPlain then some ({ s with changes := rest }, [])
      else some ({ s with changes := rest, watch := .reading mime }, [])
  | .reading mime =>
    if ok ∧ s.clipboard.mime = mimeTextPlain then
      match Clip.new cfg.crypto.blake3 mime s.clipboard.bytes with
      | .ok c => some ({ s with watch := .checking c }, [])
      | .error _ => some ({ s with watch := .idle }, [])
    else some ({ s with watch := .idle }, [])
  | .checking c =>
    if shouldBroadcast s.lastHash c.hash then
      some ({ s with lastHash := some c.hash, watch := .handles c }, [.checked .watch c])
    else some ({ s with watch := .idle }, [.checked .watch c])
  | .handles c => some ({ s with watch := .sending c s.connectedDevices }, [])
  | .sending c rest =>
    if rest.keys = ∅ then some ({ s with watch := .idle }, [])
    else
      match rest.lookup target with
      | none => none
      | some i => some ({ s.sendClipboard i c with watch := .sending c (rest.erase target) }, [.handed .watch target i c])

/-! ## `handle_received` -/

def receivedStep (s : Daemon) (r : Received) (ok : Bool) (target : DeviceId) : ReceivedPc → Option (Daemon × List Obs)
  | .isPaired =>
    if s.trust.isPaired r.sender ∧ r.clip.mime = mimeTextPlain then
      some ({ s with orchestrator := .received r .shouldBroadcast }, [.accepted r.session r.sender r.clip])
    else some ({ s with orchestrator := .idle }, [])
  | .shouldBroadcast =>
    if shouldBroadcast s.lastHash r.clip.hash then
      some ({ s with lastHash := some r.clip.hash, orchestrator := .received r .write }, [.checked .received r.clip])
    else some ({ s with orchestrator := .idle }, [.checked .received r.clip])
  | .write =>
    -- the backend takes text only
    if s.backend ∧ ok ∧ fromUtf8 r.clip.content ≠ none then
      some ({ s.setContent ⟨r.clip.mime, r.clip.content⟩ with orchestrator := .received r .handles },
        [.applied r.sender r.clip])
    else some ({ s with orchestrator := .received r .handles }, [])
  | .handles => some ({ s with orchestrator := .received r (.relay (s.connectedDevices.erase r.sender)) }, [])
  | .relay rest =>
    if rest.keys = ∅ then some ({ s with orchestrator := .idle }, [])
    else
      match rest.lookup target with
      | none => none
      | some i =>
        some ({ s.sendClipboard i r.clip with orchestrator := .received r (.relay (rest.erase target)) },
          [.handed .received target i r.clip])

end Daemon

end PenguinSync
