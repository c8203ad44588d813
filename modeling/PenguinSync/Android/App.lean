import PenguinSync.Ffi.Core

/-!
# The phone app over the core

A forwarder calls into the app and waits until the call is over, so a run has at
most one callback in flight, while callbacks of different runs and the main
thread interleave. What a callback or the main thread does is cut where it reads
or writes what they share.
-/

namespace PenguinSync

open Lts Ffi

namespace Android

/-- `reasonText` is how a reason reads; from API 33 on a clip can be marked as sensitive. -/
structure Config where
  core : Ffi.Config
  reasonText : Reason → String
  tiramisu : Bool

inductive ConnectionStatus where
  | notPaired
  | connected (name : String) (deviceId : String) (lastRttMs : Option UInt64)
  | reconnecting (attempt : UInt32)
  | disconnected (reason : Reason)
  deriving DecidableEq

/-- What a notification shows, and whether it offers to send the clipboard. -/
abbrev Title := String × Bool

namespace ConnectionStatus

def reduce (s : ConnectionStatus) : CoreEvent → ConnectionStatus
  | .peerHandshake deviceId name => .connected name deviceId none
  | .ponged rttMs =>
    match s with
    | .connected name deviceId _ => .connected name deviceId (some rttMs)
    | _ => s
  | .reconnecting attempt _ => .reconnecting attempt
  | .disconnected reason => .disconnected reason
  | .clipboardReceived _ => s

def notificationTitle (cfg : Config) : ConnectionStatus → Title
  | .notPaired => ("Connecting…", false)
  | .connected name _ _ => (s!"Connected to {name}", true)
  | .reconnecting _ => ("Reconnecting…", false)
  | .disconnected reason => (s!"Disconnected: {cfg.reasonText reason}", false)

end ConnectionStatus

/-- A clip of the system clipboard: the flag in its description and each item as text. -/
structure PrimaryClip where
  sensitive : Bool
  items : List (Option String)
  deriving DecidableEq

def newPlainText (text : String) : PrimaryClip := ⟨false, [some text]⟩

inductive SendResult where
  | sent
  | nothingToSend
  | failed (e : CoreError)
  deriving DecidableEq

def SendResult.of : Except CoreError Unit → SendResult
  | .ok _ => .sent
  | .error e => .failed e

/-- What a callback does next: `handleCoreEvent` up to `service`, and then the service's `onCoreEvent`. -/
inductive Callback where
  | write (e : CoreEvent)
  | reduce (e : CoreEvent)
  | assign (e : CoreEvent) (status : ConnectionStatus)
  | service (e : CoreEvent)
  | title
  | post (title : Title)
  deriving DecidableEq

/-- What the main thread is in the middle of: `startPairing`, `onCreate` or `onStartCommand`. -/
inductive Main where
  | idle
  | pairing
  | creating
  | repost (title : Title)
  deriving DecidableEq

/-- `serviceListener`: the service is there and has set its listener. `starts` are
the start commands it has not been delivered. -/
structure App where
  core : Core
  connectionHandle : Option Nat
  connectionStatus : ConnectionStatus
  callbacks : Nat → Option Callback
  clipboard : Option PrimaryClip
  serviceListener : Bool
  starts : Nat
  notification : Option Title
  main : Main

/-- `restore` is the button that does so, or the system bringing back the sticky service. -/
inductive Act where
  | core (a : Ffi.Act)
  | callback (q : Nat)
  | startPairing
  | pair (decoded : Except String QrPayload) (endpoint : Except String Unit)
  | sendClipboard
  | copy (clip : Option PrimaryClip)
  | restore
  | onCreate
  | listen
  | onStartCommand
  | notify
  | onDestroy
  | dismiss

inductive Obs where
  | core (o : Ffi.Obs)
  | wrote (q : Nat) (text : String)
  | sent (r : SendResult)

namespace App

def setCallback (s : App) (q : Nat) (c : Option Callback) : App :=
  { s with callbacks := Function.update s.callbacks q c }

def called (s : App) : Ffi.Obs → App
  | .listener q e => s.setCallback q (some (.write e))
  | _ => s

/-- A step of the Rust side. The app's own calls are steps of the app, and a
forwarder does not go on while its call is not over. -/
def allows (s : App) : Ffi.Act → Bool
  | .run .. => true
  | .forward q | .load q _ | .write q _ | .rename q _ => (s.callbacks q).isNone
  | .pair .. | .cancel _ | .sendClipboard _ => false

/-- The service does not repost for the events that leave the status as it was. -/
def reposts : CoreEvent → Bool
  | .peerHandshake .. | .reconnecting .. | .disconnected _ => true
  | .ponged _ | .clipboardReceived _ => false

def callback (cfg : Config) (s : App) (q : Nat) : Option (App × List Obs) :=
  match s.callbacks q with
  | some (.write (.clipboardReceived text)) =>
    some ({ s with clipboard := some (newPlainText text) }.setCallback q (some (.reduce (.clipboardReceived text))),
      [.wrote q text])
  | some (.write e) => some (s.setCallback q (some (.reduce e)), [])
  | some (.reduce e) => some (s.setCallback q (some (.assign e (s.connectionStatus.reduce e))), [])
  | some (.assign e status) => some ({ s with connectionStatus := status }.setCallback q (some (.service e)), [])
  | some (.service e) =>
    some (s.setCallback q (if s.serviceListener && reposts e then some .title else none), [])
  | some .title => some (s.setCallback q (some (.post (s.connectionStatus.notificationTitle cfg))), [])
  | some (.post title) => some ({ s with notification := some title }.setCallback q none, [])
  | none => none

def clipText (cfg : Config) (s : App) : Option String :=
  match s.clipboard with
  | none => none
  | some clip =>
    match clip.items with
    | [] => none
    | item :: _ =>
      if cfg.tiramisu && clip.sensitive then none
      else
        match item with
        | some text => if text = "" then none else some text
        | none => none

def sendClipboardFromFocusedContext (cfg : Config) (s : App) : App × List Obs :=
  match s.clipText cfg with
  | none => (s, [.sent .nothingToSend])
  | some text =>
    let o := s.core.sendClipboard cfg.core text
    ({ s with core := o.1 }, [.core (.returned o.2), .sent (.of o.2)])

def cancelPrevious (s : App) : App :=
  match s.connectionHandle with
  | some q => { s with core := s.core.setRun q { s.core.runs q with cancelled := true } }
  | none => s

def step (cfg : Config) (s : App) : Act → Option (App × List Obs)
  | .core a =>
    if s.allows a then
      match s.core.step cfg.core a with
      | some (c, os) => some (os.foldl called { s with core := c }, os.map .core)
      | none => none
    else none
  | .callback q => s.callback cfg q
  | .startPairing => if s.main = .idle then some ({ s.cancelPrevious with main := .pairing }, []) else none
  | .pair decoded endpoint =>
    if s.main = .pairing then
      let o := s.core.pair cfg.core decoded endpoint
      match o.2 with
      | .ok q => some ({ s with core := o.1, connectionHandle := some q, starts := s.starts + 1, main := .idle },
          [.core (.paired (.ok q))])
      | .error e => some ({ s with core := o.1, main := .idle }, [.core (.paired (.error e))])
    else none
  | .sendClipboard => if s.main = .idle then some (s.sendClipboardFromFocusedContext cfg) else none
  | .copy clip => some ({ s with clipboard := clip }, [])
  | .restore => some ({ s with starts := s.starts + 1 }, [])
  | .onCreate =>
    if s.main = .idle ∧ 0 < s.starts ∧ s.serviceListener = false then
      some ({ s with notification := some ("Connecting…", false), main := .creating }, [])
    else none
  | .listen => if s.main = .creating then some ({ s with serviceListener := true, main := .idle }, []) else none
  | .onStartCommand =>
    if s.main = .idle ∧ 0 < s.starts ∧ s.serviceListener = true then
      some ({ s with starts := s.starts - 1, main := .repost (s.connectionStatus.notificationTitle cfg) }, [])
    else none
  | .notify =>
    match s.main with
    | .repost title => some ({ s with notification := some title, main := .idle }, [])
    | _ => none
  | .onDestroy =>
    if s.main = .idle ∧ s.serviceListener = true then
      some ({ s with serviceListener := false, notification := none }, [])
    else none
  | .dismiss => some ({ s with notification := none }, [])

def new (peers peersTmp : PeersFile) (clipboard : Option PrimaryClip) : App :=
  { core := Core.new peers peersTmp, connectionHandle := none, connectionStatus := .notPaired, callbacks := fun _ => none
    clipboard, serviceListener := false, starts := 0, notification := none, main := .idle }

def system (cfg : Config) : System App Act Obs :=
  { init := fun s => ∃ peers peersTmp clipboard, s = new peers peersTmp clipboard, step := step cfg }

end App

end Android

end PenguinSync
