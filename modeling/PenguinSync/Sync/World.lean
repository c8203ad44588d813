import Mathlib.Data.PEquiv
import PenguinSync.Net.Duplex
import PenguinSync.Daemon.Handed
import PenguinSync.Ffi.Sessions
import PenguinSync.Android.Moves

/-!
# The desktop and the phone

The daemon and the phone's app run side by side. A connection of the daemon may be
one of the phone's; which is whose is given beforehand, as a line between the two.
Over a line whole frames arrive in the order in which they were written; what the
other connections of either side carry is up to whoever is there.
-/

namespace PenguinSync

open Lts Ffi

namespace Sync

/-- `spki` is the phone's key. -/
structure Config where
  desk : PenguinSync.Config
  phone : Android.Config
  spki : List UInt8

/-- Which connection of the daemon is the other end of which of the phone's. -/
abbrev Lines := PEquiv Nat SessionId

abbrev Wire := SessionId → Side → List Message

/-- `wire p s` holds what is on its way to side `s` of session `p`. The phone is on the left. -/
structure World where
  daemon : Daemon
  app : Android.App
  wire : Wire

inductive Act where
  | desk (a : Daemon.Act)
  | phone (a : Android.Act)

/-- `queued` is a clip that the app handed to a session of its core. -/
inductive Obs where
  | desk (o : PenguinSync.Obs)
  | phone (o : Android.Obs)
  | queued (p : SessionId) (c : Clip)

/-- Side `s` of `p` takes the step `b` and puts `outs` out. -/
def Wire.carry (wire : Wire) (p : SessionId) (s : Side) (b : Session.Act) (outs : List Output) : Option Wire :=
  (Duplex.takes b (wire p s)).map fun rest =>
    Function.update wire p
      (Function.update (Function.update (wire p) s rest) s.other (wire p s.other ++ outs.filterMap Output.sent?))

namespace World

variable (cfg : Config) (lines : Lines)

def dials (r : PairRun) (h : SessionHandle) : Bool :=
  match r.dialer.pc with
  | .connecting _ => h ≤ r.dialer.connections
  | _ => h < r.dialer.connections

/-- Only a connection that the phone dials is accepted as one of the phone's. -/
def admits (w : World) : Daemon.Act → Bool
  | .accept _ spki =>
    match lines w.daemon.connections.length with
    | some p => spki = cfg.spki && dials (w.app.core.runs p.1) p.2
    | none => true
  | _ => true

def deskWire (w : World) : Daemon.Act → List PenguinSync.Obs → Option Wire
  | .connection i a, os =>
    match lines i with
    | some p => w.wire.carry p .right (a.at_ w.daemon.now) (Daemon.outsOn i os)
    | none => some w.wire
  | _, _ => some w.wire

def phoneWire (w : World) : Android.Act → List Android.Obs → Option Wire
  | .core (.run q (.drive h b)), os =>
    if (lines.symm (q, h)).isSome then
      w.wire.carry (q, h) .left b (Core.outsOn (q, h) (Android.App.coreTrace os))
    else some w.wire
  | _, _ => some w.wire

/-- The clip that a call of the app's gets into the active session's queue. -/
def queues (w : World) : Android.Act → List Obs
  | .sendClipboard =>
    match w.app.clipText cfg.phone with
    | none => []
    | some text =>
      match Clip.new cfg.phone.core.blake3 mimeTextPlain (utf8 text), w.app.core.activeSession with
      | .ok c, some p => [.queued p c]
      | _, _ => []
  | _ => []

def step (w : World) : Act → Option (World × List Obs)
  | .desk a =>
    if w.admits cfg lines a then
      match Daemon.step cfg.desk w.daemon a with
      | some (daemon, os) => (w.deskWire lines a os).map fun wire => ({ w with daemon, wire }, os.map .desk)
      | none => none
    else none
  | .phone a =>
    match Android.App.step cfg.phone w.app a with
    | some (app, os) => (w.phoneWire lines a os).map fun wire => ({ w with app, wire }, os.map .phone ++ w.queues cfg a)
    | none => none

def system (file : Option PersistedState) (clipboard : Content) : System World Act Obs :=
  { init := fun w => w.daemon = Daemon.initial file clipboard ∧ (Android.App.system cfg.phone).init w.app ∧
      w.wire = fun _ _ => []
    step := step cfg lines }

end World

/-! ## The two sides of a run -/

def Obs.desk? : Obs → Option PenguinSync.Obs
  | .desk o => some o
  | _ => none

def Obs.phone? : Obs → Option Android.Obs
  | .phone o => some o
  | _ => none

def deskTrace (tr : List Obs) : List PenguinSync.Obs := tr.filterMap Obs.desk?

def phoneTrace (tr : List Obs) : List Android.Obs := tr.filterMap Obs.phone?

namespace World

section
variable {cfg : Config} {lines : Lines} {w w' : World} {a : Act} {tr os : List Obs} {p : SessionId}
  {file : Option PersistedState} {clipboard : Content} {C : List Obs → World → Act → Prop}

inductive Move (cfg : Config) (lines : Lines) (w : World) : Act → World → List Obs → Prop
  | desk {a : Daemon.Act} {daemon : Daemon} {os : List PenguinSync.Obs} {wire : Wire} : w.admits cfg lines a = true →
      Daemon.step cfg.desk w.daemon a = some (daemon, os) → w.deskWire lines a os = some wire →
      Move cfg lines w (.desk a) { w with daemon, wire } (os.map .desk)
  | phone {a : Android.Act} {app : Android.App} {os : List Android.Obs} {wire : Wire} :
      Android.App.step cfg.phone w.app a = some (app, os) → w.phoneWire lines a os = some wire →
      Move cfg lines w (.phone a) { w with app, wire } (os.map .phone ++ w.queues cfg a)

theorem step_move (h : step cfg lines w a = some (w', os)) : Move cfg lines w a w' os := by
  cases a with
  | desk a =>
    simp only [step, Option.ite_none_right_eq_some] at h
    obtain ⟨ha, h⟩ := h
    split at h
    · rename_i daemon dos hd
      obtain ⟨wire, hw, he⟩ := Option.map_eq_some_iff.mp h
      cases he
      exact .desk ha hd hw
    · cases h
  | phone a =>
    simp only [step] at h
    split at h
    · rename_i app pos hp
      obtain ⟨wire, hw, he⟩ := Option.map_eq_some_iff.mp h
      cases he
      exact .phone hp hw
    · cases h

theorem queues_queued {o : Obs} {b : Android.Act} (h : o ∈ w.queues cfg b) : ∃ p c, o = .queued p c := by
  unfold queues at h
  split at h
  · split at h
    · cases h
    · split at h
      · exact ⟨_, _, List.mem_singleton.mp h⟩
      · cases h
  · cases h

theorem deskTrace_desk (os : List PenguinSync.Obs) : deskTrace (os.map .desk) = os := by
  unfold deskTrace
  rw [List.filterMap_map]
  exact List.filterMap_some

theorem deskTrace_phone (w : World) (b : Android.Act) (os : List Android.Obs) :
    deskTrace (os.map .phone ++ w.queues cfg b) = [] := by
  unfold deskTrace
  rw [List.filterMap_eq_nil_iff]
  intro o ho
  rcases List.mem_append.mp ho with ho | ho
  · obtain ⟨x, -, rfl⟩ := List.mem_map.mp ho
    rfl
  · obtain ⟨p, c, rfl⟩ := queues_queued ho
    rfl

theorem phoneTrace_desk (os : List PenguinSync.Obs) : phoneTrace (os.map .desk) = [] := by
  unfold phoneTrace
  rw [List.filterMap_map, List.filterMap_eq_nil_iff]
  intro o _
  rfl

theorem phoneTrace_phone (w : World) (b : Android.Act) (os : List Android.Obs) :
    phoneTrace (os.map .phone ++ w.queues cfg b) = os := by
  have hnil : (w.queues cfg b).filterMap Obs.phone? = [] := by
    rw [List.filterMap_eq_nil_iff]
    intro o ho
    obtain ⟨p, c, rfl⟩ := queues_queued ho
    rfl
  unfold phoneTrace
  rw [List.filterMap_append, hnil, List.append_nil, List.filterMap_map]
  exact List.filterMap_some

theorem run_desk (h : Run (system cfg lines file clipboard) C tr w) :
    Run (Daemon.system cfg.desk file clipboard) always (deskTrace tr) w.daemon := by
  have hinit : ∀ w, (system cfg lines file clipboard).init w → w.daemon = Daemon.initial file clipboard := fun w h0 => h0.1
  refine Run.projected (f := World.daemon) (g := Obs.desk?) hinit (fun tr w a w' os _ _ hs => ?_) h
  cases step_move hs with
  | @desk a daemon dos wire _ hd _ =>
    left
    refine ⟨a, trivial, ?_⟩
    rw [show (dos.map Obs.desk).filterMap Obs.desk? = dos from deskTrace_desk dos]
    exact hd
  | phone => exact Or.inr ⟨rfl, deskTrace_phone w _ _⟩

theorem run_phone (h : Run (system cfg lines file clipboard) C tr w) :
    Run (Android.App.system cfg.phone) always (phoneTrace tr) w.app := by
  have hinit : ∀ w, (system cfg lines file clipboard).init w → (Android.App.system cfg.phone).init w.app := fun w h0 => h0.2.1
  refine Run.projected (f := World.app) (g := Obs.phone?) hinit (fun tr w a w' os _ _ hs => ?_) h
  cases step_move hs with
  | desk => exact Or.inr ⟨rfl, phoneTrace_desk _⟩
  | @phone a app pos wire hp _ =>
    left
    refine ⟨a, trivial, ?_⟩
    rw [show (pos.map Obs.phone ++ w.queues cfg a).filterMap Obs.phone? = pos from phoneTrace_phone w a pos]
    exact hp

/-! ## What crosses a line -/

theorem carry_some {wire wire' : Wire} {s : Side} {b : Session.Act} {outs : List Output}
    (h : wire.carry p s b outs = some wire') : ∃ rest, Duplex.takes b (wire p s) = some rest ∧
      wire' p = Function.update (Function.update (wire p) s rest) s.other (wire p s.other ++ outs.filterMap Output.sent?) ∧
      ∀ k, k ≠ p → wire' k = wire k := by
  obtain ⟨rest, hr, rfl⟩ := Option.map_eq_some_iff.mp h
  exact ⟨rest, hr, Function.update_self .., fun k hk => Function.update_of_ne hk ..⟩

theorem deskWire_other {i : Nat} {b : Daemon.Act} {dos : List PenguinSync.Obs} {wire : Wire} (hl : lines i = some p)
    (hb : ∀ ca, b ≠ .connection i ca) (h : w.deskWire lines b dos = some wire) : wire p = w.wire p := by
  cases b with
  | connection j ca =>
    simp only [deskWire] at h
    split at h
    · rename_i p' hp'
      obtain ⟨rest, -, -, hother⟩ := carry_some h
      refine hother p ?_
      rintro rfl
      have hij : i = j := lines.inj hl hp'
      exact hb ca (by rw [hij])
    · cases h
      rfl
  | _ =>
    cases h
    rfl

theorem phoneWire_other {b : Android.Act} {pos : List Android.Obs} {wire : Wire}
    (hb : ∀ act, b ≠ .core (.run p.1 (.drive p.2 act))) (h : w.phoneWire lines b pos = some wire) : wire p = w.wire p := by
  unfold phoneWire at h
  split at h
  · rename_i q n act
    split at h
    · obtain ⟨rest, -, -, hother⟩ := carry_some h
      refine hother p ?_
      rintro rfl
      exact hb act rfl
    · cases h
      rfl
  · cases h
    rfl

end

end World

end Sync

end PenguinSync
