import PenguinSync.Lib.Files
import PenguinSync.Daemon.Shared
import PenguinSync.Ffi.Core

/-!
# Saving the device list

The daemon's `devices.json` and the app's `peers.json` are saved the same way:
the new text is written to a temporary file beside the old one and renamed over
it. What `serde_json` makes of a list, and of a text, is a parameter.
-/

namespace PenguinSync

open Files

/-! ## Paths -/

abbrev Path := List String

structure FilePath where
  parent : Path
  fileName : String
  normal : fileName ≠ "" ∧ fileName ≠ "." ∧ fileName ≠ ".." ∧ '/' ∉ fileName.toList

namespace FilePath

def path (p : FilePath) : Path := p.parent ++ [p.fileName]

/-- The file name up to its last dot; a dot that begins the name does not count. -/
def stemOf (name : List Char) : List Char :=
  match name.reverse.dropWhile (· ≠ '.') with
  | _ :: c :: before => (c :: before).reverse
  | _ => name

def withExtension (p : FilePath) (ext : String) : Path :=
  p.parent ++ [String.ofList (stemOf p.fileName.toList ++ '.' :: ext.toList)]

theorem stemOf_tmp (stem : List Char) : stemOf (stem ++ ".json.tmp".toList) = stem ++ ".json".toList := by
  have hrev : (stem ++ ".json.tmp".toList).reverse.dropWhile (· ≠ '.') =
      '.' :: 'n' :: 'o' :: 's' :: 'j' :: '.' :: stem.reverse := by
    rw [List.reverse_append]
    rfl
  unfold stemOf
  rw [hrev]
  simp

/-- The temporary file is another one, whatever the file is called. -/
theorem path_ne_tmp (p : FilePath) : p.path ≠ p.withExtension "json.tmp" := by
  intro h
  have hname : p.fileName.toList = stemOf p.fileName.toList ++ ".json.tmp".toList := by
    have := List.singleton_inj.mp (List.append_cancel_left h)
    conv_lhs => rw [this, String.toList_ofList]
    rfl
  have hstem : stemOf p.fileName.toList = stemOf p.fileName.toList ++ ".json".toList :=
    (congrArg stemOf hname).trans (stemOf_tmp _)
  exact absurd hstem (by simp)

end FilePath

/-! ## Saving and loading -/

/-- What `serde_json` does for a struct: `to_vec_pretty` and `from_str`. -/
structure Serde (σ : Type) where
  toVecPretty : σ → List UInt8
  fromStr : String → Option σ

namespace Serde

variable {σ : Type}

def parse (serde : Serde σ) (bytes : List UInt8) : Option σ := (fromUtf8 bytes).bind serde.fromStr

def RoundTrips (serde : Serde σ) (s : σ) : Prop := serde.parse (serde.toVecPretty s) = some s

instance [DecidableEq σ] (serde : Serde σ) (s : σ) : Decidable (serde.RoundTrips s) :=
  inferInstanceAs (Decidable (_ = _))

def save (serde : Serde σ) (path : FilePath) (s : σ) : List (Op Path) :=
  replace path.parent (path.withExtension "json.tmp") path.path (serde.toVecPretty s)

def content (serde : Serde σ) (d : Disk Path) (path : FilePath) : Option σ := (d path.path).bind serde.parse

/-- Whatever was on disk, the file holds the latest of the saves. -/
theorem latest_content {serde : Serde σ} {path : FilePath} {d : Disk Path} {saves : List (σ × Ending)}
    (hround : ∀ x ∈ saves, serde.RoundTrips x.1) (hdone : ∃ x ∈ (runAll (serde.save path) d saves).2, x.2 = true) :
    ∃ s, Latest (runAll (serde.save path) d saves).2 s ∧
      (runAll (serde.save path) d saves).1 path.path = some (serde.toVecPretty s) ∧
      serde.content (runAll (serde.save path) d saves).1 path = some s := by
  have hops : ∀ s d e, (run d (serde.save path s) e).1 path.path = some (serde.toVecPretty s) ∨
      (run d (serde.save path s) e).2 = false ∧ (run d (serde.save path s) e).1 path.path = d path.path := by
    intro s d e
    rcases replace_atomic path.path_ne_tmp e with hnew | ⟨hstop, hold⟩
    · exact Or.inl hnew
    · refine Or.inr ⟨?_, hold⟩
      rw [Bool.eq_false_iff]
      exact fun h => hstop (replace_completes.mp h)
  rcases runAll_latest hops d saves with ⟨s, hs, hd⟩ | ⟨hnone, -⟩
  · obtain ⟨e, he⟩ := hs.mem_calls
    refine ⟨s, hs, hd, ?_⟩
    unfold content
    rw [hd]
    exact hround (s, e) he
  · obtain ⟨x, hx, hx'⟩ := hdone
    rw [hnone x hx] at hx'
    cases hx'

end Serde

namespace PersistedState

def save (serde : Serde PersistedState) (path : FilePath) (s : PersistedState) : List (Op Path) := serde.save path s

def loadFrom (serde : Serde PersistedState) (d : Disk Path) (path : FilePath) : PersistedState :=
  load (serde.content d path)

end PersistedState

namespace Ffi.PersistedPeers

def save (serde : Serde PersistedPeers) (path : FilePath) (s : PersistedPeers) : List (Op Path) := serde.save path s

def loadFrom (serde : Serde PersistedPeers) (d : Disk Path) (path : FilePath) : PersistedPeers :=
  load ((d path.path).map serde.parse)

end Ffi.PersistedPeers

/-- A call of `persist_state` that returns leaves on disk what the daemon's
state says: the list it saved, or what was there before. -/
theorem persistState_content {s : Daemon} {serde : Serde PersistedState} {d : Disk Path} {path : FilePath} {e : Ending}
    (hround : serde.RoundTrips s.state) (hfile : s.file = serde.content d path)
    (he : ∀ n cut, e = .stopped n cut → n < 3) :
    (s.persistState (run d (s.state.save serde path) e).2).file =
      serde.content (run d (s.state.save serde path) e).1 path := by
  cases e with
  | completed =>
    have hdone : (run d (s.state.save serde path) .completed).2 = true := replace_completes.mpr rfl
    have hnew : (run d (s.state.save serde path) .completed).1 path.path = some (serde.toVecPretty s.state) :=
      replace_new (Or.inl rfl)
    unfold Serde.content
    rw [hdone, hnew]
    exact hround.symm
  | stopped n cut =>
    have hstop : (run d (s.state.save serde path) (.stopped n cut)).2 = false := by
      rw [Bool.eq_false_iff]
      exact fun h => nomatch replace_completes.mp h
    have hold : (run d (s.state.save serde path) (.stopped n cut)).1 path.path = d path.path :=
      replace_old path.path_ne_tmp (he n cut rfl) cut
    rw [hstop]
    unfold Serde.content
    rw [hold]
    exact hfile

/-- After saves that may each fail or be cut off anywhere, a load returns what
the last save that completed was given, or one interrupted after it. -/
theorem load_latest_save (state : Serde PersistedState) (peers : Serde Ffi.PersistedPeers) (path : FilePath)
    (d : Disk Path) (saves : List (PersistedState × Ending)) (peerSaves : List (Ffi.PersistedPeers × Ending)) :
    ((∀ x ∈ saves, state.RoundTrips x.1) → (∃ x ∈ (runAll (PersistedState.save state path) d saves).2, x.2 = true) →
      Latest (runAll (PersistedState.save state path) d saves).2
        (PersistedState.loadFrom state (runAll (PersistedState.save state path) d saves).1 path)) ∧
    ((∀ x ∈ peerSaves, peers.RoundTrips x.1) →
      (∃ x ∈ (runAll (Ffi.PersistedPeers.save peers path) d peerSaves).2, x.2 = true) →
      Latest (runAll (Ffi.PersistedPeers.save peers path) d peerSaves).2
        (Ffi.PersistedPeers.loadFrom peers (runAll (Ffi.PersistedPeers.save peers path) d peerSaves).1 path)) := by
  constructor
  · intro hround hdone
    obtain ⟨s, hs, -, hcontent⟩ := Serde.latest_content hround hdone
    have hload : PersistedState.loadFrom state (runAll (PersistedState.save state path) d saves).1 path = s := by
      unfold PersistedState.loadFrom
      exact congrArg PersistedState.load hcontent
    rw [hload]
    exact hs
  · intro hround hdone
    obtain ⟨s, hs, hbytes, hcontent⟩ := Serde.latest_content hround hdone
    have hparse : peers.RoundTrips s := by
      unfold Serde.content at hcontent
      rw [hbytes] at hcontent
      exact hcontent
    have hload : Ffi.PersistedPeers.loadFrom peers (runAll (Ffi.PersistedPeers.save peers path) d peerSaves).1 path =
        s := by
      have hfile : (runAll (Ffi.PersistedPeers.save peers path) d peerSaves).1 path.path =
        some (peers.toVecPretty s) := hbytes
      unfold Ffi.PersistedPeers.loadFrom
      rw [hfile, Option.map_some, show peers.parse _ = some s from hparse]
      rfl
    rw [hload]
    exact hs

/-! ## A phone saved, then a crash on either side of the rename -/

def devicesJson : FilePath :=
  { parent := ["home", "user", ".local", "share", "penguinsync"], fileName := "devices.json", normal := by decide }

def phoneEntry : PersistedDevice := ⟨"0102", "phone"⟩

/-- The text of a list that is empty or holds `phoneEntry` alone, under the name of its field. -/
def listText (field : String) : List PersistedDevice → String
  | [] => s!"\x7b\n  \"{field}\": []\n\x7d"
  | _ :: _ =>
    s!"\x7b\n  \"{field}\": [\n    \x7b\n      \"device_id\": \"0102\",\n      \"name\": \"phone\"\n    \x7d\n  ]\n\x7d"

def listOf (field text : String) : Option (List PersistedDevice) :=
  if text = listText field [] then some [] else if text = listText field [phoneEntry] then some [phoneEntry] else none

def stateSerde : Serde PersistedState :=
  ⟨fun s => utf8 (listText "devices" s.devices), fun text => (listOf "devices" text).map PersistedState.mk⟩

def peersSerde : Serde Ffi.PersistedPeers :=
  ⟨fun s => utf8 (listText "peers" s.peers), fun text => (listOf "peers" text).map Ffi.PersistedPeers.mk⟩

/-- A save, one torn in its temporary file, and one cut off after its rename. -/
def crashes {σ : Type} (before after : σ) : List (σ × Ending) :=
  [(before, .completed), (after, .stopped 1 (some 5)), (after, .stopped 3 none)]

theorem load_latest_save_crashes :
    let d : Disk Path := fun _ => none
    let saves := runAll (PersistedState.save stateSerde devicesJson) d (crashes ⟨[phoneEntry]⟩ ⟨[]⟩)
    let peerSaves := runAll (Ffi.PersistedPeers.save peersSerde devicesJson) d (crashes ⟨[phoneEntry]⟩ ⟨[]⟩)
    Latest saves.2 (PersistedState.loadFrom stateSerde saves.1 devicesJson) ∧
      Latest peerSaves.2 (Ffi.PersistedPeers.loadFrom peersSerde peerSaves.1 devicesJson) := by
  have h := load_latest_save stateSerde peersSerde devicesJson (fun _ => none) (crashes ⟨[phoneEntry]⟩ ⟨[]⟩)
    (crashes ⟨[phoneEntry]⟩ ⟨[]⟩)
  exact ⟨h.1 (by decide +kernel) (by decide +kernel), h.2 (by decide +kernel) (by decide +kernel)⟩

end PenguinSync
