import Mathlib.Data.Multiset.UnionInter
import Mathlib.Data.String.Basic
import PenguinSync.Lib.Lts
import PenguinSync.Lib.Ranks
import PenguinSync.Cli.Tui

/-!
# The selected device

The TUI lists the paired devices and keeps an index into the list. Twice a
second the list is replaced; the index stays. The list is sorted by name, so a
device keeps its place as long as as many devices come in front of it as go from
there: those with a smaller name, and among those with its own name the ones
that the bus listed before it.
-/

namespace PenguinSync

open Lts Ranks

namespace Cli

/-! ## Listing -/

def deviceInterface : String := "org.penguinsync.Device1"

/-- An object of the daemon, with what reading its properties gives, if it does. -/
structure ManagedObject where
  interfaces : List String
  deviceId : Option String
  name : Option String
  connected : Option Bool
  deriving DecidableEq

structure DeviceInfo where
  deviceId : String
  name : String
  connected : Bool
  deriving DecidableEq

def readDevice (o : ManagedObject) : Option DeviceInfo :=
  if deviceInterface ∈ o.interfaces then some ⟨o.deviceId.getD "", o.name.getD "", o.connected.getD false⟩ else none

/-- The objects are in the order of a hash map. -/
def listDevices (objects : List ManagedObject) : List DeviceInfo :=
  sortBy DeviceInfo.name (objects.filterMap readDevice)

/-! ## The list on screen -/

structure App where
  devices : List DeviceInfo
  selected : Nat
  confirmation : Option PendingConfirmation
  deriving DecidableEq

inductive ListKey where
  | up
  | down
  | u
  | other (key : Key)
  deriving DecidableEq

namespace App

/-- `listed` is `none` where `list_devices` fails. -/
def new (listed : Option (List ManagedObject)) : App := ⟨(listed.map listDevices).getD [], 0, none⟩

def selectedDevice (a : App) : Option DeviceInfo := a.devices[a.selected]?

def refresh (a : App) (objects : List ManagedObject) : App := { a with devices := listDevices objects }

/-- With a confirmation open the keys of the list do nothing. The id is the one
`unpair` is called with. -/
def handleKey (a : App) (key : ListKey) : App × Option String :=
  match a.confirmation with
  | some _ =>
    match key with
    | .other .y | .other .n | .other .esc => ({ a with confirmation := none }, none)
    | _ => (a, none)
  | none =>
    match key with
    | .u => (a, a.selectedDevice.map DeviceInfo.deviceId)
    | .up => ({ a with selected := a.selected - 1 }, none)
    | .down => if a.selected + 1 < a.devices.length then ({ a with selected := a.selected + 1 }, none) else (a, none)
    | .other _ => (a, none)

def selectedId (a : App) : Option String := a.selectedDevice.map DeviceInfo.deviceId

def InRange (a : App) : Prop := a.selected < a.devices.length ∨ a.devices = []

instance (a : App) : Decidable a.InRange := inferInstanceAs (Decidable (_ ∨ _))

end App

/-! ## A session -/

/-- `chosen` is the device the user has put the selection on: the one selected
at the start, after a key that moves the selection, and where a refresh no longer
lists the one before. No step of the program reads it. -/
structure Session where
  app : App
  chosen : Option String
  deriving DecidableEq

inductive ListAct where
  | refresh (listed : Option (List ManagedObject))
  | key (key : ListKey)
  | signal (c : PendingConfirmation)

inductive ListObs where
  | refreshed (before : Option DeviceInfo) (devices : List DeviceInfo) (after : Option DeviceInfo)
  | unpaired (id : String) (chosen : Option String)
  deriving DecidableEq

namespace Session

def start (a : App) : Session := ⟨a, a.selectedId⟩

def chosenAfter (s : Session) (a : App) : Option String :=
  if ∃ d ∈ a.devices, s.chosen = some d.deviceId then s.chosen else a.selectedId

def refresh (s : Session) (objects : List ManagedObject) : Session × List ListObs :=
  let a := s.app.refresh objects
  (⟨a, s.chosenAfter a⟩, [.refreshed s.app.selectedDevice a.devices a.selectedDevice])

def handleKey (s : Session) (key : ListKey) : Session × List ListObs :=
  let r := s.app.handleKey key
  (⟨r.1, if key = .up ∨ key = .down then r.1.selectedId else s.chosen⟩, r.2.toList.map fun id => .unpaired id s.chosen)

def step (s : Session) : ListAct → Option (Session × List ListObs)
  | .refresh (some objects) => some (s.refresh objects)
  | .refresh none => some (s, [])
  | .key k => some (s.handleKey k)
  | .signal c => some ({ s with app := { s.app with confirmation := some c } }, [])

def system : System Session ListAct ListObs :=
  { init := fun s => ∃ listed, s = start (.new listed), step := step }

end Session

/-- A refresh that still lists the selected device leaves it selected, and
`unpair` gets the device the user has chosen. -/
def ListObs.Follows : ListObs → Prop
  | .refreshed before devices after => ∀ d, before = some d → (∃ d' ∈ devices, d'.deviceId = d.deviceId) →
      ∃ d', after = some d' ∧ d'.deviceId = d.deviceId
  | .unpaired id chosen => chosen = some id

/-! ## How a listing differs from the one before -/

def arrivals (old new : List String) : Nat := (new.diff old).length

def ids (ds : List DeviceInfo) : List String := ds.map DeviceInfo.deviceId

def App.inFront (a : App) : List String := ids (a.devices.take a.selected)

/-- The devices that sort in front of `d`, where the bus lists `pre` before it and `post` after it. -/
def idsInFront (pre : List DeviceInfo) (d : DeviceInfo) (post : List DeviceInfo) : List String :=
  ids (pre.filter (fun b => b.name ≤ d.name) ++ post.filter fun b => ¬ d.name ≤ b.name)

/-- As many devices come in front of the selected one as go from in front of it. Where it
goes itself, no more go than there are behind it and new ones, unless all go. -/
structure App.Keeps (a : App) (objects : List ManagedObject) : Prop where
  balanced : ∀ d, a.selectedDevice = some d → (∃ d' ∈ objects.filterMap readDevice, d'.deviceId = d.deviceId) →
    ∃ pre d' post, objects.filterMap readDevice = pre ++ d' :: post ∧ d'.deviceId = d.deviceId ∧
      arrivals a.inFront (idsInFront pre d' post) = arrivals (idsInFront pre d' post) a.inFront
  room : (∀ d, a.selectedDevice = some d → ∀ d' ∈ objects.filterMap readDevice, d'.deviceId ≠ d.deviceId) →
    objects.filterMap readDevice = [] ∨
      a.selected + arrivals (ids (objects.filterMap readDevice)) (ids a.devices) <
        a.devices.length + arrivals (ids a.devices) (ids (objects.filterMap readDevice))

def Session.Keeps (s : Session) : ListAct → Prop
  | .refresh (some objects) => s.app.Keeps objects
  | _ => True

/-! ## One refresh -/

section
variable {a : App} {objects : List ManagedObject}

theorem mem_listDevices {d : DeviceInfo} : d ∈ listDevices objects ↔ d ∈ objects.filterMap readDevice :=
  (sortBy_perm ..).mem_iff

theorem listDevices_rank {pre post : List DeviceInfo} {d : DeviceInfo}
    (h : objects.filterMap readDevice = pre ++ d :: post) :
    (listDevices objects)[rank DeviceInfo.name pre d post]? = some d := by
  unfold listDevices
  rw [h]
  exact sortBy_rank DeviceInfo.name d post pre

theorem refresh_inRange :
    (a.refresh objects).InRange ↔
      a.selected < (objects.filterMap readDevice).length ∨ objects.filterMap readDevice = [] := by
  have hlen : (listDevices objects).length = (objects.filterMap readDevice).length := (sortBy_perm ..).length_eq
  have hnil : listDevices objects = [] ↔ objects.filterMap readDevice = [] := by
    rw [← List.length_eq_zero_iff, hlen, List.length_eq_zero_iff]
  unfold App.InRange App.refresh
  rw [hlen, hnil]

theorem arrivals_length (old new : List String) : arrivals old new + old.length = arrivals new old + new.length := by
  have hnew := congrArg Multiset.card (Multiset.sub_add_inter (new : Multiset String) old)
  have hold := congrArg Multiset.card (Multiset.sub_add_inter (old : Multiset String) new)
  rw [Multiset.card_add, Multiset.coe_sub, Multiset.coe_card, Multiset.coe_card] at hnew hold
  rw [Multiset.inter_comm] at hold
  unfold arrivals
  omega

theorem idsInFront_length (pre : List DeviceInfo) (d : DeviceInfo) (post : List DeviceInfo) :
    (idsInFront pre d post).length = rank DeviceInfo.name pre d post := by
  unfold idsInFront ids rank
  rw [List.length_map, List.length_append, List.countP_eq_length_filter, List.countP_eq_length_filter]

theorem App.inFront_length {d : DeviceInfo} (h : a.selectedDevice = some d) : a.inFront.length = a.selected := by
  obtain ⟨hlt, -⟩ := List.getElem?_eq_some_iff.mp h
  unfold App.inFront ids
  rw [List.length_map, List.length_take, Nat.min_eq_left (Nat.le_of_lt hlt)]

/-- The front is balanced exactly where the selected index is still the rank. -/
theorem balanced_iff {d d' : DeviceInfo} {pre post : List DeviceInfo} (h : a.selectedDevice = some d) :
    arrivals a.inFront (idsInFront pre d' post) = arrivals (idsInFront pre d' post) a.inFront ↔
      rank DeviceInfo.name pre d' post = a.selected := by
  have hlen := arrivals_length a.inFront (idsInFront pre d' post)
  rw [App.inFront_length h, idsInFront_length] at hlen
  omega

theorem room_iff : a.selected + arrivals (ids (objects.filterMap readDevice)) (ids a.devices) <
      a.devices.length + arrivals (ids a.devices) (ids (objects.filterMap readDevice)) ↔
    a.selected < (objects.filterMap readDevice).length := by
  have hlen := arrivals_length (ids a.devices) (ids (objects.filterMap readDevice))
  unfold ids at hlen ⊢
  rw [List.length_map, List.length_map] at hlen
  omega

/-- A device listed at the selected index is in the list, so the list does not end before the index. -/
theorem room_of_selected {e : DeviceInfo} (h : (a.refresh objects).selectedDevice = some e) :
    (a.refresh objects).InRange :=
  Or.inl (List.getElem?_eq_some_iff.mp h).1

/-- A refresh keeps the selection exactly where the listing changes as `Keeps` says. -/
theorem refresh_follows_iff :
    ((a.refresh objects).InRange ∧
        (ListObs.refreshed a.selectedDevice (listDevices objects) (a.refresh objects).selectedDevice).Follows) ↔
      a.Keeps objects := by
  constructor
  · rintro ⟨hrange, hfollows⟩
    refine ⟨fun d hd ⟨d', hd', hid⟩ => ?_, fun _ => ?_⟩
    · obtain ⟨e, he, heid⟩ := hfollows d hd ⟨d', mem_listDevices.mpr hd', hid⟩
      obtain ⟨pre, post, hlist, hrank⟩ := rank_of_sortBy DeviceInfo.name he
      exact ⟨pre, e, post, hlist, heid, (balanced_iff hd).mpr hrank⟩
    · rw [room_iff]
      exact (refresh_inRange.mp hrange).symm
  · rintro ⟨hbalanced, hroom⟩
    have hfollows : (ListObs.refreshed a.selectedDevice (listDevices objects)
        (a.refresh objects).selectedDevice).Follows := by
      rintro d hd ⟨d', hd', hid⟩
      obtain ⟨pre, e, post, hlist, heid, hfront⟩ := hbalanced d hd ⟨d', mem_listDevices.mp hd', hid⟩
      refine ⟨e, ?_, heid⟩
      have hat := listDevices_rank hlist
      rw [(balanced_iff hd).mp hfront] at hat
      exact hat
    refine ⟨?_, hfollows⟩
    by_cases hstill : ∃ d, a.selectedDevice = some d ∧ ∃ d' ∈ objects.filterMap readDevice, d'.deviceId = d.deviceId
    · obtain ⟨d, hd, d', hd', hid⟩ := hstill
      obtain ⟨e, he, -⟩ := hfollows d hd ⟨d', mem_listDevices.mpr hd', hid⟩
      exact room_of_selected he
    · have hgone := hroom fun d hd d' hd' hid => hstill ⟨d, hd, d', hd', hid⟩
      rw [room_iff] at hgone
      exact refresh_inRange.mpr hgone.symm

end

/-! ## Whole runs -/

structure Session.Inv (s : Session) : Prop where
  inRange : s.app.InRange
  chosen : s.chosen = s.app.selectedId

theorem App.handleKey_inRange {a : App} (h : a.InRange) (key : ListKey) : (a.handleKey key).1.InRange := by
  unfold App.handleKey
  split
  · split
    all_goals exact h
  · split
    · exact h
    · rcases h with h | h
      · exact Or.inl (Nat.lt_of_le_of_lt (Nat.sub_le _ _) h)
      · exact Or.inr h
    · split
      · rename_i hlt
        exact Or.inl hlt
      · exact h
    · exact h

/-- A key that does not move the selection leaves it where it is. -/
theorem App.handleKey_selectedId (a : App) {key : ListKey} (hup : key ≠ .up) (hdown : key ≠ .down) :
    (a.handleKey key).1.selectedId = a.selectedId := by
  unfold App.handleKey
  split
  · split
    all_goals rfl
  · split
    · rfl
    · exact absurd rfl hup
    · exact absurd rfl hdown
    · rfl

theorem App.handleKey_unpairs {a : App} {key : ListKey} {id : String} (h : (a.handleKey key).2 = some id) :
    a.selectedId = some id := by
  unfold App.handleKey at h
  split at h
  · split at h
    all_goals cases h
  · split at h
    · exact h
    · cases h
    · split at h
      all_goals cases h
    · cases h

namespace Session

variable {s : Session}

theorem start_inv (listed : Option (List ManagedObject)) : (start (.new listed)).Inv := by
  constructor
  · unfold start App.new App.InRange
    exact (Nat.eq_zero_or_pos _).symm.imp id List.length_eq_zero_iff.mp
  · rfl

theorem refresh_inv (h : s.Inv) {objects : List ManagedObject} (hkeeps : s.app.Keeps objects) :
    (s.refresh objects).1.Inv ∧ ∀ o ∈ (s.refresh objects).2, o.Follows := by
  obtain ⟨hrange, hfollows⟩ := refresh_follows_iff.mpr hkeeps
  refine ⟨⟨hrange, ?_⟩, fun o ho => ?_⟩
  · have hchosen : (s.refresh objects).1.chosen = s.chosenAfter (s.app.refresh objects) := rfl
    rw [hchosen]
    unfold chosenAfter
    split
    · -- the choice is still listed, and was what was selected
      rename_i hlisted
      obtain ⟨d', hd', hid⟩ := hlisted
      obtain ⟨d, hd, hdid⟩ := Option.map_eq_some_iff.mp (h.chosen.symm.trans hid)
      obtain ⟨e, he, heid⟩ := hfollows d hd ⟨d', hd', hdid.symm⟩
      have hafter : (s.app.refresh objects).selectedId = some d'.deviceId := by
        unfold App.selectedId
        rw [he, Option.map_some, heid, hdid]
      exact hid.trans hafter.symm
    · rfl
  · rw [List.mem_singleton.mp ho]
    exact hfollows

theorem handleKey_inv (h : s.Inv) (key : ListKey) :
    (s.handleKey key).1.Inv ∧ ∀ o ∈ (s.handleKey key).2, o.Follows := by
  refine ⟨⟨App.handleKey_inRange h.inRange key, ?_⟩, fun o ho => ?_⟩
  · unfold handleKey
    simp only
    split
    · rfl
    · rename_i hmoves
      rw [App.handleKey_selectedId _ (fun hup => hmoves (Or.inl hup)) fun hdown => hmoves (Or.inr hdown)]
      exact h.chosen
  · obtain ⟨id, hid, rfl⟩ := List.mem_map.mp ho
    exact h.chosen.trans (App.handleKey_unpairs (Option.mem_toList.mp hid))

theorem step_inv (h : s.Inv) {act : ListAct} (hkeeps : s.Keeps act) {s' : Session} {os : List ListObs}
    (hs : s.step act = some (s', os)) : s'.Inv ∧ ∀ o ∈ os, o.Follows := by
  cases act with
  | refresh listed =>
    cases listed with
    | none =>
      cases hs
      exact ⟨h, List.forall_mem_nil _⟩
    | some objects =>
      cases hs
      exact refresh_inv h hkeeps
  | key k =>
    cases hs
    exact handleKey_inv h k
  | signal c =>
    cases hs
    exact ⟨⟨h.inRange, h.chosen⟩, List.forall_mem_nil _⟩

def phone (id name : String) : ManagedObject := ⟨[deviceInterface], some id, some name, some true⟩

/-- A refresh that leaves the selected id in place. -/
def keepsId (s : Session) : ListAct → Bool
  | .refresh (some objects) =>
    decide ((s.app.refresh objects).InRange ∧ (s.app.refresh objects).selectedId = s.app.selectedId)
  | _ => true

theorem keepsId_sound {a : ListAct} (h : s.keepsId a = true) : s.Keeps a := by
  cases a with
  | refresh listed =>
    cases listed with
    | none => trivial
    | some objects =>
      obtain ⟨hrange, hid⟩ := of_decide_eq_true h
      apply refresh_follows_iff.mp
      refine ⟨hrange, fun d hd _ => ?_⟩
      have hsel : s.app.selectedId = some d.deviceId := congrArg (Option.map DeviceInfo.deviceId) hd
      exact Option.map_eq_some_iff.mp (hid.trans hsel)
  | key k => trivial
  | signal c => trivial

/-- A third device is listed in front on the bus, and sorts behind. -/
def thirdDevice : List ListAct :=
  [.key .down, .refresh (some [phone "cc" "watch", phone "bb" "tablet", phone "aa" "pixel"]), .key .u]

def twoNames : Session := start (.new (some [phone "aa" "pixel", phone "bb" "tablet"]))

/-- Two phones of one name, listed the other way round a moment later. -/
def sameName : Session := start (.new (some [phone "aa" "pixel", phone "bb" "pixel"]))

def swapped : List ListAct := [.refresh (some [phone "bb" "pixel", phone "aa" "pixel"]), .key .u]

/-- The second phone goes away while it is selected. -/
def gone : List ListAct := [.key .down, .refresh (some [phone "aa" "pixel"])]

end Session

end Cli

end PenguinSync
