import PenguinSync.Lib.Keyed
import PenguinSync.Store.Saves

/-!
# The device list as a finite map

The daemon keys the list by the hex of a device id and reads ids back by
decoding. Only `upsert` adds entries, so every key is one that was encoded, and
comparing keys is comparing ids; the list then stands for the map from each id
to the name it was last given.
-/

namespace PenguinSync

open Files

/-! ## Operations on the list -/

inductive DeviceOp where
  | upsert (id : DeviceId) (name : String)
  | remove (id : DeviceId)
  | saveLoad
  deriving DecidableEq

namespace DeviceOp

def run (serde : Serde PersistedState) (path : FilePath) :
    Disk Path × PersistedState → DeviceOp → Disk Path × PersistedState
  | (d, s), .upsert id name => (d, s.upsert id name)
  | (d, s), .remove id => (d, s.remove id)
  | (d, s), .saveLoad =>
    let d := (Files.run d (s.save serde path) .completed).1
    (d, PersistedState.loadFrom serde d path)

def runAll (serde : Serde PersistedState) (path : FilePath) (d : Disk Path) (ops : List DeviceOp) :
    Disk Path × PersistedState :=
  ops.foldl (run serde path) (d, ⟨[]⟩)

def apply (m : DeviceId → Option String) : DeviceOp → DeviceId → Option String
  | .upsert id name => Function.update m id (some name)
  | .remove id => Function.update m id none
  | .saveLoad => m

def mapOf (ops : List DeviceOp) : DeviceId → Option String := ops.foldl apply fun _ => none

def Changes (id : DeviceId) : DeviceOp → Prop
  | .upsert id' _ => id' = id
  | .remove id' => id' = id
  | .saveLoad => False

def LatestUpsert (ops : List DeviceOp) (id : DeviceId) (name : String) : Prop :=
  ∃ before after, ops = before ++ .upsert id name :: after ∧ ∀ op ∈ after, ¬ op.Changes id

def Kept (ops : List DeviceOp) (id : DeviceId) : Prop :=
  ∃ before name after, ops = before ++ .upsert id name :: after ∧ .remove id ∉ after

/-! ## The map an operation sequence leaves -/

theorem mapOf_append (ops : List DeviceOp) (op : DeviceOp) : mapOf (ops ++ [op]) = apply (mapOf ops) op := by
  unfold mapOf
  rw [List.foldl_append]
  rfl

theorem apply_other {m : DeviceId → Option String} {op : DeviceOp} {id : DeviceId} (h : ¬ op.Changes id) :
    apply m op id = m id := by
  cases op with
  | upsert id' name => exact Function.update_of_ne (Ne.symm h) _ _
  | remove id' => exact Function.update_of_ne (Ne.symm h) _ _
  | saveLoad => rfl

theorem LatestUpsert.append {ops : List DeviceOp} {id : DeviceId} {name : String} (h : LatestUpsert ops id name)
    {op : DeviceOp} (hop : ¬ op.Changes id) : LatestUpsert (ops ++ [op]) id name := by
  obtain ⟨before, after, rfl, hafter⟩ := h
  refine ⟨before, after ++ [op], by rw [List.append_assoc, List.cons_append], fun o ho => ?_⟩
  rcases List.mem_append.mp ho with ho | ho
  · exact hafter o ho
  · rw [List.mem_singleton.mp ho]
    exact hop

theorem latest_of_mapOf (ops : List DeviceOp) : ∀ {id name}, mapOf ops id = some name → LatestUpsert ops id name := by
  induction ops using List.reverseRecOn with
  | nil => exact fun h => nomatch h
  | append_singleton ops op ih =>
    intro id name h
    rw [mapOf_append] at h
    by_cases hop : op.Changes id
    · cases op with
      | upsert id' name' =>
        obtain rfl : id' = id := hop
        rw [apply, Function.update_self, Option.some.injEq] at h
        subst h
        exact ⟨ops, [], rfl, List.forall_mem_nil _⟩
      | remove id' =>
        obtain rfl : id' = id := hop
        rw [apply, Function.update_self] at h
        cases h
      | saveLoad => exact hop.elim
    · exact (ih ((apply_other hop).symm.trans h)).append hop

/-- An id is in the map as long as no removal follows its upsert. -/
theorem mapOf_isSome (ops : List DeviceOp) : ∀ {id}, (mapOf ops id).isSome ↔ Kept ops id := by
  intro id
  constructor
  · intro h
    obtain ⟨name, hname⟩ := Option.isSome_iff_exists.mp h
    obtain ⟨before, after, hops, hafter⟩ := latest_of_mapOf ops hname
    exact ⟨before, name, after, hops, fun hr => hafter _ hr rfl⟩
  · rintro ⟨before, name, after, rfl, hafter⟩
    induction after using List.reverseRecOn with
    | nil =>
      rw [mapOf_append, apply, Function.update_self]
      rfl
    | append_singleton after op ih =>
      have hop : op ≠ .remove id := fun h => hafter (h ▸ List.mem_append_right _ List.mem_cons_self)
      have hrest := ih fun h => hafter (List.mem_append_left _ h)
      rw [← List.cons_append, ← List.append_assoc, mapOf_append]
      by_cases hc : op.Changes id
      · cases op with
        | upsert id' name' =>
          obtain rfl : id' = id := hc
          rw [apply, Function.update_self]
          rfl
        | remove id' => exact absurd (congrArg DeviceOp.remove hc) hop
        | saveLoad => exact hc.elim
      · rw [apply_other hc]
        exact hrest

end DeviceOp

theorem toHex_injective : Function.Injective toHex := fun a b h =>
  Option.some.inj ((fromHex_toHex a).symm.trans ((congrArg fromHex h).trans (fromHex_toHex b)))

namespace PersistedState

/-! ## The list is a keyed one -/

def named (name : String) (d : PersistedDevice) : PersistedDevice := { d with name }

theorem deviceId_named (name : String) (d : PersistedDevice) : (named name d).deviceId = d.deviceId := rfl

theorem deviceId_new (hex name : String) : (PersistedDevice.mk hex name).deviceId = hex := rfl

theorem upsertIn_eq (hex name : String) : ∀ ds : List PersistedDevice,
    upsertIn hex name ds = Keyed.upsert PersistedDevice.deviceId hex (named name) ⟨hex, name⟩ ds
  | [] => rfl
  | d :: ds => by
    unfold upsertIn Keyed.upsert
    rw [upsertIn_eq hex name ds]
    rfl

theorem upsert_devices (s : PersistedState) (id : DeviceId) (name : String) : (s.upsert id name).devices =
    Keyed.upsert PersistedDevice.deviceId (toHex id) (named name) ⟨toHex id, name⟩ s.devices := upsertIn_eq ..

theorem remove_devices (s : PersistedState) (id : DeviceId) :
    (s.remove id).devices = Keyed.remove PersistedDevice.deviceId (toHex id) s.devices := rfl

/-- The list stands for the map, under the keys the daemon writes. -/
structure Refines (s : PersistedState) (m : DeviceId → Option String) : Prop where
  encoded : ∀ e ∈ s.devices, ∃ id, e.deviceId = toHex id
  unique : (s.devices.map PersistedDevice.deviceId).Nodup
  names : ∀ id, (Keyed.lookup PersistedDevice.deviceId (toHex id) s.devices).map PersistedDevice.name = m id

/-- The entries that read as `id`, and the others. -/
def entriesOf (s : PersistedState) (id : DeviceId) : List PersistedDevice :=
  s.devices.filter fun e => fromHex e.deviceId = some id

def othersOf (s : PersistedState) (id : DeviceId) : List PersistedDevice :=
  s.devices.filter fun e => fromHex e.deviceId ≠ some id

theorem refines_empty : Refines ⟨[]⟩ fun _ => none :=
  { encoded := List.forall_mem_nil _, unique := List.nodup_nil, names := fun _ => rfl }

section
variable {s : PersistedState} {m : DeviceId → Option String} (h : s.Refines m)
include h

theorem Refines.upsert (id : DeviceId) (name : String) :
    (s.upsert id name).Refines (Function.update m id (some name)) := by
  constructor
  · intro e he
    rcases mem_upsertIn he with hid | he
    · exact ⟨id, hid⟩
    · exact h.encoded e he
  · rw [upsert_devices]
    exact Keyed.nodup_upsert (deviceId_named name) (deviceId_new _ name) h.unique
  · intro id'
    rw [upsert_devices]
    by_cases hid : id' = id
    · subst hid
      rw [Keyed.lookup_upsert_self (deviceId_named name) (deviceId_new _ name), Function.update_self]
      cases Keyed.lookup PersistedDevice.deviceId (toHex id') s.devices with
      | none => rfl
      | some d => rfl
    · rw [Function.update_of_ne hid, ← h.names id']
      exact congrArg _ (Keyed.lookup_of_remove _ (toHex_injective.ne hid) (Keyed.remove_upsert (deviceId_named name) (deviceId_new _ name) _))

theorem Refines.remove (id : DeviceId) : (s.remove id).Refines (Function.update m id none) := by
  constructor
  · intro e he
    exact h.encoded e (List.mem_of_mem_filter he)
  · exact Keyed.nodup_remove _ h.unique _
  · intro id'
    rw [remove_devices]
    by_cases hid : id' = id
    · subst hid
      rw [Keyed.lookup_remove_self, Function.update_self]
      rfl
    · rw [Function.update_of_ne hid, ← h.names id', Keyed.lookup_remove_ne _ (toHex_injective.ne hid)]

/-! ## Reading the list by id -/

theorem Refines.reads {e : PersistedDevice} (he : e ∈ s.devices) (id : DeviceId) :
    fromHex e.deviceId = some id ↔ e.deviceId = toHex id := by
  obtain ⟨id', hid'⟩ := h.encoded e he
  rw [hid', fromHex_toHex, Option.some.injEq]
  exact toHex_injective.eq_iff.symm

theorem Refines.othersOf_eq (id : DeviceId) :
    s.othersOf id = Keyed.remove PersistedDevice.deviceId (toHex id) s.devices :=
  List.filter_congr fun e he => by rw [decide_eq_decide, ne_eq, ne_eq, h.reads he id]

theorem Refines.mem_deviceIds {id : DeviceId} : id ∈ s.deviceIds ↔ (m id).isSome := by
  rw [PersistedState.mem_deviceIds, ← h.names id, Option.isSome_map]
  constructor
  · rintro ⟨e, he, hid⟩
    rw [← (h.reads he id).mp hid, Keyed.lookup_of_mem _ h.unique he]
    rfl
  · intro hl
    obtain ⟨e, he⟩ := Option.isSome_iff_exists.mp hl
    have hmem := Keyed.mem_of_lookup _ he
    exact ⟨e, hmem, (h.reads hmem id).mpr (Keyed.key_of_lookup _ he)⟩

theorem Refines.name_of_mem {e : PersistedDevice} (he : e ∈ s.devices) :
    ∃ id, e.deviceId = toHex id ∧ m id = some e.name := by
  obtain ⟨id, hid⟩ := h.encoded e he
  refine ⟨id, hid, ?_⟩
  rw [← h.names id, ← hid, Keyed.lookup_of_mem _ h.unique he]
  rfl

theorem Refines.nodup_deviceIds : s.deviceIds.Nodup := by
  have hmap : s.deviceIds.map toHex = s.devices.map PersistedDevice.deviceId := by
    unfold deviceIds
    rw [List.map_filterMap]
    refine List.filterMap_eq_map_iff_forall_eq_some.mpr fun e he => ?_
    obtain ⟨id, hid⟩ := h.encoded e he
    rw [hid, fromHex_toHex]
    rfl
  exact List.Nodup.of_map _ (hmap ▸ h.unique)

theorem Refines.entriesOf_length (id : DeviceId) : (s.entriesOf id).length ≤ 1 := by
  have hsame : ∀ e ∈ s.entriesOf id, e.deviceId = toHex id := fun e he => by
    obtain ⟨he, hid⟩ := List.mem_filter.mp he
    exact (h.reads he id).mp (of_decide_eq_true hid)
  have hnodup : ((s.entriesOf id).map PersistedDevice.deviceId).Nodup :=
    h.unique.sublist (List.filter_sublist.map _)
  rw [List.eq_replicate_of_mem (a := toHex id) (List.forall_mem_map.mpr hsame), List.nodup_replicate] at hnodup
  simpa using hnodup

end

end PersistedState

/-! ## Whole sequences -/

theorem loadFrom_save {serde : Serde PersistedState} {path : FilePath} {s : PersistedState}
    (h : serde.RoundTrips s) (d : Disk Path) :
    PersistedState.loadFrom serde (Files.run d (s.save serde path) .completed).1 path = s := by
  have hbytes : (Files.run d (s.save serde path) .completed).1 path.path = some (serde.toVecPretty s) :=
    replace_new (Or.inl rfl)
  unfold PersistedState.loadFrom Serde.content
  rw [hbytes]
  exact congrArg PersistedState.load h

namespace DeviceOp

section
variable {serde : Serde PersistedState} {path : FilePath} {d : Disk Path}

theorem runAll_append (ops : List DeviceOp) (op : DeviceOp) :
    runAll serde path d (ops ++ [op]) = run serde path (runAll serde path d ops) op := by
  unfold runAll
  rw [List.foldl_append]
  rfl

theorem run_refines {x : Disk Path × PersistedState} {m : DeviceId → Option String} (h : x.2.Refines m)
    (op : DeviceOp) (hround : op = .saveLoad → serde.RoundTrips x.2) : (run serde path x op).2.Refines (apply m op) := by
  cases op with
  | upsert id name => exact h.upsert id name
  | remove id => exact h.remove id
  | saveLoad =>
    have hload : (run serde path x .saveLoad).2 = x.2 := loadFrom_save (hround rfl) x.1
    rw [hload]
    exact h

theorem runAll_refines (ops : List DeviceOp)
    (hround : ∀ before after, ops = before ++ .saveLoad :: after → serde.RoundTrips (runAll serde path d before).2) :
    (runAll serde path d ops).2.Refines (mapOf ops) := by
  induction ops using List.reverseRecOn with
  | nil => exact PersistedState.refines_empty
  | append_singleton ops op ih =>
    rw [runAll_append, mapOf_append]
    apply run_refines
    · apply ih
      rintro before after rfl
      exact hround before (after ++ [op]) (by rw [List.append_assoc, List.cons_append])
    · rintro rfl
      exact hround ops [] rfl

/-- From the empty list, whatever is on disk: one entry at most for an id, ids
upserted and not removed since, each under its latest name, and no operation
touches the entries of other ids. -/
theorem devices_refine_map (serde : Serde PersistedState) (path : FilePath) (d : Disk Path) (ops : List DeviceOp)
    (hround : ∀ before after, ops = before ++ .saveLoad :: after → serde.RoundTrips (runAll serde path d before).2) :
    let s := (runAll serde path d ops).2
    s.Refines (mapOf ops) ∧ (∀ id, (s.entriesOf id).length ≤ 1) ∧
      s.deviceIds.Nodup ∧ (∀ id, id ∈ s.deviceIds ↔ Kept ops id) ∧
      (∀ e ∈ s.devices, ∃ id, e.deviceId = toHex id ∧ LatestUpsert ops id e.name) ∧
      ∀ id name, (s.upsert id name).othersOf id = s.othersOf id ∧ (s.remove id).othersOf id = s.othersOf id := by
  intro s
  have h : s.Refines (mapOf ops) := runAll_refines ops hround
  refine ⟨h, h.entriesOf_length, h.nodup_deviceIds, fun id => ?_, fun e he => ?_, fun id name => ⟨?_, ?_⟩⟩
  · rw [h.mem_deviceIds, mapOf_isSome]
  · obtain ⟨id, hid, hname⟩ := h.name_of_mem he
    exact ⟨id, hid, latest_of_mapOf ops hname⟩
  · rw [(h.upsert id name).othersOf_eq, h.othersOf_eq, PersistedState.upsert_devices]
    exact Keyed.remove_upsert (PersistedState.deviceId_named name) (PersistedState.deviceId_new _ name) _
  · rw [(h.remove id).othersOf_eq, h.othersOf_eq, PersistedState.remove_devices]
    exact Keyed.remove_remove PersistedDevice.deviceId _ _

end

/-! ## Two phones, one renamed after a restart and one removed -/

def prettyEntry (e : PersistedDevice) : String :=
  s!"    \x7b\n      \"device_id\": \"{e.deviceId}\",\n      \"name\": \"{e.name}\"\n    \x7d"

/-- The text of a list whose names need no escapes. -/
def pretty (s : PersistedState) : String :=
  "\x7b\n  \"devices\": [\n" ++ ",\n".intercalate (s.devices.map prettyEntry) ++ "\n  ]\n\x7d"

/-- Reads back the texts of some lists. -/
def serdeFor (lists : List PersistedState) : Serde PersistedState :=
  ⟨fun s => utf8 (pretty s), fun text => lists.find? fun s => pretty s = text⟩

def pixel : DeviceId := Bytes.fill 32 0xA1

def tablet : DeviceId := Bytes.fill 32 7

def restart : List DeviceOp :=
  [.upsert pixel "pixel", .upsert tablet "tablet", .saveLoad, .upsert pixel "renamed", .remove tablet]

def savedList : PersistedState := ⟨[⟨toHex pixel, "pixel"⟩, ⟨toHex tablet, "tablet"⟩]⟩

theorem serdeFor_roundTrips (s : PersistedState) : (serdeFor [s]).RoundTrips s := by
  have hread : (serdeFor [s]).parse (utf8 (pretty s)) = [s].find? fun s' => pretty s' = pretty s := by
    unfold Serde.parse serdeFor
    rw [fromUtf8_utf8, Option.bind_some]
  exact hread.trans (List.find?_cons_of_pos (by simp))

theorem devices_refine_map_restart :
    let s := (runAll (serdeFor [savedList]) devicesJson (fun _ => none) restart).2
    s.Refines (mapOf restart) ∧ mapOf restart pixel = some "renamed" ∧ mapOf restart tablet = none ∧
      ∀ id, id ∈ s.deviceIds ↔ Kept restart id := by
  have hsaved : ∀ i < 5, restart[i]? = some .saveLoad →
      (runAll (serdeFor [savedList]) devicesJson (fun _ => none) (restart.take i)).2 = savedList := by decide +kernel
  have h := devices_refine_map (serdeFor [savedList]) devicesJson (fun _ => none) restart fun before after hops => by
    have hat : restart[before.length]? = some .saveLoad := by
      rw [hops, List.getElem?_append_right (Nat.le_refl _), Nat.sub_self]
      rfl
    have hbefore := hsaved before.length (List.getElem?_eq_some_iff.mp hat).1 hat
    rw [hops, List.take_left] at hbefore
    rw [hbefore]
    exact serdeFor_roundTrips savedList
  exact ⟨h.1, by decide +kernel, by decide +kernel, h.2.2.2.1⟩

end DeviceOp

end PenguinSync
