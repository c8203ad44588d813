import PenguinSync.Protocol.Message

/-!
# The persisted device list

The content of `devices.json` is kept as the list it parses to, `none` where
the file is missing or malformed.
-/

namespace PenguinSync

structure PersistedDevice where
  deviceId : String
  name : String
  deriving DecidableEq

structure PersistedState where
  devices : List PersistedDevice
  deriving DecidableEq

namespace PersistedState

def load (file : Option PersistedState) : PersistedState := file.getD ⟨[]⟩

/-- The name is set in the first entry with the id, or a new entry is added. -/
def upsertIn (hex name : String) : List PersistedDevice → List PersistedDevice
  | [] => [⟨hex, name⟩]
  | d :: ds => if d.deviceId = hex then { d with name } :: ds else d :: upsertIn hex name ds

def upsert (s : PersistedState) (id : DeviceId) (name : String) : PersistedState :=
  ⟨upsertIn (toHex id) name s.devices⟩

def remove (s : PersistedState) (id : DeviceId) : PersistedState :=
  ⟨s.devices.filter fun d => d.deviceId ≠ toHex id⟩

def deviceIds (s : PersistedState) : List DeviceId := s.devices.filterMap fun d => fromHex d.deviceId

theorem mem_upsertIn {hex name : String} : ∀ {ds : List PersistedDevice} {e : PersistedDevice},
    e ∈ upsertIn hex name ds → e.deviceId = hex ∨ e ∈ ds
  | [], e, h => by
    simp only [upsertIn, List.mem_singleton] at h
    exact Or.inl (by rw [h])
  | d :: ds, e, h => by
    unfold upsertIn at h
    split at h
    · rename_i hd
      rcases List.mem_cons.mp h with rfl | h
      · exact Or.inl hd
      · exact Or.inr (List.mem_cons_of_mem _ h)
    · rcases List.mem_cons.mp h with rfl | h
      · exact Or.inr (List.mem_cons_self ..)
      · rcases mem_upsertIn h with h | h
        · exact Or.inl h
        · exact Or.inr (List.mem_cons_of_mem _ h)

theorem mem_deviceIds {s : PersistedState} {id : DeviceId} :
    id ∈ s.deviceIds ↔ ∃ e ∈ s.devices, fromHex e.deviceId = some id := List.mem_filterMap

/-- Every entry that reads as `id` is spelled the way the daemon writes it. -/
def Canonical (s : PersistedState) (id : DeviceId) : Prop :=
  ∀ e ∈ s.devices, fromHex e.deviceId = some id → e.deviceId = toHex id

instance (s : PersistedState) (id : DeviceId) : Decidable (s.Canonical id) :=
  inferInstanceAs (Decidable (∀ e ∈ s.devices, _ → _))

theorem mem_upsert {s : PersistedState} {id d : DeviceId} {name : String} (h : d ∈ (s.upsert id name).deviceIds) :
    d = id ∨ d ∈ s.deviceIds := by
  obtain ⟨e, he, hd⟩ := mem_deviceIds.mp h
  rcases mem_upsertIn he with hid | he
  · rw [hid, fromHex_toHex, Option.some.injEq] at hd
    exact Or.inl hd.symm
  · exact Or.inr (mem_deviceIds.mpr ⟨e, he, hd⟩)

theorem mem_remove {s : PersistedState} {id d : DeviceId} (h : d ∈ (s.remove id).deviceIds) : d ∈ s.deviceIds := by
  obtain ⟨e, he, hd⟩ := mem_deviceIds.mp h
  exact mem_deviceIds.mpr ⟨e, List.mem_of_mem_filter he, hd⟩

theorem not_mem_remove {s : PersistedState} {id : DeviceId} (hc : s.Canonical id) :
    id ∉ (s.remove id).deviceIds := by
  intro h
  obtain ⟨e, he, hd⟩ := mem_deviceIds.mp h
  obtain ⟨he, hne⟩ := List.mem_filter.mp he
  exact absurd (hc e he hd) (by simpa using hne)

end PersistedState

end PenguinSync
