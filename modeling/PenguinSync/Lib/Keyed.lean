import Mathlib.Data.List.Basic
import Mathlib.Data.List.Nodup

/-!
# Lists with a key as finite maps

A list whose elements carry a key stands for the map that sends a key to the
first element that has it. `upsert` changes that element where it is, or
appends one; `remove` drops every element with the key, and so what is left is
the elements with other keys, in their order.
-/

namespace Keyed

section
variable {α κ : Type*} [DecidableEq κ] (key : α → κ)

def upsert (k : κ) (change : α → α) (new : α) : List α → List α
  | [] => [new]
  | a :: l => if key a = k then change a :: l else a :: upsert k change new l

def remove (k : κ) (l : List α) : List α := l.filter fun a => key a ≠ k

def lookup (k : κ) (l : List α) : Option α := l.find? fun a => key a = k

theorem lookup_cons_self {k : κ} {a : α} (h : key a = k) (l : List α) : lookup key k (a :: l) = some a :=
  List.find?_cons_of_pos (by simpa using h)

theorem lookup_cons_ne {k : κ} {a : α} (h : key a ≠ k) (l : List α) : lookup key k (a :: l) = lookup key k l :=
  List.find?_cons_of_neg (by simpa using h)

theorem remove_cons_self {k : κ} {a : α} (h : key a = k) (l : List α) : remove key k (a :: l) = remove key k l :=
  List.filter_cons_of_neg (by simpa using h)

theorem remove_cons_ne {k : κ} {a : α} (h : key a ≠ k) (l : List α) : remove key k (a :: l) = a :: remove key k l :=
  List.filter_cons_of_pos (by simpa using h)

/-! ## What an operation leaves alone -/

section
variable {key} {k : κ} {change : α → α} {new : α} (hchange : ∀ a, key (change a) = key a) (hnew : key new = k)
include hchange hnew

theorem remove_upsert : ∀ l : List α, remove key k (upsert key k change new l) = remove key k l
  | [] => remove_cons_self key hnew []
  | a :: l => by
    unfold upsert
    by_cases h : key a = k
    · rw [if_pos h, remove_cons_self key ((hchange a).trans h), remove_cons_self key h]
    · rw [if_neg h, remove_cons_ne key h, remove_cons_ne key h, remove_upsert l]

theorem keys_upsert : ∀ l : List α, (upsert key k change new l).map key =
    if k ∈ l.map key then l.map key else l.map key ++ [k]
  | [] => by
    rw [List.map_nil, if_neg List.not_mem_nil]
    exact congrArg (fun k => [k]) hnew
  | a :: l => by
    unfold upsert
    by_cases h : key a = k
    · rw [if_pos h, if_pos (by rw [List.map_cons, h]; exact List.mem_cons_self), List.map_cons, hchange, List.map_cons]
    · have hmem : k ∈ (a :: l).map key ↔ k ∈ l.map key := by
        rw [List.map_cons, List.mem_cons]
        exact or_iff_right fun hk => h hk.symm
      rw [if_neg h, List.map_cons, keys_upsert l]
      by_cases hk : k ∈ l.map key
      · rw [if_pos hk, if_pos (hmem.mpr hk), List.map_cons]
      · rw [if_neg hk, if_neg (mt hmem.mp hk), List.map_cons, List.cons_append]

theorem nodup_upsert {l : List α} (h : (l.map key).Nodup) : ((upsert key k change new l).map key).Nodup := by
  rw [keys_upsert hchange hnew]
  by_cases hk : k ∈ l.map key
  · rw [if_pos hk]
    exact h
  · rw [if_neg hk]
    exact List.nodup_append.mpr ⟨h, List.nodup_singleton k, fun a ha b hb => by
      rw [List.mem_singleton.mp hb]
      exact ne_of_mem_of_not_mem ha hk⟩

theorem lookup_upsert_self : ∀ l : List α,
    lookup key k (upsert key k change new l) = some (((lookup key k l).map change).getD new)
  | [] => lookup_cons_self key hnew []
  | a :: l => by
    unfold upsert
    by_cases h : key a = k
    · rw [if_pos h, lookup_cons_self key ((hchange a).trans h), lookup_cons_self key h]
      rfl
    · rw [if_neg h, lookup_cons_ne key h, lookup_cons_ne key h, lookup_upsert_self l]

end

theorem nodup_remove {l : List α} (h : (l.map key).Nodup) (k : κ) : ((remove key k l).map key).Nodup :=
  h.sublist (List.filter_sublist.map key)

theorem lookup_remove_self (k : κ) (l : List α) : lookup key k (remove key k l) = none :=
  List.find?_eq_none.mpr fun a ha => by simpa using (List.mem_filter.mp ha).2

theorem remove_remove (k : κ) (l : List α) : remove key k (remove key k l) = remove key k l := by
  unfold remove
  rw [List.filter_filter]
  simp only [Bool.and_self]

/-! ## The map -/

/-- What a key leads to is decided by the elements that are kept when another key is dropped. -/
theorem lookup_remove_ne {k k' : κ} (h : k' ≠ k) : ∀ l : List α, lookup key k' (remove key k l) = lookup key k' l
  | [] => rfl
  | a :: l => by
    by_cases ha : key a = k
    · rw [remove_cons_self key ha, lookup_cons_ne key (fun hk => h (hk.symm.trans ha)), lookup_remove_ne h l]
    · rw [remove_cons_ne key ha]
      by_cases hk : key a = k'
      · rw [lookup_cons_self key hk, lookup_cons_self key hk]
      · rw [lookup_cons_ne key hk, lookup_cons_ne key hk, lookup_remove_ne h l]

/-- An operation that keeps the other elements keeps what the other keys lead to. -/
theorem lookup_of_remove {k k' : κ} (h : k' ≠ k) {l l' : List α} (hl : remove key k l' = remove key k l) :
    lookup key k' l' = lookup key k' l := by
  rw [← lookup_remove_ne key h l', hl, lookup_remove_ne key h l]

theorem key_of_lookup {k : κ} {l : List α} {a : α} (h : lookup key k l = some a) : key a = k := by
  simpa using List.find?_some h

theorem mem_of_lookup {k : κ} {l : List α} {a : α} (h : lookup key k l = some a) : a ∈ l := List.mem_of_find?_eq_some h

/-- With one element for each key, every element is the one its key leads to. -/
theorem lookup_of_mem : ∀ {l : List α}, (l.map key).Nodup → ∀ {a : α}, a ∈ l → lookup key (key a) l = some a
  | b :: l, hl, a, ha => by
    obtain ⟨hb, hl⟩ := List.nodup_cons.mp hl
    rcases List.mem_cons.mp ha with rfl | ha
    · exact lookup_cons_self key rfl l
    · have hne : key b ≠ key a := fun h => hb (h ▸ List.mem_map_of_mem ha)
      rw [lookup_cons_ne key hne]
      exact lookup_of_mem hl ha

end

end Keyed
