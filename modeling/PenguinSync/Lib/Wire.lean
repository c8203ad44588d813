import Mathlib.Data.List.Basic
import Mathlib.Data.List.Nodup
import Mathlib.Tactic.Ring
import Mathlib.Algebra.Order.Group.Nat

/-!
# Wire formats

A `Format` writes values as bytes and reads them back from the front of a byte
list, leaving what it did not consume. Reading need not be injective: a value
may have encodings the writer never produces, but none shorter than the
writer's (`put_le`). Formats are closed under the usual combinators, each of
which carries the proof for the one it builds.
-/

namespace Wire

/-- `ok` are the values the format can carry. -/
structure Format (α : Type*) where
  put : α → List UInt8
  get : List UInt8 → Option (α × List UInt8)
  ok : α → Prop
  get_put : ∀ {a : α} (rest : List UInt8), ok a → get (put a ++ rest) = some (a, rest)
  put_le : ∀ {bs : List UInt8} {a : α} {rest : List UInt8}, get bs = some (a, rest) →
    ok a ∧ (put a).length + rest.length ≤ bs.length

variable {α β : Type*}

namespace Format

def byte : Format UInt8 where
  put b := [b]
  get
    | [] => none
    | b :: bs => some (b, bs)
  ok _ := True
  get_put _ _ := rfl
  put_le {bs a rest} h := by
    cases bs with
    | nil => cases h
    | cons b bs => simp at h; obtain ⟨rfl, rfl⟩ := h; simp; omega

/-! ## Combinators -/

def seq (F : Format α) (G : Format β) : Format (α × β) where
  put p := F.put p.1 ++ G.put p.2
  get bs := (F.get bs).bind fun p => (G.get p.2).map fun q => ((p.1, q.1), q.2)
  ok p := F.ok p.1 ∧ G.ok p.2
  get_put {p} rest h := by
    simp [List.append_assoc, F.get_put _ h.1, G.get_put _ h.2]
  put_le {bs a rest} h := by
    obtain ⟨⟨x, bs₁⟩, hx, h⟩ := Option.bind_eq_some_iff.mp h
    obtain ⟨⟨y, bs₂⟩, hy, h⟩ := Option.map_eq_some_iff.mp h
    simp only [Prod.mk.injEq] at h
    obtain ⟨rfl, rfl⟩ := h
    have h1 := F.put_le hx
    have h2 := G.put_le hy
    refine ⟨⟨h1.1, h2.1⟩, ?_⟩
    simp only [List.length_append] at h1 h2 ⊢
    omega

/-- A value whose format depends on the one before it. -/
def dep {κ : α → Type*} (F : Format α) (G : ∀ a, Format (κ a)) : Format (Σ a, κ a) where
  put p := F.put p.1 ++ (G p.1).put p.2
  get bs := (F.get bs).bind fun p => ((G p.1).get p.2).map fun q => (⟨p.1, q.1⟩, q.2)
  ok p := F.ok p.1 ∧ (G p.1).ok p.2
  get_put {p} rest h := by
    simp [List.append_assoc, F.get_put _ h.1, (G p.1).get_put _ h.2]
  put_le {bs a rest} h := by
    obtain ⟨⟨x, bs₁⟩, hx, h⟩ := Option.bind_eq_some_iff.mp h
    obtain ⟨⟨y, bs₂⟩, hy, h⟩ := Option.map_eq_some_iff.mp h
    simp only [Prod.mk.injEq] at h
    obtain ⟨rfl, rfl⟩ := h
    have h1 := F.put_le hx
    have h2 := (G x).put_le hy
    refine ⟨⟨h1.1, h2.1⟩, ?_⟩
    simp only [List.length_append] at h1 h2 ⊢
    omega

/-- Read through a partial conversion that `g` inverts. -/
def part (F : Format α) (f : α → Option β) (g : β → α) (hfg : ∀ b, f (g b) = some b)
    (hgf : ∀ {a b}, f a = some b → g b = a) : Format β where
  put b := F.put (g b)
  get bs := (F.get bs).bind fun p => (f p.1).map fun b => (b, p.2)
  ok b := F.ok (g b)
  get_put {b} rest h := by simp [F.get_put rest h, hfg]
  put_le {bs b rest} h := by
    obtain ⟨⟨a, bs₁⟩, ha, h⟩ := Option.bind_eq_some_iff.mp h
    obtain ⟨b', hb, h⟩ := Option.map_eq_some_iff.mp h
    simp only [Prod.mk.injEq] at h
    obtain ⟨rfl, rfl⟩ := h
    rw [hgf hb]
    exact F.put_le ha

def iso (F : Format α) (e : α ≃ β) : Format β :=
  F.part (fun a => some (e a)) e.symm (fun b => by simp) (fun h => by
    simp only [Option.some.injEq] at h; rw [← h, e.symm_apply_apply])

/-- A one-byte presence tag, then the value. -/
def option (F : Format α) : Format (Option α) where
  put
    | none => [0]
    | some a => 1 :: F.put a
  get
    | [] => none
    | b :: bs =>
      if b = 0 then some (none, bs)
      else if b = 1 then (F.get bs).map fun p => (some p.1, p.2)
      else none
  ok
    | none => True
    | some a => F.ok a
  get_put {o} rest h := by
    cases o with
    | none => simp
    | some a => simp [F.get_put rest h]
  put_le {bs o rest} h := by
    cases bs with
    | nil => cases h
    | cons b bs =>
      simp only at h
      split at h
      · simp only [Option.some.injEq, Prod.mk.injEq] at h
        obtain ⟨rfl, rfl⟩ := h
        simp; omega
      · split at h
        · obtain ⟨⟨a, bs₁⟩, ha, h⟩ := Option.map_eq_some_iff.mp h
          simp only [Prod.mk.injEq] at h
          obtain ⟨rfl, rfl⟩ := h
          have := F.put_le ha
          refine ⟨this.1, ?_⟩
          simp only [List.length_cons]
          omega
        · cases h

/-! ## Sequences -/

def getN (F : Format α) : Nat → List UInt8 → Option (List α × List UInt8)
  | 0, bs => some ([], bs)
  | n + 1, bs => (F.get bs).bind fun p => (getN F n p.2).map fun q => (p.1 :: q.1, q.2)

theorem getN_put (F : Format α) : ∀ {l : List α} (rest : List UInt8), (∀ x ∈ l, F.ok x) →
    getN F l.length (l.flatMap F.put ++ rest) = some (l, rest)
  | [], rest, _ => rfl
  | x :: l, rest, h => by
    have hl : ∀ y ∈ l, F.ok y := fun y hy => h y (List.mem_cons_of_mem x hy)
    simp only [List.length_cons, List.flatMap_cons, List.append_assoc, getN,
      F.get_put _ (h x List.mem_cons_self), Option.bind_some, getN_put F rest hl, Option.map_some]

theorem getN_le (F : Format α) : ∀ {n : Nat} {bs : List UInt8} {l : List α} {rest : List UInt8},
    getN F n bs = some (l, rest) →
      l.length = n ∧ (∀ x ∈ l, F.ok x) ∧ (l.flatMap F.put).length + rest.length ≤ bs.length
  | 0, bs, l, rest, h => by
    simp only [getN, Option.some.injEq, Prod.mk.injEq] at h
    obtain ⟨rfl, rfl⟩ := h
    simp
  | n + 1, bs, l, rest, h => by
    simp only [getN] at h
    obtain ⟨⟨x, bs₁⟩, hx, h⟩ := Option.bind_eq_some_iff.mp h
    obtain ⟨⟨l', bs₂⟩, hl, h⟩ := Option.map_eq_some_iff.mp h
    simp only [Prod.mk.injEq] at h
    obtain ⟨rfl, rfl⟩ := h
    obtain ⟨hlen, hok, hle⟩ := getN_le F hl
    have h1 := F.put_le hx
    refine ⟨by simp [hlen], ?_, ?_⟩
    · intro y hy
      rcases List.mem_cons.mp hy with rfl | hy
      · exact h1.1
      · exact hok y hy
    · simp only [List.flatMap_cons, List.length_append] at hle ⊢
      omega

def list (L : Format Nat) (F : Format α) : Format (List α) where
  put l := L.put l.length ++ l.flatMap F.put
  get bs := (L.get bs).bind fun p => getN F p.1 p.2
  ok l := L.ok l.length ∧ ∀ x ∈ l, F.ok x
  get_put {l} rest h := by
    simp only [List.append_assoc, L.get_put _ h.1, Option.bind_some, getN_put F rest h.2]
  put_le {bs l rest} h := by
    obtain ⟨⟨n, bs₁⟩, hn, h⟩ := Option.bind_eq_some_iff.mp h
    obtain ⟨rfl, hok, hle⟩ := getN_le F h
    have h1 := L.put_le hn
    refine ⟨⟨h1.1, hok⟩, ?_⟩
    simp only [List.length_append] at h1 hle ⊢
    omega

def array (F : Format α) (n : Nat) : Format { l : List α // l.length = n } where
  put l := l.1.flatMap F.put
  get bs := (getN F n bs).bind fun p => if h : p.1.length = n then some (⟨p.1, h⟩, p.2) else none
  ok l := ∀ x ∈ l.1, F.ok x
  get_put {l} rest h := by
    obtain ⟨l, rfl⟩ := l
    simp [getN_put F rest h]
  put_le {bs l rest} h := by
    obtain ⟨⟨l', bs₁⟩, hn, h⟩ := Option.bind_eq_some_iff.mp h
    obtain ⟨hlen, hok, hle⟩ := getN_le F hn
    simp only [hlen, dite_true, Option.some.injEq, Prod.mk.injEq] at h
    obtain ⟨rfl, rfl⟩ := h
    exact ⟨hok, hle⟩

/-- A value of an enumeration, as its index among `all`. -/
def enum [DecidableEq α] (L : Format Nat) (all : List α) (hall : ∀ a, a ∈ all) (hnd : all.Nodup) :
    Format α :=
  L.part (fun i => all[i]?) (fun a => all.idxOf a) (fun a => List.getElem?_idxOf (hall a)) (by
    intro i a h
    obtain ⟨hi, rfl⟩ := List.getElem?_eq_some_iff.mp h
    exact hnd.idxOf_getElem i hi)

end Format

/-! ## Variable-length integers

Seven bits a byte, the low ones first, the high bit set on every byte but the
last. At most `n + 1` bytes are read, and the last of them must stay under
`top`, so the values carried are those under `top * 128 ^ n`.
-/

def putVarint : Nat → Nat → List UInt8
  | 0, v => [UInt8.ofNat v]
  | n + 1, v => if v < 128 then [UInt8.ofNat v] else UInt8.ofNat (v % 128 + 128) :: putVarint n (v / 128)

def getVarint (top : Nat) : Nat → List UInt8 → Option (Nat × List UInt8)
  | _, [] => none
  | 0, b :: bs => if b.toNat < top then some (b.toNat, bs) else none
  | n + 1, b :: bs =>
    if b.toNat < 128 then some (b.toNat, bs)
    else (getVarint top n bs).map fun p => (b.toNat - 128 + 128 * p.1, p.2)

theorem toNat_ofNat_lt {v : Nat} (h : v < 256) : (UInt8.ofNat v).toNat = v := by
  simp [Nat.mod_eq_of_lt h]

theorem getVarint_put {top : Nat} (ht : top ≤ 128) : ∀ {n v : Nat} (rest : List UInt8), v < top * 128 ^ n →
    getVarint top n (putVarint n v ++ rest) = some (v, rest)
  | 0, v, rest, h => by
    have hv : v < top := by simpa using h
    simp [putVarint, getVarint, toNat_ofNat_lt (show v < 256 by omega), hv]
  | n + 1, v, rest, h => by
    simp only [putVarint]
    split
    · rename_i hv
      simp [getVarint, toNat_ofNat_lt (show v < 256 by omega), hv]
    · have hb := toNat_ofNat_lt (show v % 128 + 128 < 256 by omega)
      have hd : v / 128 < top * 128 ^ n := by
        rw [Nat.div_lt_iff_lt_mul (by decide)]
        calc v < top * 128 ^ (n + 1) := h
          _ = top * 128 ^ n * 128 := by ring
      simp only [List.cons_append, getVarint, hb, getVarint_put ht rest hd, Option.map_some]
      rw [if_neg (by omega)]
      simp only [Option.some.injEq, Prod.mk.injEq, and_true]
      omega

theorem putVarint_length_le (n b p : Nat) :
    (putVarint (n + 1) (b + 128 * p)).length ≤ 1 + (putVarint n ((b + 128 * p) / 128)).length := by
  simp only [putVarint]
  split
  · simp
  · simp only [List.length_cons]; omega

theorem putVarint_le {top : Nat} (h0 : 0 < top) (ht : top ≤ 128) :
    ∀ {n : Nat} {bs : List UInt8} {v : Nat} {rest : List UInt8}, getVarint top n bs = some (v, rest) →
      v < top * 128 ^ n ∧ (putVarint n v).length + rest.length ≤ bs.length
  | 0, [], v, rest, h => by simp [getVarint] at h
  | n + 1, [], v, rest, h => by simp [getVarint] at h
  | 0, b :: bs, v, rest, h => by
    simp only [getVarint] at h
    split at h
    · rename_i hb
      simp only [Option.some.injEq, Prod.mk.injEq] at h
      obtain ⟨rfl, rfl⟩ := h
      refine ⟨by simpa using hb, ?_⟩
      simp [putVarint]; omega
    · cases h
  | n + 1, b :: bs, v, rest, h => by
    simp only [getVarint] at h
    split at h
    · rename_i hb
      simp only [Option.some.injEq, Prod.mk.injEq] at h
      obtain ⟨rfl, rfl⟩ := h
      refine ⟨?_, by simp [putVarint, hb]; omega⟩
      calc b.toNat < 1 * 128 := by omega
        _ ≤ top * 128 ^ (n + 1) := Nat.mul_le_mul h0 (by
          calc 128 = 128 ^ 1 := rfl
            _ ≤ 128 ^ (n + 1) := Nat.pow_le_pow_right (by decide) (by omega))
    · rename_i hb
      obtain ⟨⟨p, bs₁⟩, hp, h⟩ := Option.map_eq_some_iff.mp h
      simp only [Prod.mk.injEq] at h
      obtain ⟨rfl, rfl⟩ := h
      obtain ⟨hlt, hle⟩ := putVarint_le h0 ht hp
      have hb' := b.toNat_lt
      have hq : (b.toNat - 128 + 128 * p) / 128 = p := by omega
      refine ⟨?_, ?_⟩
      · have : p + 1 ≤ top * 128 ^ n := hlt
        calc b.toNat - 128 + 128 * p < 128 * (p + 1) := by omega
          _ ≤ 128 * (top * 128 ^ n) := Nat.mul_le_mul_left 128 this
          _ = top * 128 ^ (n + 1) := by ring
      · have := putVarint_length_le n (b.toNat - 128) p
        rw [hq] at this
        simp only [List.length_cons]
        omega

namespace Format

def varint (top n : Nat) (h0 : 0 < top) (ht : top ≤ 128) : Format Nat where
  put := putVarint n
  get := getVarint top n
  ok v := v < top * 128 ^ n
  get_put rest h := getVarint_put ht rest h
  put_le h := putVarint_le h0 ht h

end Format

/-! ## Fixed-width integers, low byte first -/

def putLe : Nat → Nat → List UInt8
  | 0, _ => []
  | k + 1, v => UInt8.ofNat (v % 256) :: putLe k (v / 256)

def getLe : List UInt8 → Nat
  | [] => 0
  | b :: bs => b.toNat + 256 * getLe bs

@[simp] theorem length_putLe : ∀ k v : Nat, (putLe k v).length = k
  | 0, _ => rfl
  | k + 1, v => by simp [putLe, length_putLe k]

theorem getLe_putLe : ∀ {k v : Nat}, v < 256 ^ k → getLe (putLe k v) = v
  | 0, v, h => by simp at h; subst h; rfl
  | k + 1, v, h => by
    have hv : v / 256 < 256 ^ k := by
      rw [Nat.div_lt_iff_lt_mul (by decide), ← Nat.pow_succ]; exact h
    simp only [putLe, getLe, getLe_putLe hv, toNat_ofNat_lt (show v % 256 < 256 by omega)]
    omega

end Wire
