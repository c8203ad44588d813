import Mathlib.Data.List.Basic

/-!
# Form-urlencoded lists of pairs

Names and values are byte lists. The parser turns every plus sign into a space
before it undoes the escapes, so a plus sign of a value has to be written as an
escape, which the serializer does with every byte it does not leave alone.
-/

namespace Urlencoded

/-- Letters, digits and `*-._`. -/
def unreserved (b : UInt8) : Bool :=
  b = 42 || b = 45 || b = 46 || b = 95 || (48 ≤ b && b ≤ 57) || (65 ≤ b && b ≤ 90) || (97 ≤ b && b ≤ 122)

def upperHexDigit (d : Nat) : UInt8 := UInt8.ofNat (if d < 10 then 48 + d else 55 + d)

def encodeByte (b : UInt8) : List UInt8 :=
  if unreserved b then [b]
  else if b = 32 then [43]
  else [37, upperHexDigit (b.toNat / 16), upperHexDigit (b.toNat % 16)]

def encode (l : List UInt8) : List UInt8 := l.flatMap encodeByte

def pair (p : List UInt8 × List UInt8) : List UInt8 := encode p.1 ++ 61 :: encode p.2

def serialize (ps : List (List UInt8 × List UInt8)) : List UInt8 := [38].intercalate (ps.map pair)

def digitValue (c : UInt8) : Option Nat :=
  if 48 ≤ c ∧ c ≤ 57 then some (c.toNat - 48)
  else if 97 ≤ c ∧ c ≤ 102 then some (c.toNat - 87)
  else if 65 ≤ c ∧ c ≤ 70 then some (c.toNat - 55)
  else none

def escape (a b c : UInt8) : Option UInt8 :=
  if a = 37 then (digitValue b).bind fun x => (digitValue c).map fun y => UInt8.ofNat (16 * x + y) else none

/-- A percent sign that two hex digits do not follow stands for itself. -/
def percentDecode : List UInt8 → List UInt8
  | a :: b :: c :: rest =>
    match escape a b c with
    | some x => x :: percentDecode rest
    | none => a :: percentDecode (b :: c :: rest)
  | l => l

def replacePlus (l : List UInt8) : List UInt8 := l.map fun b => if b = 43 then 32 else b

def decode (l : List UInt8) : List UInt8 := percentDecode (replacePlus l)

def unpair (l : List UInt8) : List UInt8 × List UInt8 :=
  (decode (l.takeWhile (· ≠ 61)), decode ((l.dropWhile (· ≠ 61)).drop 1))

/-- Empty pieces between separators are skipped. -/
def parse (l : List UInt8) : List (List UInt8 × List UInt8) :=
  ((l.splitOn 38).filter fun s => !s.isEmpty).map unpair

/-! ## One component -/

theorem digitValue_upperHexDigit : ∀ d < 16, digitValue (upperHexDigit d) = some d ∧ upperHexDigit d ≠ 43 ∧
    unreserved (upperHexDigit d) = true := by
  decide

theorem unreserved_ne {b c : UInt8} (hb : unreserved b = true) (hc : unreserved c = false) : b ≠ c := by
  intro h
  rw [h, hc] at hb
  cases hb

theorem percentDecode_cons {a : UInt8} (ha : a ≠ 37) (l : List UInt8) :
    percentDecode (a :: l) = a :: percentDecode l := by
  cases l with
  | nil => rfl
  | cons b l =>
    cases l with
    | nil => rfl
    | cons c l => simp only [percentDecode, escape, if_neg ha]

theorem percentDecode_escape {a b : UInt8} {x y : Nat} (ha : digitValue a = some x) (hb : digitValue b = some y)
    (l : List UInt8) : percentDecode (37 :: a :: b :: l) = UInt8.ofNat (16 * x + y) :: percentDecode l := by
  simp only [percentDecode, escape, if_pos, ha, hb, Option.bind_some, Option.map_some]

theorem decode_encodeByte (b : UInt8) (l : List UInt8) : decode (encodeByte b ++ l) = b :: decode l := by
  unfold decode encodeByte
  by_cases hu : unreserved b = true
  · have hplus : b ≠ 43 := unreserved_ne hu (by decide)
    rw [if_pos hu, List.singleton_append, replacePlus, List.map_cons, if_neg hplus]
    exact percentDecode_cons (unreserved_ne hu (by decide)) _
  · rw [if_neg hu]
    by_cases hs : b = 32
    · subst hs
      exact percentDecode_cons (by decide) _
    · have hb := b.toNat_lt
      obtain ⟨hx, hxp, -⟩ := digitValue_upperHexDigit (b.toNat / 16) (by omega)
      obtain ⟨hy, hyp, -⟩ := digitValue_upperHexDigit (b.toNat % 16) (by omega)
      have hsum : 16 * (b.toNat / 16) + b.toNat % 16 = b.toNat := by omega
      rw [if_neg hs]
      simp only [replacePlus, List.cons_append, List.nil_append, List.map_cons, if_neg hxp, if_neg hyp]
      rw [if_neg (by decide), percentDecode_escape hx hy, hsum, UInt8.ofNat_toNat]

theorem decode_encode (l : List UInt8) : decode (encode l) = l := by
  induction l with
  | nil => rfl
  | cons b l ih =>
    have hcons : encode (b :: l) = encodeByte b ++ encode l := rfl
    rw [hcons, decode_encodeByte, ih]

/-! ## What the serializer writes -/

def plain (b : UInt8) : Bool := unreserved b || b = 37 || b = 43

theorem plain_encodeByte {b c : UInt8} (hc : c ∈ encodeByte b) : plain c = true := by
  unfold encodeByte at hc
  by_cases hu : unreserved b = true
  · rw [if_pos hu] at hc
    rw [List.mem_singleton] at hc
    simp [plain, hc, hu]
  · rw [if_neg hu] at hc
    by_cases hs : b = 32
    · rw [if_pos hs, List.mem_singleton] at hc
      simp [plain, hc]
    · have hb := b.toNat_lt
      obtain ⟨-, -, hx⟩ := digitValue_upperHexDigit (b.toNat / 16) (by omega)
      obtain ⟨-, -, hy⟩ := digitValue_upperHexDigit (b.toNat % 16) (by omega)
      simp only [if_neg hs, List.mem_cons, List.not_mem_nil, or_false] at hc
      rcases hc with rfl | rfl | rfl
      · decide
      · simp [plain, hx]
      · simp [plain, hy]

theorem plain_encode {l : List UInt8} {c : UInt8} (hc : c ∈ encode l) : plain c = true := by
  obtain ⟨b, -, hb⟩ := List.mem_flatMap.mp hc
  exact plain_encodeByte hb

theorem not_mem_encode {c : UInt8} (hc : plain c = false) (l : List UInt8) : c ∉ encode l := by
  intro h
  rw [plain_encode h] at hc
  cases hc

/-- Bytes that a serialized list can contain. -/
def safe (b : UInt8) : Bool := plain b || b = 38 || b = 61

theorem safe_ascii {b : UInt8} (h : safe b = true) : b < 128 := by
  simp [safe, plain, unreserved, ← UInt8.toNat_inj, UInt8.le_iff_toNat_le] at h
  have hlt : b.toNat < 128 := by omega
  exact hlt

theorem safe_pair {p : List UInt8 × List UInt8} {c : UInt8} (hc : c ∈ pair p) : safe c = true := by
  rcases List.mem_append.mp hc with h | h
  · simp [safe, plain_encode h]
  · rcases List.mem_cons.mp h with rfl | h
    · decide
    · simp [safe, plain_encode h]

theorem safe_serialize {ps : List (List UInt8 × List UInt8)} {c : UInt8} (hc : c ∈ serialize ps) :
    safe c = true := by
  unfold serialize at hc
  induction ps with
  | nil => simp at hc
  | cons p ps ih =>
    cases ps with
    | nil =>
      rw [List.map_singleton, List.intercalate_singleton] at hc
      exact safe_pair hc
    | cons q ps =>
      rw [List.map_cons, List.map_cons, List.intercalate_cons_cons, List.append_assoc, List.mem_append,
        List.mem_append, List.mem_singleton] at hc
      rcases hc with h | rfl | h
      · exact safe_pair h
      · decide
      · exact ih h

/-! ## The list -/

theorem unpair_pair (p : List UInt8 × List UInt8) : unpair (pair p) = p := by
  have hname : ∀ b ∈ encode p.1, (decide (b ≠ 61)) = true := by
    intro b hb
    rw [decide_eq_true_eq]
    rintro rfl
    exact not_mem_encode (by decide) _ hb
  unfold unpair pair
  rw [List.takeWhile_append_of_pos hname, List.dropWhile_append_of_pos hname]
  simp [decode_encode]

theorem amp_notMem_pair (p : List UInt8 × List UInt8) : 38 ∉ pair p := by
  intro h
  rcases List.mem_append.mp h with h | h
  · exact not_mem_encode (by decide) _ h
  · rcases List.mem_cons.mp h with h | h
    · cases h
    · exact not_mem_encode (by decide) _ h

theorem splitOn_serialize {ps : List (List UInt8 × List UInt8)} (h : ps ≠ []) :
    (serialize ps).splitOn 38 = ps.map pair := by
  apply List.splitOn_intercalate
  · intro l hl
    obtain ⟨p, -, rfl⟩ := List.mem_map.mp hl
    exact amp_notMem_pair p
  · simpa using h

theorem parse_serialize (ps : List (List UInt8 × List UInt8)) : parse (serialize ps) = ps := by
  by_cases h : ps = []
  · subst h
    rfl
  · have hfull : (ps.map pair).filter (fun s => !s.isEmpty) = ps.map pair := by
      rw [List.filter_eq_self]
      intro l hl
      obtain ⟨p, -, rfl⟩ := List.mem_map.mp hl
      simp [pair]
    unfold parse
    rw [splitOn_serialize h, hfull, List.map_map]
    have hid : unpair ∘ pair = id := funext unpair_pair
    rw [hid, List.map_id]

end Urlencoded
