import PenguinSync.Lib.Checked
import PenguinSync.Protocol.Qr

/-!
# Reading hexadecimal

`from_hex` and `hex_decode_token` take the string apart by byte offsets and
leave each slice to `u8::from_str_radix`. Both are the same loop; it is followed
here on characters, with the operations that could panic, and comes to the
pairwise reading of the bytes. What it reads beyond the lowercase text that is
written are uppercase digits, and a plus sign where a high digit would be.
-/

namespace PenguinSync

/-! ## Slices of a string -/

/-- The characters behind the first `n` bytes, unless these end inside one. -/
def dropBytes : Nat → List Char → Option (List Char)
  | 0, cs => some cs
  | _ + 1, [] => none
  | n + 1, c :: cs => if c.utf8Size ≤ n + 1 then dropBytes (n + 1 - c.utf8Size) cs else none

def takeBytes : Nat → List Char → Option (List Char)
  | 0, _ => some []
  | _ + 1, [] => none
  | n + 1, c :: cs => if c.utf8Size ≤ n + 1 then (takeBytes (n + 1 - c.utf8Size) cs).map fun t => c :: t else none

/-- `str::get(lo..hi)`. -/
def strGet (s : List Char) (lo hi : Nat) : Option (List Char) := (dropBytes lo s).bind (takeBytes (hi - lo))

def radixDigits : Nat → List UInt8 → Option Nat
  | acc, [] => some acc
  | acc, c :: l => (hexValue c).bind fun d => if 16 * acc + d < 256 then radixDigits (16 * acc + d) l else none

/-- `u8::from_str_radix(_, 16)`: a plus sign is skipped, one alone is no number. -/
def fromStrRadix : List UInt8 → Option UInt8
  | [] => none
  | c :: l =>
    if c = 43 then if l = [] then none else (radixDigits 0 l).map UInt8.ofNat
    else (radixDigits 0 (c :: l)).map UInt8.ofNat

def Bytes.cons {n : Nat} (b : UInt8) (l : Bytes n) : Bytes (n + 1) := ⟨b :: l.1, congrArg (· + 1) l.2⟩

/-- The entries from the `i`-th on, of which there are `k`. -/
def runHexBytes (s : List Char) : (k : Nat) → Nat → Option (Option (Bytes k))
  | 0, _ => some (some ⟨[], rfl⟩)
  | k + 1, i =>
    (Checked.mul 64 i 2).bind fun lo => (Checked.add 64 lo 2).bind fun hi =>
      match (strGet s lo hi).bind fun t => fromStrRadix (t.flatMap String.utf8EncodeChar) with
      | none => some none
      | some b => (runHexBytes s k (i + 1)).map fun r => r.map (Bytes.cons b)

def runHexDecode (n : Nat) (s : String) : Option (Option (Bytes n)) :=
  if s.utf8ByteSize = 2 * n then runHexBytes s.toList n 0 else some none

def runFromHex (s : String) : Option (Option DeviceId) := runHexDecode 32 s

def runHexDecodeToken (s : String) : Option (Option TokenBytes) := runHexDecode tokenLen s

/-! ## A slice is a pair of bytes -/

theorem hexValue_lt {c : UInt8} {d : Nat} (h : hexValue c = some d) : d < 16 := by
  unfold hexValue at h
  simp only [UInt8.le_iff_toNat_le, UInt8.reduceToNat] at h
  split at h
  · cases h
    omega
  · split at h
    · cases h
      omega
    · split at h
      · cases h
        omega
      · cases h

theorem fromStrRadix_pair (a b : UInt8) : fromStrRadix [a, b] = fromStrRadix16 a b := by
  rw [fromStrRadix, fromStrRadix16]
  by_cases ha : a = 43
  · rw [if_pos ha, if_pos ha, if_neg (List.cons_ne_nil b [])]
    cases hb : hexValue b with
    | none => simp [radixDigits, hb]
    | some y => simp [radixDigits, hb, Nat.lt_trans (hexValue_lt hb) (by decide : 16 < 256)]
  · rw [if_neg ha, if_neg ha]
    cases hx : hexValue a with
    | none => simp [radixDigits, hx]
    | some x =>
      have hx16 := hexValue_lt hx
      cases hb : hexValue b with
      | none => simp [radixDigits, hx, hb]
      | some y =>
        have hy16 := hexValue_lt hb
        have hx256 : x < 256 := by omega
        have hxy : 16 * x + y < 256 := by omega
        simp [radixDigits, hx, hb, hx256, hxy]

/-- A character of several bytes begins with one that is no digit and no sign. -/
theorem lead_byte {c : Char} (h : c.utf8Size ≠ 1) :
    ∃ b l, String.utf8EncodeChar c = b :: l ∧ hexValue b = none ∧ b ≠ 43 := by
  have hlead : ∀ n < 64, hexValue (UInt8.ofNat (n + 192)) = none ∧ UInt8.ofNat (n + 192) ≠ 43 := by
    decide +kernel
  have hlen := String.length_utf8EncodeChar c
  unfold String.utf8EncodeChar at hlen ⊢
  simp only at hlen ⊢
  split at hlen
  · exact absurd hlen.symm h
  · rename_i h1
    rw [if_neg h1]
    split
    · exact ⟨_, _, rfl, hlead _ (by omega)⟩
    · split
      · exact ⟨_, _, rfl, hlead (c.val.toNat / 4096 % 16 + 32) (by omega)⟩
      · exact ⟨_, _, rfl, hlead (c.val.toNat / 262144 % 8 + 48) (by omega)⟩

theorem fromStrRadix_lead {b : UInt8} (hb : hexValue b = none) (hsign : b ≠ 43) (l : List UInt8) :
    fromStrRadix (b :: l) = none := by
  rw [fromStrRadix, if_neg hsign, radixDigits, hb]
  rfl

theorem fromStrRadix16_none {a b : UInt8} (h : hexValue a = none ∧ a ≠ 43 ∨ hexValue b = none) :
    fromStrRadix16 a b = none := by
  unfold fromStrRadix16
  rcases h with ⟨ha, hsign⟩ | hb
  · rw [if_neg hsign, ha]
    rfl
  · rw [hb]
    split
    · rfl
    · cases hexValue a with
      | none => rfl
      | some x => rfl

/-- The slice of the first two bytes reads as they do, and where it is read it
ends between two characters. -/
theorem slice_pair {cs : List Char} {a b : UInt8} {tail : List UInt8}
    (h : cs.flatMap String.utf8EncodeChar = a :: b :: tail) :
    ((takeBytes 2 cs).bind fun t => fromStrRadix (t.flatMap String.utf8EncodeChar)) = fromStrRadix16 a b ∧
      ((fromStrRadix16 a b).isSome →
        ∃ rest, dropBytes 2 cs = some rest ∧ rest.flatMap String.utf8EncodeChar = tail) := by
  cases cs with
  | nil => cases h
  | cons c cs =>
    rw [List.flatMap_cons] at h
    by_cases hc : c.utf8Size = 1
    · rw [String.utf8EncodeChar_eq_singleton hc, List.singleton_append, List.cons.injEq] at h
      obtain ⟨ha, h⟩ := h
      cases cs with
      | nil => cases h
      | cons d cs =>
        rw [List.flatMap_cons] at h
        by_cases hd : d.utf8Size = 1
        · rw [String.utf8EncodeChar_eq_singleton hd, List.singleton_append, List.cons.injEq] at h
          obtain ⟨hb, h⟩ := h
          refine ⟨?_, fun _ => ⟨cs, by simp [dropBytes, hc, hd], h⟩⟩
          rw [← fromStrRadix_pair]
          simp [takeBytes, hc, hd, String.utf8EncodeChar_eq_singleton, ha, hb]
        · obtain ⟨b', l, hd', hnone, -⟩ := lead_byte hd
          rw [hd', List.cons_append, List.cons.injEq] at h
          obtain ⟨rfl, -⟩ := h
          have hdle : ¬ d.utf8Size ≤ 1 := fun hle => hd (Nat.le_antisymm hle d.utf8Size_pos)
          rw [fromStrRadix16_none (Or.inr hnone)]
          exact ⟨by simp [takeBytes, hc, hdle], fun hsome => nomatch hsome⟩
    · obtain ⟨a', l, hc', hnone, hsign⟩ := lead_byte hc
      rw [hc', List.cons_append, List.cons.injEq] at h
      obtain ⟨rfl, -⟩ := h
      rw [fromStrRadix16_none (Or.inl ⟨hnone, hsign⟩)]
      refine ⟨?_, fun hsome => nomatch hsome⟩
      rw [Option.bind_eq_none_iff]
      intro t ht
      unfold takeBytes at ht
      split at ht
      · obtain ⟨t', -, rfl⟩ := Option.map_eq_some_iff.mp ht
        rw [List.flatMap_cons, hc']
        exact fromStrRadix_lead hnone hsign _
      · cases ht

theorem dropBytes_add : ∀ {cs rest : List Char} {m : Nat}, dropBytes m cs = some rest →
    ∀ n, dropBytes (m + n) cs = dropBytes n rest
  | cs, rest, 0, h, n => by
    obtain rfl : cs = rest := by simpa [dropBytes] using h
    rw [Nat.zero_add]
  | c :: cs, rest, m + 1, h, n => by
    unfold dropBytes at h
    split at h
    · rename_i hle
      have hsum : m + 1 + n = m + n + 1 := by omega
      have hsub : m + n + 1 - c.utf8Size = m + 1 - c.utf8Size + n := by omega
      rw [hsum, dropBytes, if_pos (by omega), hsub]
      exact dropBytes_add h n
    · cases h

/-! ## The loop -/

/-- No operation panics, and the loop reads the pairs of what is left. -/
theorem runHexBytes_eq {s : List Char} : ∀ (k i : Nat) {rest : List Char}, dropBytes (2 * i) s = some rest →
    (rest.flatMap String.utf8EncodeChar).length = 2 * k → 2 * (i + k) < 2 ^ 64 →
    ∃ r, runHexBytes s k i = some r ∧
      hexPairs (rest.flatMap String.utf8EncodeChar) = r.map Subtype.val
  | 0, i, rest, _, hlen, _ => by
    rw [List.length_eq_zero_iff.mp hlen]
    exact ⟨_, rfl, rfl⟩
  | k + 1, i, rest, hdrop, hlen, hmax => by
    obtain ⟨a, b, tail, hbytes⟩ : ∃ a b tail, rest.flatMap String.utf8EncodeChar = a :: b :: tail := by
      match hb : rest.flatMap String.utf8EncodeChar with
      | [] => rw [hb] at hlen; cases hlen
      | [a] => rw [hb, List.length_singleton] at hlen; omega
      | a :: b :: tail => exact ⟨a, b, tail, rfl⟩
    have hlo : Checked.mul 64 i 2 = some (2 * i) := by
      rw [Checked.mul_of_lt (by omega), Nat.mul_comm]
    have hhi : Checked.add 64 (2 * i) 2 = some (2 * i + 2) := Checked.add_of_lt (by omega)
    have hslice : ((strGet s (2 * i) (2 * i + 2)).bind fun t => fromStrRadix (t.flatMap String.utf8EncodeChar)) =
        fromStrRadix16 a b := by
      unfold strGet
      rw [hdrop, Option.bind_some, Nat.add_sub_cancel_left]
      exact (slice_pair hbytes).1
    unfold runHexBytes
    rw [hlo, Option.bind_some, hhi, Option.bind_some, hslice, hbytes, hexPairs]
    cases hread : fromStrRadix16 a b with
    | none => exact ⟨none, rfl, rfl⟩
    | some x =>
      obtain ⟨rest', hrest', htail⟩ := (slice_pair hbytes).2 (by rw [hread]; rfl)
      have hlen' : (rest'.flatMap String.utf8EncodeChar).length = 2 * k := by
        rw [hbytes, List.length_cons, List.length_cons] at hlen
        rw [htail]
        omega
      have hdrop' : dropBytes (2 * (i + 1)) s = some rest' := (dropBytes_add hdrop 2).trans hrest'
      obtain ⟨r, hr, hpairs⟩ := runHexBytes_eq k (i + 1) hdrop' hlen' (by omega)
      rw [htail] at hpairs
      refine ⟨r.map (Bytes.cons x), by simp only [hr, Option.map_some], ?_⟩
      rw [Option.bind_some, hpairs, Option.map_map, Option.map_map]
      rfl

theorem runHexDecode_eq {n : Nat} (hn : 2 * n < 2 ^ 64) (s : String) : runHexDecode n s = some (hexDecode n s) := by
  unfold runHexDecode hexDecode
  by_cases hsize : s.utf8ByteSize = 2 * n
  · have hutf8 : utf8 s = s.toList.flatMap String.utf8EncodeChar := by
      rw [← utf8_ofList, String.ofList_toList]
    have hlen : (s.toList.flatMap String.utf8EncodeChar).length = 2 * n := by
      rw [← hutf8, length_utf8, hsize]
    obtain ⟨r, hr, hpairs⟩ := runHexBytes_eq n 0 (by rw [Nat.mul_zero, dropBytes]) hlen (by omega)
    rw [if_pos hsize, if_pos hsize, hr, hutf8, hpairs]
    cases r with
    | none => rfl
    | some l => simp [l.2]
  · rw [if_neg hsize, if_neg hsize]

/-! ## Other spellings -/

/-- `char::is_ascii_hexdigit`. -/
def IsHexDigit (c : UInt8) : Prop := 48 ≤ c ∧ c ≤ 57 ∨ 97 ≤ c ∧ c ≤ 102 ∨ 65 ≤ c ∧ c ≤ 70

/-- A plus sign or an uppercase digit: a byte that is read and never written. -/
def OnlyRead (c : UInt8) : Prop := c = 43 ∨ 65 ≤ c ∧ c ≤ 70

instance (c : UInt8) : Decidable (IsHexDigit c) := inferInstanceAs (Decidable (_ ∨ _))

instance (c : UInt8) : Decidable (OnlyRead c) := inferInstanceAs (Decidable (_ ∨ _))

def Pairs : List UInt8 → Prop
  | [] => True
  | [_] => False
  | a :: b :: rest => (a = 43 ∨ IsHexDigit a) ∧ IsHexDigit b ∧ Pairs rest

/-- Text of the right length that reads as bytes and is not how these are written. -/
def OtherSpelling (n : Nat) (s : String) : Prop :=
  s.utf8ByteSize = 2 * n ∧ Pairs (utf8 s) ∧ ∃ c ∈ utf8 s, OnlyRead c

theorem hexValue_isSome (c : UInt8) : (hexValue c).isSome ↔ IsHexDigit c := by
  unfold hexValue IsHexDigit
  by_cases hdigit : 48 ≤ c ∧ c ≤ 57
  · simp [hdigit]
  · by_cases hlower : 97 ≤ c ∧ c ≤ 102
    · simp [hdigit, hlower]
    · by_cases hupper : 65 ≤ c ∧ c ≤ 70
      · simp [hdigit, hlower, hupper]
      · simp [hdigit, hlower, hupper]

theorem fromStrRadix16_isSome (a b : UInt8) :
    (fromStrRadix16 a b).isSome ↔ (a = 43 ∨ IsHexDigit a) ∧ IsHexDigit b := by
  rw [← hexValue_isSome a, ← hexValue_isSome b]
  unfold fromStrRadix16
  by_cases ha : a = 43
  · simp [ha]
  · cases hexValue a with
    | none => simp [ha]
    | some x => simp [ha]

theorem hexPairs_isSome : ∀ l : List UInt8, (hexPairs l).isSome ↔ Pairs l
  | [] => by simp [hexPairs, Pairs]
  | [_] => by simp [hexPairs, Pairs]
  | a :: b :: rest => by
    unfold hexPairs Pairs
    rw [← hexPairs_isSome rest, ← and_assoc, ← fromStrRadix16_isSome]
    cases fromStrRadix16 a b with
    | none => simp
    | some x => simp

theorem length_hexPairs : ∀ {l bs : List UInt8}, hexPairs l = some bs → l.length = 2 * bs.length
  | [], bs, h => by
    cases h
    rfl
  | a :: b :: rest, bs, h => by
    unfold hexPairs at h
    obtain ⟨x, -, h⟩ := Option.bind_eq_some_iff.mp h
    obtain ⟨xs, hxs, rfl⟩ := Option.map_eq_some_iff.mp h
    rw [List.length_cons, List.length_cons, length_hexPairs hxs, List.length_cons]
    omega

/-- A lowercase digit is the one written for its value. -/
theorem hexDigit_of_value (c : UInt8) (hc : ¬ OnlyRead c) {d : Nat} (h : hexValue c = some d) :
    String.utf8EncodeChar (hexDigit d) = [c] := by
  have hall : ∀ n < 256, ¬ OnlyRead (UInt8.ofNat n) → ∀ d ∈ hexValue (UInt8.ofNat n),
      String.utf8EncodeChar (hexDigit d) = [UInt8.ofNat n] := by decide +kernel
  have h' := hall c.toNat c.toNat_lt
  rw [UInt8.ofNat_toNat] at h'
  exact h' hc d h

theorem written_plain {l : List UInt8} {c : UInt8} (h : c ∈ (l.flatMap hexByte).flatMap String.utf8EncodeChar) :
    ¬ OnlyRead c := by
  have hall : ∀ d < 16, ∀ c ∈ String.utf8EncodeChar (hexDigit d), ¬ OnlyRead c := by decide +kernel
  obtain ⟨ch, hch, hc⟩ := List.mem_flatMap.mp h
  obtain ⟨b, -, hb⟩ := List.mem_flatMap.mp hch
  have hlt := b.toNat_lt
  rcases List.mem_cons.mp hb with rfl | hb
  · exact hall _ (by omega) c hc
  · rw [List.mem_singleton.mp hb] at hc
    exact hall _ (by omega) c hc

theorem hexByte_of_read {a b x : UInt8} (ha : ¬ OnlyRead a) (hb : ¬ OnlyRead b) (h : fromStrRadix16 a b = some x) :
    (hexByte x).flatMap String.utf8EncodeChar = [a, b] := by
  unfold fromStrRadix16 at h
  rw [if_neg fun hsign => ha (Or.inl hsign)] at h
  obtain ⟨y, hy, h⟩ := Option.bind_eq_some_iff.mp h
  obtain ⟨z, hz, rfl⟩ := Option.map_eq_some_iff.mp h
  have hy16 := hexValue_lt hy
  have hz16 := hexValue_lt hz
  have hx : (UInt8.ofNat (16 * y + z)).toNat = 16 * y + z := by
    rw [UInt8.toNat_ofNat']
    omega
  have hhigh : (16 * y + z) / 16 = y := by omega
  have hlow : (16 * y + z) % 16 = z := by omega
  unfold hexByte
  rw [hx, hhigh, hlow, List.flatMap_cons, List.flatMap_singleton, hexDigit_of_value a ha hy, hexDigit_of_value b hb hz]
  rfl

theorem written_of_pairs : ∀ {l bs : List UInt8}, (∀ c ∈ l, ¬ OnlyRead c) → hexPairs l = some bs →
    (bs.flatMap hexByte).flatMap String.utf8EncodeChar = l
  | [], bs, _, h => by
    cases h
    rfl
  | a :: b :: rest, bs, hl, h => by
    unfold hexPairs at h
    obtain ⟨x, hx, h⟩ := Option.bind_eq_some_iff.mp h
    obtain ⟨xs, hxs, rfl⟩ := Option.map_eq_some_iff.mp h
    have hrest : ∀ c ∈ rest, ¬ OnlyRead c := fun c hc => hl c (List.mem_cons_of_mem _ (List.mem_cons_of_mem _ hc))
    have hpair := hexByte_of_read (hl a List.mem_cons_self) (hl b (List.mem_cons_of_mem _ List.mem_cons_self)) hx
    rw [List.flatMap_cons, List.flatMap_append, hpair, written_of_pairs hrest hxs]
    rfl

theorem utf8_injective : Function.Injective utf8 := fun s t h =>
  Option.some.inj ((fromUtf8_utf8 s).symm.trans ((congrArg fromUtf8 h).trans (fromUtf8_utf8 t)))

/-- A string of the right length whose bytes pair up is read. -/
theorem hexDecode_isSome {n : Nat} {s : String} (hsize : s.utf8ByteSize = 2 * n) (hpairs : Pairs (utf8 s)) :
    ∃ b : Bytes n, hexDecode n s = some b := by
  obtain ⟨bs, hbs⟩ := Option.isSome_iff_exists.mp ((hexPairs_isSome _).mpr hpairs)
  have hlen : bs.length = n := by
    have := length_hexPairs hbs
    rw [length_utf8, hsize] at this
    omega
  refine ⟨⟨bs, hlen⟩, ?_⟩
  unfold hexDecode
  rw [if_pos hsize, hbs, Option.bind_some, dif_pos hlen]

theorem hexDecode_eq_some {n : Nat} {s : String} {b : Bytes n} (h : hexDecode n s = some b) :
    s.utf8ByteSize = 2 * n ∧ hexPairs (utf8 s) = some b.1 := by
  unfold hexDecode at h
  split at h
  · rename_i hsize
    obtain ⟨bs, hbs, h⟩ := Option.bind_eq_some_iff.mp h
    split at h
    · cases h
      exact ⟨hsize, hbs⟩
    · cases h
  · cases h

theorem hexDecode_canonical_iff (n : Nat) (s : String) :
    (∀ b : Bytes n, hexDecode n s = some b ↔ s = hexEncode b.1) ↔ ¬ OtherSpelling n s := by
  constructor
  · rintro hcanon ⟨hsize, hpairs, c, hc, honly⟩
    obtain ⟨b, hb⟩ := hexDecode_isSome hsize hpairs
    rw [(hcanon b).mp hb, hexEncode, utf8_ofList] at hc
    exact written_plain hc honly
  · intro hother b
    constructor
    · intro hb
      obtain ⟨hsize, hbs⟩ := hexDecode_eq_some hb
      have hpairs : Pairs (utf8 s) := (hexPairs_isSome _).mp (by rw [hbs]; rfl)
      have hplain : ∀ c ∈ utf8 s, ¬ OnlyRead c := fun c hc honly => hother ⟨hsize, hpairs, c, hc, honly⟩
      apply utf8_injective
      rw [hexEncode, utf8_ofList]
      exact (written_of_pairs hplain hbs).symm
    · rintro rfl
      exact hexDecode_encode b

/-- Neither reader panics, and each reads exactly what is written where the
string is not another spelling. -/
theorem hex_canonical_iff (s : String) :
    (runFromHex s = some (fromHex s) ∧ ((∀ id, fromHex s = some id ↔ s = toHex id) ↔ ¬ OtherSpelling 32 s)) ∧
      runHexDecodeToken s = some (hexDecodeToken s) ∧
        ((∀ t, hexDecodeToken s = some t ↔ s = hexEncode t.1) ↔ ¬ OtherSpelling tokenLen s) :=
  ⟨⟨runHexDecode_eq (by decide) s, hexDecode_canonical_iff 32 s⟩,
    runHexDecode_eq (by decide) s, hexDecode_canonical_iff tokenLen s⟩

/-- A device id in uppercase and a token with signs. -/
theorem hex_not_canonical :
    ¬ (∀ s id, fromHex s = some id ↔ s = toHex id) ∧ ¬ (∀ s t, hexDecodeToken s = some t ↔ s = hexEncode t.1) := by
  have hid : fromHex (String.ofList (List.replicate 64 'A')) = some (Bytes.fill 32 0xAA) ∧
      String.ofList (List.replicate 64 'A') ≠ toHex (Bytes.fill 32 0xAA) := by decide +kernel
  have htoken : hexDecodeToken (String.ofList (List.replicate 16 ['+', '9']).flatten) = some (Bytes.fill tokenLen 9) ∧
      String.ofList (List.replicate 16 ['+', '9']).flatten ≠ hexEncode (Bytes.fill tokenLen 9).1 := by decide +kernel
  constructor
  · intro h
    exact hid.2 ((h _ _).mp hid.1)
  · intro h
    exact htoken.2 ((h _ (Bytes.fill tokenLen 9)).mp htoken.1)

end PenguinSync
