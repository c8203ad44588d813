import PenguinSync.Lib.Wire

/-!
# Byte arrays, strings and hexadecimal

`Bytes n` is the source's `[u8; n]`. Hex rendering is shared by device ids and
pairing tokens, as is the decoder, which goes through `u8::from_str_radix` and
so takes uppercase digits and a leading plus sign too.
-/

namespace PenguinSync

/-- `[u8; n]`. -/
abbrev Bytes (n : Nat) := { l : List UInt8 // l.length = n }

def Bytes.fill (n : Nat) (b : UInt8) : Bytes n := ⟨List.replicate n b, List.length_replicate⟩

instance (n : Nat) : Inhabited (Bytes n) := ⟨Bytes.fill n 0⟩

def utf8 (s : String) : List UInt8 := s.toUTF8.data.toList

/-- `str::from_utf8`. -/
def fromUtf8 (l : List UInt8) : Option String := String.fromUTF8? ⟨l.toArray⟩

theorem length_utf8 (s : String) : (utf8 s).length = s.utf8ByteSize := by
  unfold utf8
  rw [Array.length_toList]
  rfl

theorem fromUtf8_utf8 (s : String) : fromUtf8 (utf8 s) = some s := by
  simp [fromUtf8, utf8, String.fromUTF8?, String.fromUTF8, s.isValidUTF8]

theorem utf8_fromUtf8 {l : List UInt8} {s : String} (h : fromUtf8 l = some s) : utf8 s = l := by
  simp only [fromUtf8, String.fromUTF8?] at h
  split at h
  · simp only [Option.some.injEq] at h
    simp [← h, utf8, String.fromUTF8]
  · cases h

/-! ## Hex -/

def hexDigit (d : Nat) : Char := "0123456789abcdef".toList.getD d '0'

/-- `format!("{b:02x}")`. -/
def hexByte (b : UInt8) : List Char := [hexDigit (b.toNat / 16), hexDigit (b.toNat % 16)]

/-- `iter().map(|b| format!("{b:02x}")).collect()`. -/
def hexEncode (l : List UInt8) : String := String.ofList (l.flatMap hexByte)

/-- `char::to_digit(16)` of one ASCII byte. -/
def hexValue (c : UInt8) : Option Nat :=
  if 48 ≤ c ∧ c ≤ 57 then some (c.toNat - 48)
  else if 97 ≤ c ∧ c ≤ 102 then some (c.toNat - 87)
  else if 65 ≤ c ∧ c ≤ 70 then some (c.toNat - 55)
  else none

/-- `u8::from_str_radix(_, 16)` of a two-byte slice: a sign is skipped. -/
def fromStrRadix16 (a b : UInt8) : Option UInt8 :=
  if a = 43 then (hexValue b).map UInt8.ofNat
  else (hexValue a).bind fun x => (hexValue b).map fun y => UInt8.ofNat (16 * x + y)

/-- The slices `s.get(2 * i..2 * i + 2)` in turn. A slice that cuts a character
is `None` in the source; here its first byte is no digit, with the same result. -/
def hexPairs : List UInt8 → Option (List UInt8)
  | [] => some []
  | [_] => none
  | a :: b :: rest => (fromStrRadix16 a b).bind fun x => (hexPairs rest).map fun xs => x :: xs

/-- `from_hex` and `hex_decode_token`: the two differ in the length only. -/
def hexDecode (n : Nat) (s : String) : Option (Bytes n) :=
  if s.utf8ByteSize = 2 * n then
    (hexPairs (utf8 s)).bind fun l => if h : l.length = n then some ⟨l, h⟩ else none
  else none

theorem utf8_ofList (l : List Char) : utf8 (String.ofList l) = l.flatMap String.utf8EncodeChar := by
  simp [utf8, List.utf8Encode]

/-- A hex digit is one byte, which reads back as the digit and is no sign. -/
theorem hexDigit_byte : ∀ d < 16, String.utf8EncodeChar (hexDigit d) = [UInt8.ofNat (hexDigit d).toNat] ∧
    hexValue (UInt8.ofNat (hexDigit d).toNat) = some d ∧ UInt8.ofNat (hexDigit d).toNat ≠ 43 := by
  decide

theorem hexByte_read (b : UInt8) : ∃ x y, (hexByte b).flatMap String.utf8EncodeChar = [x, y] ∧
    fromStrRadix16 x y = some b := by
  have hb := b.toNat_lt
  obtain ⟨hx, hxv, hxs⟩ := hexDigit_byte (b.toNat / 16) (by omega)
  obtain ⟨hy, hyv, -⟩ := hexDigit_byte (b.toNat % 16) (by omega)
  refine ⟨_, _, by simp only [hexByte, List.flatMap_cons, List.flatMap_nil, hx, hy]; rfl, ?_⟩
  unfold fromStrRadix16
  rw [if_neg hxs, hxv, hyv]
  have : 16 * (b.toNat / 16) + b.toNat % 16 = b.toNat := by omega
  simp only [Option.bind_some, Option.map_some, this, UInt8.ofNat_toNat]

theorem hexPairs_encode : ∀ l : List UInt8,
    hexPairs ((l.flatMap hexByte).flatMap String.utf8EncodeChar) = some l
  | [] => rfl
  | b :: l => by
    obtain ⟨x, y, hxy, hr⟩ := hexByte_read b
    rw [List.flatMap_cons, List.flatMap_append, hxy]
    simp only [List.cons_append, List.nil_append, hexPairs, hr, Option.bind_some, hexPairs_encode l,
      Option.map_some]

theorem length_hexEncode (l : List UInt8) : (utf8 (hexEncode l)).length = 2 * l.length := by
  unfold hexEncode
  rw [utf8_ofList]
  induction l with
  | nil => rfl
  | cons b l ih =>
    obtain ⟨x, y, hxy, -⟩ := hexByte_read b
    rw [List.flatMap_cons, List.flatMap_append, hxy, List.length_append, ih]
    simp only [List.length_cons, List.length_nil]
    omega

theorem hexDecode_encode {n : Nat} (b : Bytes n) : hexDecode n (hexEncode b.1) = some b := by
  have hsize : (hexEncode b.1).utf8ByteSize = 2 * n := by
    rw [← length_utf8, length_hexEncode, b.2]
  unfold hexDecode
  rw [if_pos hsize, hexEncode, utf8_ofList, hexPairs_encode]
  simp [b.2]

end PenguinSync
