import PenguinSync.Protocol.Bytes

/-!
# Clips, wire messages and their encoding

`postcard` writes a struct field by field, an enum as the index of its variant
and then the fields, a sequence or string as a length and then the items, a
byte array without a length. Integers past a byte are varints. Reading accepts
varints longer than needed and leaves trailing bytes alone.
-/

namespace PenguinSync

open Wire

/-! ## Identities -/

/-- SHA-256 of a certificate's SubjectPublicKeyInfo. -/
abbrev DeviceId := Bytes 32

def shortFingerprint (id : DeviceId) : String :=
  "-".intercalate (((id.1.take 8).toChunks 2).map hexEncode)

def toHex (id : DeviceId) : String := hexEncode id.1

def fromHex (s : String) : Option DeviceId := hexDecode 32 s

theorem fromHex_toHex (id : DeviceId) : fromHex (toHex id) = some id := hexDecode_encode id

/-! ## Clips -/

def maxContentLen : Nat := 100 * 1024

def mimeTextPlain : String := "text/plain"

structure Clip where
  mime : String
  content : List UInt8
  hash : Bytes 32
  deriving DecidableEq

inductive ClipError where
  | tooLarge (len : Nat)
  | unsupportedMime (mime : String)
  deriving DecidableEq

def Clip.new (blake3 : List UInt8 → Bytes 32) (mime : String) (content : List UInt8) : Except ClipError Clip :=
  if mime ≠ mimeTextPlain then .error (.unsupportedMime mime)
  else if maxContentLen < content.length then .error (.tooLarge content.length)
  else .ok ⟨mime, content, blake3 content⟩

/-- A clip that `Clip.new` could have returned. -/
structure Clip.Valid (blake3 : List UInt8 → Bytes 32) (c : Clip) : Prop where
  mime : c.mime = mimeTextPlain
  size : c.content.length ≤ maxContentLen
  hash : c.hash = blake3 c.content

instance (blake3 : List UInt8 → Bytes 32) (c : Clip) : Decidable (c.Valid blake3) :=
  decidable_of_iff (c.mime = mimeTextPlain ∧ c.content.length ≤ maxContentLen ∧ c.hash = blake3 c.content)
    ⟨fun h => ⟨h.1, h.2.1, h.2.2⟩, fun h => ⟨h.mime, h.size, h.hash⟩⟩

theorem Clip.valid_of_new {blake3 : List UInt8 → Bytes 32} {mime : String} {content : List UInt8} {c : Clip}
    (h : Clip.new blake3 mime content = .ok c) : c.Valid blake3 ∧ c.content = content := by
  unfold Clip.new at h
  split at h
  · cases h
  · rename_i hm
    split at h
    · cases h
    · rename_i hl
      cases h
      exact ⟨⟨not_not.mp hm, Nat.le_of_not_lt hl, rfl⟩, rfl⟩

theorem Clip.new_of_valid {blake3 : List UInt8 → Bytes 32} {c : Clip} (h : c.Valid blake3) :
    Clip.new blake3 c.mime c.content = .ok c := by
  unfold Clip.new
  rw [if_neg (not_not.mpr h.mime), if_neg (Nat.not_lt.mpr h.size), ← h.hash]

/-! ## Messages -/

def tokenLen : Nat := 16

abbrev TokenBytes := Bytes tokenLen

def protocolVersion : UInt16 := 1

inductive Capability where
  | clipboard
  | files
  | notifications
  deriving DecidableEq

structure Handshake where
  version : UInt16
  deviceId : DeviceId
  name : String
  capabilities : List Capability
  pairingToken : Option TokenBytes
  deriving DecidableEq

structure Ping where
  nonce : UInt64
  deriving DecidableEq

structure Pong where
  nonce : UInt64
  deriving DecidableEq

inductive Message where
  | handshake (h : Handshake)
  | ping (p : Ping)
  | pong (p : Pong)
  | clipboard (c : Clip)
  deriving DecidableEq

/-! ## The encoding -/

namespace Postcard

/-- Lengths, on a 64-bit target. -/
def usize : Format Nat := .varint 2 9 (by decide) (by decide)

/-- Variant indices. -/
def u32 : Format Nat := .varint 16 4 (by decide) (by decide)

def u16 : Format UInt16 :=
  (Format.varint 4 2 (by decide) (by decide)).part
    (fun v => if v < 2 ^ 16 then some (UInt16.ofNat v) else none) UInt16.toNat
    (fun b => by simp [b.toNat_lt])
    (fun {a b} h => by
      split at h
      · cases h; simpa using ‹a < _›
      · cases h)

def u64 : Format UInt64 :=
  (Format.varint 2 9 (by decide) (by decide)).part
    (fun v => if v < 2 ^ 64 then some (UInt64.ofNat v) else none) UInt64.toNat
    (fun b => by simp [b.toNat_lt])
    (fun {a b} h => by
      split at h
      · cases h; simpa using ‹a < _›
      · cases h)

def string : Format String :=
  (Format.list usize .byte).part fromUtf8 utf8 fromUtf8_utf8 utf8_fromUtf8

def bytes (n : Nat) : Format (Bytes n) := .array .byte n

def capability : Format Capability :=
  .enum u32 [.clipboard, .files, .notifications] (fun a => by cases a <;> decide) (by decide)

def handshake : Format Handshake :=
  (u16.seq ((bytes 32).seq (string.seq ((Format.list usize capability).seq (.option (bytes tokenLen)))))).iso
    { toFun := fun (version, deviceId, name, capabilities, pairingToken) =>
        ⟨version, deviceId, name, capabilities, pairingToken⟩
      invFun := fun h => (h.version, h.deviceId, h.name, h.capabilities, h.pairingToken)
      left_inv := fun _ => rfl
      right_inv := fun _ => rfl }

def ping : Format Ping := u64.iso ⟨Ping.mk, Ping.nonce, fun _ => rfl, fun _ => rfl⟩

def pong : Format Pong := u64.iso ⟨Pong.mk, Pong.nonce, fun _ => rfl, fun _ => rfl⟩

def clip : Format Clip :=
  (string.seq ((Format.list usize .byte).seq (bytes 32))).iso
    { toFun := fun (mime, content, hash) => ⟨mime, content, hash⟩
      invFun := fun c => (c.mime, c.content, c.hash)
      left_inv := fun _ => rfl
      right_inv := fun _ => rfl }

inductive Variant where
  | handshake
  | ping
  | pong
  | clipboard
  deriving DecidableEq

def Variant.Payload : Variant → Type
  | .handshake => Handshake
  | .ping => Ping
  | .pong => Pong
  | .clipboard => Clip

def variant : Format Variant :=
  .enum u32 [.handshake, .ping, .pong, .clipboard] (fun a => by cases a <;> decide) (by decide)

def payload : ∀ v : Variant, Format v.Payload
  | .handshake => handshake
  | .ping => ping
  | .pong => pong
  | .clipboard => clip

def message : Format Message :=
  (variant.dep payload).iso
    { toFun := fun
        | ⟨.handshake, h⟩ => .handshake h
        | ⟨.ping, p⟩ => .ping p
        | ⟨.pong, p⟩ => .pong p
        | ⟨.clipboard, c⟩ => .clipboard c
      invFun := fun
        | .handshake h => ⟨.handshake, h⟩
        | .ping p => ⟨.ping, p⟩
        | .pong p => ⟨.pong, p⟩
        | .clipboard c => ⟨.clipboard, c⟩
      left_inv := fun ⟨v, _⟩ => by cases v <;> rfl
      right_inv := fun m => by cases m <;> rfl }

end Postcard

/-- `postcard::to_allocvec`. -/
def encode (m : Message) : List UInt8 := Postcard.message.put m

/-- `postcard::from_bytes`: what follows the message is not looked at. -/
def decode (bs : List UInt8) : Option Message := (Postcard.message.get bs).map Prod.fst

theorem decode_encode {m : Message} (h : Postcard.message.ok m) (rest : List UInt8) :
    decode (encode m ++ rest) = some m := by
  unfold decode encode
  rw [Format.get_put _ rest h, Option.map_some]

theorem encode_le_of_decode {bs : List UInt8} {m : Message} (h : decode bs = some m) :
    Postcard.message.ok m ∧ (encode m).length ≤ bs.length := by
  obtain ⟨⟨m', rest⟩, hg, rfl⟩ := Option.map_eq_some_iff.mp h
  have := Postcard.message.put_le hg
  exact ⟨this.1, Nat.le_trans (Nat.le_add_right _ _) this.2⟩

/-! ## What the encoding can carry

A length is a `usize`, so a value with `2 ^ 64` bytes or more in one of its
fields is out of reach of the format. Nothing that fits a frame is near that.
-/

namespace Postcard

theorem le_length_flatMap {α : Type*} {f : α → List UInt8} (hf : ∀ a, f a ≠ []) (l : List α) :
    l.length ≤ (l.flatMap f).length := by
  induction l with
  | nil => exact Nat.le_refl _
  | cons a l ih =>
    have := List.length_pos_iff.mpr (hf a)
    rw [List.flatMap_cons, List.length_append, List.length_cons]
    omega

theorem list_ok {α : Type*} {F : Format α} (hput : ∀ a, F.put a ≠ []) (hok : ∀ a, F.ok a) {l : List α}
    (h : ((Format.list usize F).put l).length < 2 ^ 64) : (Format.list usize F).ok l := by
  have hl := le_length_flatMap hput l
  refine ⟨?_, fun a _ => hok a⟩
  unfold Format.list at h
  rw [List.length_append] at h
  show l.length < 2 * 128 ^ 9
  omega

theorem string_ok {s : String} (h : (string.put s).length < 2 ^ 64) : string.ok s :=
  list_ok (F := .byte) (fun _ => List.cons_ne_nil _ _) (fun _ => trivial) h

theorem capability_put_ne_nil (c : Capability) : capability.put c ≠ [] := by
  cases c <;> decide

theorem capability_ok (c : Capability) : capability.ok c := by
  show List.idxOf c _ < 16 * 128 ^ 4
  cases c <;> decide

theorem bytes_ok {n : Nat} (b : Bytes n) : (bytes n).ok b := fun _ _ => trivial

theorem u16_ok (v : UInt16) : u16.ok v := v.toNat_lt

theorem u64_ok (v : UInt64) : u64.ok v := v.toNat_lt

theorem handshake_ok {h : Handshake} (hl : (handshake.put h).length < 2 ^ 64) : handshake.ok h := by
  have hput : handshake.put h = u16.put h.version ++ ((bytes 32).put h.deviceId ++ (string.put h.name ++
      ((Format.list usize capability).put h.capabilities ++
        (Format.option (bytes tokenLen)).put h.pairingToken))) := rfl
  rw [hput] at hl
  simp only [List.length_append] at hl
  show u16.ok h.version ∧ (bytes 32).ok h.deviceId ∧ string.ok h.name ∧
    (Format.list usize capability).ok h.capabilities ∧ (Format.option (bytes tokenLen)).ok h.pairingToken
  refine ⟨u16_ok _, bytes_ok _, string_ok (by omega),
    list_ok capability_put_ne_nil capability_ok (by omega), ?_⟩
  cases h.pairingToken with
  | none => trivial
  | some t => exact bytes_ok t

theorem clip_ok {c : Clip} (hl : (clip.put c).length < 2 ^ 64) : clip.ok c := by
  have hput : clip.put c = string.put c.mime ++ ((Format.list usize .byte).put c.content ++
      (bytes 32).put c.hash) := rfl
  rw [hput] at hl
  simp only [List.length_append] at hl
  show string.ok c.mime ∧ (Format.list usize .byte).ok c.content ∧ (bytes 32).ok c.hash
  exact ⟨string_ok (by omega), list_ok (F := .byte) (fun _ => List.cons_ne_nil _ _) (fun _ => trivial)
    (by omega), bytes_ok _⟩

theorem variant_ok (v : Variant) : variant.ok v := by
  show List.idxOf v _ < 16 * 128 ^ 4
  cases v <;> decide

theorem message_ok {m : Message} (hl : (encode m).length < 2 ^ 64) : message.ok m := by
  cases m with
  | handshake h =>
    have hput : encode (.handshake h) = variant.put .handshake ++ handshake.put h := rfl
    rw [hput, List.length_append] at hl
    have hp : handshake.ok h := handshake_ok (by omega)
    exact ⟨variant_ok _, hp⟩
  | ping p => exact ⟨variant_ok _, u64_ok p.nonce⟩
  | pong p => exact ⟨variant_ok _, u64_ok p.nonce⟩
  | clipboard c =>
    have hput : encode (.clipboard c) = variant.put .clipboard ++ clip.put c := rfl
    rw [hput, List.length_append] at hl
    have hp : clip.ok c := clip_ok (by omega)
    exact ⟨variant_ok _, hp⟩

end Postcard

end PenguinSync
