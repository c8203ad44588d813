import PenguinSync.Protocol.Message

/-!
# Frames on the control stream

A frame is a `u32` little-endian length and then the encoded message. A read
consumes bytes as they arrive and may have to wait in the header or in the
body: `readMessage` is given every byte the stream has yielded since the read
was first polled.
-/

namespace PenguinSync

open Wire

def maxFrameLen : Nat := 1024 * 1024

inductive FramingError where
  | frameTooLarge (len : Nat)
  | write
  | decode
  deriving DecidableEq

def frame (m : Message) : List UInt8 := putLe 4 (encode m).length ++ encode m

/-- The bytes put on the stream; `none` where the length does not fit the header, a panic. -/
def writeMessage (m : Message) : Option (List UInt8) :=
  if (encode m).length < 2 ^ 32 then some (frame m) else none

def writeMessages : List Message → Option (List UInt8)
  | [] => some []
  | m :: ms => do
    let bs ← writeMessage m
    let rest ← writeMessages ms
    some (bs ++ rest)

/-- How many bytes the read has consumed, and what it returns once it is ready. -/
def readMessage (bs : List UInt8) : Nat × Option (Except FramingError Message) :=
  if bs.length < 4 then (bs.length, none)
  else
    let len := getLe (bs.take 4)
    if maxFrameLen < len then (4, some (.error (.frameTooLarge len)))
    else if bs.length < 4 + len then (bs.length, none)
    else
      match decode ((bs.drop 4).take len) with
      | some m => (4 + len, some (.ok m))
      | none => (4 + len, some (.error .decode))

theorem length_frame (m : Message) : (frame m).length = 4 + (encode m).length := by
  rw [frame, List.length_append, length_putLe]

theorem writeMessages_eq : ∀ {ms : List Message} {bs : List UInt8}, writeMessages ms = some bs →
    (∀ m ∈ ms, (encode m).length < 2 ^ 32) ∧ bs = ms.flatMap frame
  | [], bs, h => by
    cases h
    exact ⟨by simp, rfl⟩
  | m :: ms, bs, h => by
    simp only [writeMessages, writeMessage, Option.bind_eq_bind, Option.bind_eq_some_iff] at h
    obtain ⟨b, hb, rest, hr, h⟩ := h
    split at hb
    · rename_i hm
      cases hb
      cases h
      obtain ⟨hms, rfl⟩ := writeMessages_eq hr
      exact ⟨by simpa using ⟨hm, hms⟩, rfl⟩
    · cases hb

section
variable {bs : List UInt8} {n : Nat} {r : Except FramingError Message}

theorem readMessage_pending (h : readMessage bs = (n, none)) : n = bs.length := by
  unfold readMessage at h
  split at h
  · simp at h; exact h.symm
  · simp only at h
    split at h
    · simp at h
    · split at h
      · simp at h; exact h.symm
      · split at h <;> simp at h

theorem readMessage_ok {m : Message} (h : readMessage bs = (n, some (.ok m))) :
    n ≤ bs.length ∧ (frame m).length ≤ n ∧ (encode m).length ≤ maxFrameLen := by
  unfold readMessage at h
  split at h
  · simp at h
  · simp only at h
    split at h
    · simp at h
    · rename_i hlen
      split at h
      · simp at h
      · rename_i hbs
        split at h
        · rename_i m' hd
          simp only [Prod.mk.injEq, Option.some.injEq, Except.ok.injEq] at h
          obtain ⟨rfl, rfl⟩ := h
          have hle := (encode_le_of_decode hd).2
          rw [List.length_take, List.length_drop] at hle
          rw [length_frame]
          omega
        · simp at h

/-- What a ready read returns: the header was over the limit, or a body within it was decoded. -/
theorem readMessage_ready (h : readMessage bs = (n, some r)) :
    (∃ len, maxFrameLen < len ∧ r = .error (.frameTooLarge len)) ∨
      ∃ body, body.length ≤ maxFrameLen ∧ r = (decode body).elim (.error .decode) .ok := by
  unfold readMessage at h
  split at h
  · simp at h
  · simp only at h
    split at h
    · rename_i hlen
      cases h
      exact Or.inl ⟨_, hlen, rfl⟩
    · rename_i hlen
      split at h
      · simp at h
      · refine Or.inr ⟨(bs.drop 4).take (getLe (bs.take 4)), by rw [List.length_take]; omega, ?_⟩
        split at h
        · rename_i hd
          cases h
          rw [hd]; rfl
        · rename_i hd
          cases h
          rw [hd]; rfl

theorem readMessage_nil : readMessage [] = (0, none) := rfl

/-- What a read returns does not depend on what arrives after it was ready. -/
theorem readMessage_append (h : readMessage bs = (n, some r)) (more : List UInt8) :
    readMessage (bs ++ more) = (n, some r) := by
  unfold readMessage at h ⊢
  split at h
  · simp at h
  · rename_i h4
    have ht : (bs ++ more).take 4 = bs.take 4 := List.take_append_of_le_length (by omega)
    simp only at h
    simp only [ht]
    rw [if_neg (by rw [List.length_append]; omega)]
    split at h
    · rename_i hlen
      rw [if_pos hlen]
      exact h
    · rename_i hlen
      rw [if_neg hlen]
      split at h
      · simp at h
      · rename_i hbs
        have hd : ((bs ++ more).drop 4).take (getLe (bs.take 4)) = (bs.drop 4).take (getLe (bs.take 4)) := by
          rw [List.drop_append_of_le_length (by omega),
            List.take_append_of_le_length (by rw [List.length_drop]; omega)]
        rw [if_neg (by rw [List.length_append]; omega), hd]
        exact h

theorem readMessage_frame {m : Message} (hm : (encode m).length ≤ maxFrameLen) (rest : List UInt8) :
    readMessage (frame m ++ rest) = ((frame m).length, some (.ok m)) := by
  have hlen : (encode m).length < 256 ^ 4 := by unfold maxFrameLen at hm; omega
  have hf : (frame m ++ rest).take 4 = putLe 4 (encode m).length := by
    rw [frame, List.append_assoc, List.take_left' (length_putLe _ _)]
  have hd : ((frame m ++ rest).drop 4).take (encode m).length = encode m := by
    rw [frame, List.append_assoc, List.drop_left' (length_putLe _ _), List.take_left' rfl]
  have hdec : decode (encode m) = some m := by
    have := decode_encode (Postcard.message_ok (m := m) (by omega)) []
    rwa [List.append_nil] at this
  unfold readMessage
  simp only [hf, getLe_putLe hlen]
  rw [if_neg (by rw [List.length_append, length_frame]; omega), if_neg (by omega),
    if_neg (by rw [List.length_append, length_frame]; omega), hd, hdec, length_frame]

end

end PenguinSync
