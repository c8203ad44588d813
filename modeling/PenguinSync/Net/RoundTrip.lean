import PenguinSync.Net.Framing

/-!
# Round trips over the control stream

What `write_message` puts on the stream is what an uninterrupted `read_message`
takes off it, however the bytes arrive. Decoding accepts encodings the writer
never produces, so a message is relayed in a frame that may differ from the one
it came in: it is never a longer one.
-/

namespace PenguinSync

open Wire

def Message.Fits (m : Message) : Prop := (encode m).length ≤ maxFrameLen

instance (m : Message) : Decidable m.Fits := inferInstanceAs (Decidable (_ ≤ _))

/-! ## Clips fit -/

theorem length_putVarint_le : ∀ n v : Nat, (putVarint n v).length ≤ n + 1
  | 0, v => Nat.le_refl _
  | n + 1, v => by
    have ih := length_putVarint_le n (v / 128)
    simp only [putVarint]
    split
    · simp only [List.length_cons, List.length_nil]
      omega
    · rw [List.length_cons]
      omega

/-- A `Vec<u8>` takes its length and at most ten bytes more. -/
theorem length_put_bytes_le (l : List UInt8) : ((Format.list Postcard.usize .byte).put l).length ≤ 10 + l.length := by
  have hput : (Format.list Postcard.usize .byte).put l = putVarint 9 l.length ++ l.flatMap fun b => [b] := rfl
  have hv := length_putVarint_le 9 l.length
  rw [hput, List.length_append, List.flatMap_singleton']
  omega

theorem length_encode_clipboard_le (c : Clip) :
    (encode (.clipboard c)).length ≤ 53 + (utf8 c.mime).length + c.content.length := by
  have hput : encode (.clipboard c) = Postcard.variant.put .clipboard ++ (Postcard.string.put c.mime ++
      ((Format.list Postcard.usize .byte).put c.content ++ (Postcard.bytes 32).put c.hash)) := rfl
  have hvariant : (Postcard.variant.put .clipboard).length = 1 := by decide
  have hmime : (Postcard.string.put c.mime).length ≤ 10 + (utf8 c.mime).length := length_put_bytes_le _
  have hcontent := length_put_bytes_le c.content
  have hhash : ((Postcard.bytes 32).put c.hash).length = 32 := by
    show (c.hash.1.flatMap fun b => [b]).length = 32
    rw [List.flatMap_singleton', c.hash.2]
  rw [hput]
  simp only [List.length_append]
  omega

/-- The clip cap keeps every clip far under the frame limit. -/
theorem clip_fits {blake3 : List UInt8 → Bytes 32} {c : Clip} (hc : c.Valid blake3) :
    (Message.clipboard c).Fits := by
  have hlen := length_encode_clipboard_le c
  have hmime : (utf8 c.mime).length = 10 := by
    rw [hc.mime, length_utf8]
    decide
  have hsize := hc.size
  unfold maxContentLen at hsize
  unfold Message.Fits maxFrameLen
  omega

/-! ## A read that waits -/

section
variable {m : Message} (hm : m.Fits)
include hm

theorem writeMessage_fits : writeMessage m = some (frame m) := by
  unfold Message.Fits maxFrameLen at hm
  unfold writeMessage
  rw [if_pos (by omega)]

/-- Short of its last byte a frame keeps the read waiting, with all of it consumed. -/
theorem readMessage_short {k : Nat} (hk : k < (frame m).length) : readMessage ((frame m).take k) = (k, none) := by
  have hlen : ((frame m).take k).length = k := by rw [List.length_take]; omega
  unfold readMessage
  rw [hlen]
  by_cases h4 : k < 4
  · rw [if_pos h4]
  · have hf : ((frame m).take k).take 4 = putLe 4 (encode m).length := by
      rw [List.take_take, Nat.min_eq_left (by omega), frame, List.take_left' (length_putLe _ _)]
    have hle : getLe (((frame m).take k).take 4) = (encode m).length := by
      rw [hf]
      exact getLe_putLe (by unfold Message.Fits maxFrameLen at hm; omega)
    rw [length_frame] at hk
    unfold Message.Fits at hm
    rw [if_neg h4]
    simp only [hle]
    rw [if_neg (by omega), if_pos hk]

end

/-! ## A stream of frames -/

/-- Read after read, until one is not answered with a message; also what it was left with. -/
def readMessages (bs : List UInt8) : List Message × List UInt8 :=
  match _hr : readMessage bs with
  | (n, some (.ok m)) =>
    let r := readMessages (bs.drop n)
    (m :: r.1, r.2)
  | _ => ([], bs)
termination_by bs.length
decreasing_by
  have hle := readMessage_ok ‹_›
  rw [length_frame] at hle
  rw [List.length_drop]
  omega

theorem readMessages_ok {bs : List UInt8} {n : Nat} {m : Message} (h : readMessage bs = (n, some (.ok m))) :
    readMessages bs = (m :: (readMessages (bs.drop n)).1, (readMessages (bs.drop n)).2) := by
  rw [readMessages.eq_def]
  split
  · rename_i n' m' h'
    rw [h] at h'
    cases h'
    rfl
  · rename_i hn
    exact absurd h (hn n m)

theorem writeMessages_fits : ∀ {ms : List Message}, (∀ m ∈ ms, m.Fits) → writeMessages ms = some (ms.flatMap frame)
  | [], _ => rfl
  | m :: ms, h => by
    have hm := writeMessage_fits (h m List.mem_cons_self)
    have hms := writeMessages_fits fun m' hm' => h m' (List.mem_cons_of_mem m hm')
    simp only [writeMessages, hm, hms, Option.bind_eq_bind, Option.bind_some, List.flatMap_cons]

theorem readMessages_frames (rest : List UInt8) : ∀ {ms : List Message}, (∀ m ∈ ms, m.Fits) →
    readMessages (ms.flatMap frame ++ rest) = (ms ++ (readMessages rest).1, (readMessages rest).2)
  | [], _ => rfl
  | m :: ms, h => by
    have hm := readMessage_frame (h m List.mem_cons_self) (ms.flatMap frame ++ rest)
    have hms := readMessages_frames rest fun m' hm' => h m' (List.mem_cons_of_mem m hm')
    rw [List.flatMap_cons, List.append_assoc, readMessages_ok hm, List.drop_left, hms]
    rfl

/-- Nothing is left of a stream of frames. -/
theorem readMessages_whole {ms : List Message} (h : ∀ m ∈ ms, m.Fits) : readMessages (ms.flatMap frame) = (ms, []) := by
  have hread := readMessages_frames [] h
  have hnil : readMessages [] = ([], []) := by
    rw [readMessages.eq_def]
    rfl
  rwa [List.append_nil, hnil, List.append_nil] at hread

/-- Messages that fit are read back as they were written, alone and in a row.
Clips as they are built fit, and so does every message that was read, in a frame
no longer than its own. -/
theorem messages_roundTrip (blake3 : List UInt8 → Bytes 32) :
    (∀ m : Message, m.Fits → ∃ bs, writeMessage m = some bs ∧ ∀ rest,
      readMessage (bs ++ rest) = (bs.length, some (.ok m)) ∧
        ∀ k < bs.length, readMessage ((bs ++ rest).take k) = (k, none)) ∧
    (∀ ms : List Message, (∀ m ∈ ms, m.Fits) → ∃ bs, writeMessages ms = some bs ∧ readMessages bs = (ms, []) ∧
      ∀ rest, readMessages (bs ++ rest) = (ms ++ (readMessages rest).1, (readMessages rest).2)) ∧
    (∀ mime content c, Clip.new blake3 mime content = .ok c → (Message.clipboard c).Fits) ∧
    ∀ bs n m, readMessage bs = (n, some (.ok m)) → m.Fits ∧
      ∃ again, writeMessage m = some again ∧ again.length ≤ n ∧ n ≤ bs.length ∧
        ∀ rest, readMessage (again ++ rest) = (again.length, some (.ok m)) := by
  refine ⟨fun m hm => ?_, fun ms hms => ?_, fun mime content c hc => ?_, fun bs n m hr => ?_⟩
  · refine ⟨frame m, writeMessage_fits hm, fun rest => ⟨readMessage_frame hm rest, fun k hk => ?_⟩⟩
    rw [List.take_append_of_le_length (Nat.le_of_lt hk)]
    exact readMessage_short hm hk
  · exact ⟨ms.flatMap frame, writeMessages_fits hms, readMessages_whole hms, fun rest => readMessages_frames rest hms⟩
  · exact clip_fits (Clip.valid_of_new hc).1
  · obtain ⟨hn, hle, hm⟩ := readMessage_ok hr
    exact ⟨hm, frame m, writeMessage_fits hm, hle, hn, readMessage_frame hm⟩

/-- A ping whose length, variant and nonce are all written longer than need be, with a byte after it. -/
def padded : List UInt8 := [7, 0, 0, 0, 0x81, 0x80, 0, 0x85, 0x80, 0, 9]

example : readMessage padded = (11, some (.ok (.ping ⟨5⟩))) ∧ frame (.ping ⟨5⟩) = [2, 0, 0, 0, 1, 5] := by
  decide

end PenguinSync
