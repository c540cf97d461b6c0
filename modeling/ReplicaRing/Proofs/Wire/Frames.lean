import ReplicaRing.Exchange
import ReplicaRing.Proofs.Wire.RoundTrip

/-!
# Frames on a stream

A stream that begins with a frame is cut behind it, however much of what follows is there already;
as long as the frame is not complete, nothing is cut.
-/
namespace ReplicaRing

namespace Wire.Frame

variable {α : Type} [Codec α] {x : α} {body rest said : Bytes}

/-- A value that is short enough for a frame. -/
def Fits (x : α) : Prop := (Wire.encode x).length ≤ maxBody

instance (x : α) : Decidable (Fits x) := inferInstanceAs (Decidable (_ ≤ _))

theorem length_header (n : Nat) : (header n).length = 4 := by
  rw [header, List.length_reverse, length_littleEndian]

theorem ofLittleEndian_header {n : Nat} (h : n ≤ maxBody) :
    ofLittleEndian (header n).reverse = n := by
  rw [header, List.reverse_reverse]
  exact ofLittleEndian_littleEndian (Nat.lt_of_le_of_lt h (by decide))

theorem cut_whole (h : body.length ≤ maxBody) :
    cut (header body.length ++ body ++ rest) = .whole body rest := by
  have hheader := length_header body.length
  unfold cut
  rw [List.append_assoc]
  simp only [List.take_left' hheader, List.drop_left' hheader, hheader, ofLittleEndian_header h,
    Nat.not_lt.mpr h, Nat.lt_irrefl, ↓reduceIte, List.take_left, List.drop_left]

/-- A frame that is not complete. -/
theorem cut_incomplete (h : body.length ≤ maxBody)
    (hsaid : said <+: header body.length ++ body) (hshort : said.length < 4 + body.length) :
    cut said = .inHeader ∨ cut said = .inBody := by
  have hheader := length_header body.length
  obtain ⟨missing, hmissing⟩ := hsaid
  unfold cut
  by_cases hfour : said.length < 4
  · left
    simp only [List.length_take]
    exact if_pos (by omega)
  · right
    have hfront : said.take 4 = header body.length := by
      have htake : (header body.length ++ body).take 4 = header body.length :=
        List.take_left' hheader
      rw [← htake, ← hmissing, List.take_append_of_le_length (by omega)]
    simp only [hfront, hheader, ofLittleEndian_header h, Nat.not_lt.mpr h, Nat.lt_irrefl,
      ↓reduceIte, List.length_take, List.length_drop]
    exact if_pos (by omega)

theorem encode_of_fits (h : Fits x) :
    encode x = .ok (header (Wire.encode x).length ++ Wire.encode x) := by
  unfold Fits at h
  rw [encode, ofBody, lengthFor, if_pos h]
  rfl

theorem encode_of_not_fits (h : ¬ Fits x) :
    encode x = .error (.frameTooLarge (Wire.encode x).length) := by
  unfold Fits at h
  rw [encode, ofBody, lengthFor, if_neg h]
  rfl

theorem bytes_eq (h : Fits x) : bytes x = header (Wire.encode x).length ++ Wire.encode x := by
  rw [bytes, encode_of_fits h]
  rfl

/-- What does not fit a frame is not said. -/
theorem bytes_eq_nil (h : ¬ Fits x) : bytes x = [] := by
  rw [bytes, encode_of_not_fits h]
  rfl

/-- What fits inside of a message fits alone. -/
theorem fits_of_file {m : FileMessage} (h : Fits (Message.file m)) : Fits m := by
  rw [Fits, length_encode_file] at h
  exact Nat.le_trans (Nat.le_add_left _ 4) h

theorem length_bytes (h : Fits x) : (bytes x).length = 4 + (Wire.encode x).length := by
  rw [bytes_eq h, List.length_append, length_header]

theorem decode_encode [LawfulCodec α] (h : Fits x) : decode (Wire.encode x) = .ok x := by
  have hread := rereads x (Nat.lt_of_le_of_lt h (by decide)) []
  rw [List.append_nil] at hread
  rw [decode, hread]
  rfl

theorem cut_bytes (h : Fits x) : cut (bytes x ++ rest) = .whole (Wire.encode x) rest := by
  rw [bytes_eq h, cut_whole h]

/-- What has come of a frame is not cut before the frame is complete. -/
theorem cut_prefix (h : Fits x) (hsaid : said <+: bytes x)
    (hshort : said.length < (bytes x).length) :
    cut said = .inHeader ∨ cut said = .inBody := by
  rw [length_bytes h] at hshort
  rw [bytes_eq h] at hsaid
  exact cut_incomplete h hsaid hshort

end Wire.Frame

namespace Heard

variable {α : Type} [Wire.Codec α] [Wire.LawfulCodec α] {x : α}

theorem frame_bytes (h : Wire.Frame.Fits x) (rest : Bytes) (closed : Bool) (phase : Phase) :
    (Heard.mk (Wire.Frame.bytes x ++ rest) closed).frame phase = .ok (x, ⟨rest, closed⟩) := by
  unfold frame
  simp only [Wire.Frame.cut_bytes h, Wire.Frame.decode_encode h]

theorem reply_bytes (h : Wire.Frame.Fits x) (closed : Bool) (phase : Phase) :
    (Heard.mk (Wire.Frame.bytes x) closed).reply phase = .ok x := by
  have hframe := frame_bytes h [] closed phase
  rw [List.append_nil] at hframe
  rw [reply, hframe]
  rfl

omit [Wire.LawfulCodec α] in
theorem reply_of_not_fits (h : ¬ Wire.Frame.Fits x) (phase : Phase) :
    (Heard.mk (Wire.Frame.bytes x) true).reply (α := α) phase = .error (.io .endOfFile) := by
  rw [Wire.Frame.bytes_eq_nil h]
  rfl

end Heard

end ReplicaRing
