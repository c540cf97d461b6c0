import Mathlib.Algebra.Group.Nat.Defs
import Mathlib.Data.List.Basic
import ReplicaRing.Wire.Codec

/-!
# What is written is read back

Each value is read back from the front of the bytes that begin with its encoding, and what follows
the encoding stays. The lengths that stand before texts and lists are words, so each of them must be
one that a word can say; in a value whose encoding fits a frame all of them are.
-/
namespace ReplicaRing.Wire

open Text

/-- A value is read back from the front of whatever begins with its encoding. -/
def Rereads {α : Type} [Codec α] (x : α) : Prop :=
  ∀ rest : Bytes, read (encode x ++ rest) = .ok (x, rest)

/-- A codec that loses nothing. -/
class LawfulCodec (α : Type) [Codec α] : Prop where
  rereads : ∀ x : α, (encode x).length < 2 ^ 64 → Rereads x
  length_pos : ∀ x : α, 0 < (encode x).length

export LawfulCodec (rereads length_pos)

variable {α β : Type} [Codec α] [Codec β] {rest : Bytes}

theorem ok_bind {γ δ : Type} (x : γ) (f : γ → Except DecodeFault δ) : (.ok x >>= f) = f x := rfl

/-! ### Words -/

theorem length_littleEndian (k n : Nat) : (littleEndian k n).length = k := by
  induction k generalizing n with
  | zero => rfl
  | succ k ih => rw [littleEndian, List.length_cons, ih]

theorem ofLittleEndian_littleEndian {k n : Nat} (h : n < 256 ^ k) :
    ofLittleEndian (littleEndian k n) = n := by
  induction k generalizing n with
  | zero => rw [littleEndian, ofLittleEndian]; omega
  | succ k ih =>
    have hpow : 256 ^ (k + 1) = 256 ^ k * 256 := Nat.pow_succ ..
    rw [littleEndian, ofLittleEndian, ih (by omega), UInt8.toNat_ofNat']
    omega

theorem readWord_littleEndian {k n : Nat} (h : n < 256 ^ k) :
    readWord k (littleEndian k n ++ rest) = .ok (n, rest) := by
  have hlength := length_littleEndian k n
  simp only [readWord, List.take_left' hlength, List.drop_left' hlength, hlength, Nat.lt_irrefl,
    ↓reduceIte, ofLittleEndian_littleEndian h]

@[simp] theorem length_encode_word16 (n : UInt16) : (encode n).length = 2 := length_littleEndian 2 _

@[simp] theorem length_encode_word64 (n : UInt64) : (encode n).length = 8 := length_littleEndian 8 _

theorem rereads_word16 (n : UInt16) : Rereads n := by
  intro rest
  delta instCodecUInt16
  simp only [readWord_littleEndian (k := 2) n.toNat_lt, ok_bind, UInt16.ofNat_toNat]

theorem rereads_word64 (n : UInt64) : Rereads n := by
  intro rest
  delta instCodecUInt64
  simp only [readWord_littleEndian (k := 8) n.toNat_lt, ok_bind, UInt64.ofNat_toNat]

instance : LawfulCodec UInt16 where
  rereads n _ := rereads_word16 n
  length_pos n := by rw [length_encode_word16]; decide

instance : LawfulCodec UInt64 where
  rereads n _ := rereads_word64 n
  length_pos n := by rw [length_encode_word64]; decide

/-! ### Texts and lists -/

theorem length_utf8 (s : String) : (Utf8.encode s).length = s.utf8ByteSize := by
  simp [Utf8.encode]

@[simp] theorem length_encode_text (s : String) : (encode s).length = 8 + s.utf8ByteSize := by
  change (encode (UInt64.ofNat s.utf8ByteSize) ++ Utf8.encode s).length = _
  rw [List.length_append, length_encode_word64, length_utf8]

theorem rereads_text {s : String} (h : s.utf8ByteSize < 2 ^ 64) : Rereads s := by
  intro rest
  delta instCodecString
  simp only [List.append_assoc, rereads_word64 _ _, ok_bind, UInt64.toNat_ofNat_of_lt' h,
    List.take_left' (length_utf8 s), List.drop_left' (length_utf8 s), length_utf8,
    Nat.lt_irrefl, ↓reduceIte, Utf8.decode_encode]

instance : LawfulCodec String where
  rereads s h := by
    rw [length_encode_text] at h
    exact rereads_text (Nat.lt_of_le_of_lt (Nat.le_add_left _ _) h)
  length_pos s := by
    rw [length_encode_text]
    omega

@[simp] theorem length_encode_list (xs : List α) :
    (encode xs).length = 8 + (xs.flatMap encode).length := by
  change (encode (UInt64.ofNat xs.length) ++ xs.flatMap encode).length = _
  rw [List.length_append, length_encode_word64]

theorem readMany_flatMap {xs : List α} (h : ∀ x ∈ xs, Rereads x) :
    readMany read xs.length (xs.flatMap encode ++ rest) = .ok (xs, rest) := by
  induction xs with
  | nil => rfl
  | cons x xs ih =>
    obtain ⟨hx, hxs⟩ := List.forall_mem_cons.mp h
    rw [List.flatMap_cons, List.length_cons, readMany, List.append_assoc, hx]
    simp only [ok_bind, ih hxs]

theorem rereads_list {xs : List α} (h : ∀ x ∈ xs, Rereads x) (hlength : xs.length < 2 ^ 64) :
    Rereads xs := by
  intro rest
  delta instCodecList
  simp only [List.append_assoc, rereads_word64 _ _, ok_bind]
  rw [UInt64.toNat_ofNat_of_lt' hlength]
  exact readMany_flatMap h

theorem length_encode_le_flatMap {xs : List α} {x : α} (h : x ∈ xs) :
    (encode x).length ≤ (xs.flatMap encode).length := by
  obtain ⟨front, back, rfl⟩ := List.append_of_mem h
  simp only [List.flatMap_append, List.flatMap_cons, List.length_append]
  omega

@[simp] theorem length_encode_none : (encode (none : Option α)).length = 1 := rfl

@[simp] theorem length_encode_some (x : α) : (encode (some x)).length = (encode x).length + 1 := rfl

theorem rereads_none : Rereads (none : Option α) := fun _ => rfl

theorem rereads_some {x : α} (h : Rereads x) : Rereads (some x) := by
  intro rest
  delta instCodecOption
  have hone : (1 : UInt8) ≠ 0 := by decide
  simp only [List.cons_append, hone, ↓reduceIte, h _, ok_bind]

@[simp] theorem length_encode_pair (p : α × β) :
    (encode p).length = (encode p.1).length + (encode p.2).length :=
  List.length_append

theorem rereads_pair {p : α × β} (h₁ : Rereads p.1) (h₂ : Rereads p.2) : Rereads p := by
  intro rest
  delta instCodecProd
  simp only [List.append_assoc, h₁ _, h₂ _, ok_bind]

section

variable [LawfulCodec α] [LawfulCodec β]

theorem length_le_flatMap (xs : List α) : xs.length ≤ (xs.flatMap encode).length := by
  induction xs with
  | nil => exact Nat.le_refl 0
  | cons x xs ih =>
    have := length_pos x
    rw [List.flatMap_cons, List.length_append, List.length_cons]
    omega

instance : LawfulCodec (List α) where
  rereads xs h := by
    rw [length_encode_list] at h
    have hlength := length_le_flatMap xs
    refine rereads_list (fun x hx => rereads x ?_) (by omega)
    have := length_encode_le_flatMap hx
    omega
  length_pos xs := by
    rw [length_encode_list]
    omega

instance : LawfulCodec (Option α) where
  rereads x h := by
    cases x with
    | none => exact rereads_none
    | some x =>
      rw [length_encode_some] at h
      exact rereads_some (rereads x (by omega))
  length_pos x := by cases x <;> exact Nat.succ_pos _

instance : LawfulCodec (α × β) where
  rereads p h := by
    rw [length_encode_pair] at h
    exact rereads_pair (rereads _ (by omega)) (rereads _ (by omega))
  length_pos p := by
    have := length_pos p.1
    rw [length_encode_pair]
    omega

end

/-! ### Sets and maps -/

section

variable [Ord α] [Std.TransOrd α] [Std.LawfulEqOrd α] [DecidableEq α]

omit [Codec α] in
theorem ofList_toList_set (s : Std.ExtTreeSet α compare) :
    Std.ExtTreeSet.ofList s.toList compare = s := by
  refine Std.ExtTreeSet.ext_mem fun x => ?_
  rw [Std.ExtTreeSet.mem_ofList, List.contains_iff_mem, Std.ExtTreeSet.mem_toList]

omit [Codec α] [Codec β] in
theorem ofList_toList_map (m : Std.ExtTreeMap α β compare) :
    Std.ExtTreeMap.ofList m.toList compare = m := by
  refine Std.ExtTreeMap.ext_getElem? fun x => ?_
  cases hx : m[x]? with
  | some y =>
    exact Std.ExtTreeMap.getElem?_ofList_of_mem Std.ReflCmp.compare_self
      Std.ExtTreeMap.distinct_keys_toList (Std.ExtTreeMap.mem_toList_iff_getElem?_eq_some.mpr hx)
  | none =>
    refine Std.ExtTreeMap.getElem?_ofList_of_contains_eq_false ?_
    rw [List.contains_eq_mem, decide_eq_false_iff_not, List.mem_map]
    rintro ⟨⟨k, y⟩, hmem, rfl⟩
    rw [Std.ExtTreeMap.mem_toList_iff_getElem?_eq_some, hx] at hmem
    cases hmem

theorem rereads_set {s : Std.ExtTreeSet α compare} (h : Rereads s.toList) : Rereads s := by
  intro rest
  have hread := h rest
  delta instCodecExtTreeSetCompareOfTransOrd
  simp only [hread, ok_bind, ofList_toList_set]

theorem rereads_map {m : Std.ExtTreeMap α β compare} (h : Rereads m.toList) : Rereads m := by
  intro rest
  have hread := h rest
  delta instCodecExtTreeMapCompareOfTransOrd
  simp only [hread, ok_bind, ofList_toList_map]

variable [LawfulCodec α] [LawfulCodec β]

instance : LawfulCodec (Std.ExtTreeSet α compare) where
  rereads s h := rereads_set (rereads s.toList h)
  length_pos s := length_pos s.toList

instance : LawfulCodec (Std.ExtTreeMap α β compare) where
  rereads m h := rereads_map (rereads m.toList h)
  length_pos m := length_pos m.toList

end

/-! ### Variants and structures -/

@[simp] theorem length_encodeVariant {γ : Type} [BEq γ] (variants : List γ) (x : γ) :
    (encodeVariant variants x).length = 4 :=
  length_littleEndian 4 _

theorem readVariant_littleEndian {γ : Type} {variants : List γ} {tag : Nat} {x : γ}
    (htag : tag < 256 ^ 4) (hx : variants[tag]? = some x) :
    readVariant variants (littleEndian 4 tag ++ rest) = .ok (x, rest) := by
  unfold readVariant
  simp only [readWord_littleEndian htag, ok_bind, hx]

theorem readVariant_encodeVariant {γ : Type} [BEq γ] [LawfulBEq γ] {variants : List γ} {x : γ}
    (h : x ∈ variants) (hshort : variants.length ≤ 256 ^ 4) :
    readVariant variants (encodeVariant variants x ++ rest) = .ok (x, rest) := by
  have hindex := List.idxOf_lt_length_of_mem h
  refine readVariant_littleEndian (Nat.lt_of_lt_of_le hindex hshort) ?_
  rw [List.getElem?_eq_getElem hindex, List.getElem_idxOf]

instance : LawfulCodec EventKind where
  rereads k _ _ := readVariant_encodeVariant (by cases k <;> decide) (by decide)
  length_pos k := (length_encodeVariant _ k).symm ▸ Nat.succ_pos 3

instance : LawfulCodec FileKind where
  rereads k _ _ := readVariant_encodeVariant (by cases k <;> decide) (by decide)
  length_pos k := (length_encodeVariant _ k).symm ▸ Nat.succ_pos 3

instance : LawfulCodec Destination where
  rereads k _ _ := readVariant_encodeVariant (by cases k <;> decide) (by decide)
  length_pos k := (length_encodeVariant _ k).symm ▸ Nat.succ_pos 3

theorem length_encode_member (m : Member) :
    (encode m).length = (encode m.host).length + (encode m.port).length +
      (encode m.joinedAt).length := by
  delta instCodecMember
  simp only [List.length_append]

theorem rereads_member {m : Member} (h : Rereads m.host) : Rereads m := by
  intro rest
  have hport := rereads_word16 m.port
  have hjoined := rereads_word64 m.joinedAt
  delta instCodecMember
  simp only [List.append_assoc, h _, hport _, hjoined _, ok_bind]

instance : LawfulCodec Member where
  rereads m h := by
    rw [length_encode_member] at h
    exact rereads_member (rereads m.host (by omega))
  length_pos m := by
    have := length_pos m.host
    rw [length_encode_member]
    omega

theorem length_encode_event (e : Event) :
    (encode e).length = (encode e.kind).length + (encode e.subject).length := by
  delta instCodecEvent
  simp only [List.length_append]

theorem rereads_event {e : Event} (hkind : Rereads e.kind) (hsubject : Rereads e.subject) :
    Rereads e := by
  intro rest
  delta instCodecEvent
  simp only [List.append_assoc, hkind _, hsubject _, ok_bind]

instance : LawfulCodec Event where
  rereads e h := by
    rw [length_encode_event] at h
    exact rereads_event (rereads _ (by omega)) (rereads _ (by omega))
  length_pos e := by
    have := length_pos e.kind
    rw [length_encode_event]
    omega

theorem length_encode_fileMessage (m : FileMessage) :
    (encode m).length = (encode m.kind).length + (encode m.destination).length +
      (encode m.file).length + (encode m.nodes).length + (encode m.version).length +
      (encode m.versions).length + (encode m.files).length + (encode m.size).length := by
  delta instCodecFileMessage
  simp only [List.length_append]

theorem rereads_fileMessage {m : FileMessage} (hkind : Rereads m.kind)
    (hdestination : Rereads m.destination) (hfile : Rereads m.file) (hnodes : Rereads m.nodes)
    (hversion : Rereads m.version) (hversions : Rereads m.versions) (hfiles : Rereads m.files)
    (hsize : Rereads m.size) : Rereads m := by
  intro rest
  delta instCodecFileMessage
  simp only [List.append_assoc, hkind _, hdestination _, hfile _, hnodes _, hversion _, hversions _,
    hfiles _, hsize _, ok_bind]

instance : LawfulCodec FileMessage where
  rereads m h := by
    rw [length_encode_fileMessage] at h
    refine rereads_fileMessage ?_ ?_ ?_ ?_ ?_ ?_ ?_ ?_ <;> exact rereads _ (by omega)
  length_pos m := by
    have := length_pos m.kind
    rw [length_encode_fileMessage]
    omega

theorem length_encode_membership (e : Event) :
    (encode (Message.membership e)).length = 4 + (encode e).length := by
  delta instCodecMessage
  simp only [List.length_append, length_littleEndian]

theorem length_encode_file (m : FileMessage) :
    (encode (Message.file m)).length = 4 + (encode m).length := by
  delta instCodecMessage
  simp only [List.length_append, length_littleEndian]

/-- A request is longer than the name of its file, by as much for every name. -/
theorem length_encode_request (kind : FileKind) (destination : Destination) (file : String) :
    (encode (Message.file (FileMessage.request kind destination file))).length =
      32 + file.utf8ByteSize := by
  have hkind : (encode kind).length = 4 := length_encodeVariant _ kind
  have hdestination : (encode destination).length = 4 := length_encodeVariant _ destination
  rw [length_encode_file, length_encode_fileMessage]
  simp only [FileMessage.request, hkind, hdestination, length_encode_text, length_encode_list,
    length_encode_none, List.flatMap_nil, List.length_nil]
  omega

theorem rereads_membership {e : Event} (h : Rereads e) : Rereads (Message.membership e) := by
  intro rest
  have htag (rest : Bytes) : readVariant [false, true] (littleEndian 4 0 ++ rest) =
    .ok (false, rest) := readVariant_littleEndian (by decide) rfl
  delta instCodecMessage
  simp only [List.append_assoc, htag, h _, ok_bind, Bool.false_eq_true, ↓reduceIte]

theorem rereads_file {m : FileMessage} (h : Rereads m) : Rereads (Message.file m) := by
  intro rest
  have htag (rest : Bytes) : readVariant [false, true] (littleEndian 4 1 ++ rest) =
    .ok (true, rest) := readVariant_littleEndian (by decide) rfl
  delta instCodecMessage
  simp only [List.append_assoc, htag, h _, ok_bind, ↓reduceIte]

instance : LawfulCodec Message where
  rereads x h := by
    cases x with
    | membership e =>
      rw [length_encode_membership] at h
      exact rereads_membership (rereads e (by omega))
    | file m =>
      rw [length_encode_file] at h
      exact rereads_file (rereads m (by omega))
  length_pos x := by cases x <;> exact Nat.succ_pos _

theorem length_encode_snapshot (s : Snapshot) :
    (encode s).length = (encode s.members).length + (encode s.coordinator).length := by
  delta instCodecSnapshot
  simp only [List.length_append]

theorem rereads_snapshot {s : Snapshot} (hmembers : Rereads s.members)
    (hcoordinator : Rereads s.coordinator) : Rereads s := by
  intro rest
  delta instCodecSnapshot
  simp only [List.append_assoc, hmembers _, hcoordinator _, ok_bind]

instance : LawfulCodec Snapshot where
  rereads s h := by
    rw [length_encode_snapshot] at h
    exact rereads_snapshot (rereads _ (by omega)) (rereads _ (by omega))
  length_pos s := by
    have := length_pos s.members
    rw [length_encode_snapshot]
    omega

theorem rereads_introducerRequest {r : IntroducerRequest} (h : Rereads r.joining) : Rereads r := by
  intro rest
  delta instCodecIntroducerRequest
  simp only [h _, ok_bind]

instance : LawfulCodec IntroducerRequest where
  rereads r h := rereads_introducerRequest (rereads r.joining h)
  length_pos r := length_pos r.joining

theorem rereads_introducerReply {r : IntroducerReply} (h : Rereads r.groupMember) : Rereads r := by
  intro rest
  delta instCodecIntroducerReply
  simp only [h _, ok_bind]

instance : LawfulCodec IntroducerReply where
  rereads r h := rereads_introducerReply (rereads r.groupMember h)
  length_pos r := length_pos r.groupMember

theorem length_encode_datagram (d : Datagram) :
    (encode d).length = (encode d.seq).length + (encode d.event).length := by
  delta instCodecDatagram
  simp only [List.length_append]

theorem rereads_datagram {d : Datagram} (hseq : Rereads d.seq) (hevent : Rereads d.event) :
    Rereads d := by
  intro rest
  delta instCodecDatagram
  simp only [List.append_assoc, hseq _, hevent _, ok_bind]

instance : LawfulCodec Datagram where
  rereads d h := by
    rw [length_encode_datagram] at h
    exact rereads_datagram (rereads _ (by omega)) (rereads _ (by omega))
  length_pos d := by
    have := length_pos d.seq
    rw [length_encode_datagram]
    omega

end ReplicaRing.Wire
