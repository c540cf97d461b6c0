import Mathlib.Data.List.Flatten
import Mathlib.Data.List.Perm.Subperm
import ReplicaRing.Proofs.Sets
import ReplicaRing.Proofs.Wire.RoundTrip

/-!
# What is read is written no longer

Bytes that are read need not have been written: elements of a set may come unsorted and more than
once, a key of a map may come again with another value, and a length may announce anything. The
encoding of the value that is read is never longer than the bytes that were taken for it, so no size
in the value is larger than their number, and from this encoding the same value is read.
-/
namespace ReplicaRing.Wire

open Text

variable {α β : Type} [Codec α] [Codec β] {bytes rest : Bytes}

/-- From the front of some bytes a value was taken. Its encoding needs no more bytes than were
taken, and is read back. -/
structure Takes (bytes : Bytes) (x : α) (rest : Bytes) : Prop where
  length_le : (encode x).length + rest.length ≤ bytes.length
  rereads : Rereads x

/-- A codec whose reader takes no value that its writer could not say as shortly. -/
class CanonicalCodec (α : Type) [Codec α] : Prop where
  takes : ∀ {bytes rest : Bytes} {x : α}, read bytes = .ok (x, rest) → Takes bytes x rest

export CanonicalCodec (takes)

theorem bind_eq_ok {γ δ : Type} {r : Except DecodeFault γ} {f : γ → Except DecodeFault δ} {y : δ}
    (h : (r >>= f) = .ok y) : ∃ x, r = .ok x ∧ f x = .ok y := by
  cases r with
  | error fault => cases h
  | ok x => exact ⟨x, rfl, h⟩

/-! ### Words and texts -/

theorem length_of_readWord {k n : Nat} (h : readWord k bytes = .ok (n, rest)) :
    bytes.length = k + rest.length := by
  unfold readWord at h
  simp only [List.length_take] at h
  split at h
  · cases h
  · cases h
    rw [List.length_drop]
    omega

instance : CanonicalCodec UInt16 where
  takes {bytes rest x} h := by
    delta instCodecUInt16 at h
    obtain ⟨⟨n, rest⟩, hword, h⟩ := bind_eq_ok h
    cases h
    have hlength := length_of_readWord hword
    exact ⟨by rw [length_encode_word16]; omega, rereads_word16 _⟩

instance : CanonicalCodec UInt64 where
  takes {bytes rest x} h := by
    delta instCodecUInt64 at h
    obtain ⟨⟨n, rest⟩, hword, h⟩ := bind_eq_ok h
    cases h
    have hlength := length_of_readWord hword
    exact ⟨by rw [length_encode_word64]; omega, rereads_word64 _⟩

theorem length_of_decode {s : String} (h : Utf8.decode bytes = .ok s) :
    s.utf8ByteSize = bytes.length := by
  unfold Utf8.decode at h
  split at h
  · rename_i found hfound
    cases h
    unfold String.fromUTF8? at hfound
    split at hfound
    · cases hfound
      rfl
    · cases hfound
  · cases h

instance : CanonicalCodec String where
  takes {bytes rest x} h := by
    delta instCodecString at h
    obtain ⟨⟨n, bytes'⟩, hsize, h⟩ := bind_eq_ok h
    have hbytes := (takes hsize).length_le
    rw [length_encode_word64] at hbytes
    simp only [List.length_take] at h
    split at h
    · cases h
    · split at h
      · rename_i hdecode
        cases h
        have hlength := length_of_decode hdecode
        rw [List.length_take] at hlength
        have hn := n.toNat_lt
        refine ⟨?_, rereads_text (by omega)⟩
        rw [length_encode_text, List.length_drop]
        omega
      · cases h

/-! ### Lists, options and pairs -/

theorem takes_readMany [CanonicalCodec α] {n : Nat} {xs : List α}
    (h : readMany read n bytes = .ok (xs, rest)) :
    xs.length = n ∧ (xs.flatMap encode).length + rest.length ≤ bytes.length ∧
      ∀ x ∈ xs, Rereads x := by
  induction n generalizing bytes xs with
  | zero =>
    cases h
    exact ⟨rfl, by simp, List.forall_mem_nil _⟩
  | succ n ih =>
    obtain ⟨⟨x, bytes'⟩, hx, h⟩ := bind_eq_ok h
    obtain ⟨⟨xs, rest⟩, hxs, h⟩ := bind_eq_ok h
    cases h
    obtain ⟨hlength, hrereads⟩ := takes hx
    obtain ⟨rfl, hlengths, hall⟩ := ih hxs
    refine ⟨rfl, ?_, List.forall_mem_cons.mpr ⟨hrereads, hall⟩⟩
    rw [List.flatMap_cons, List.length_append]
    omega

instance [CanonicalCodec α] : CanonicalCodec (List α) where
  takes {bytes rest xs} h := by
    delta instCodecList at h
    obtain ⟨⟨n, bytes'⟩, hsize, h⟩ := bind_eq_ok h
    have hbytes := (takes hsize).length_le
    rw [length_encode_word64] at hbytes
    obtain ⟨hcount, hlengths, hall⟩ := takes_readMany h
    have hn := n.toNat_lt
    refine ⟨?_, rereads_list hall (by omega)⟩
    rw [length_encode_list]
    omega

/-- However many elements are announced, a reader gives up when the bytes are spent. -/
theorem readMany_spent [LawfulCodec α] [CanonicalCodec α] {n : Nat} (h : bytes.length < n) :
    ∃ k xs rest fault, k ≤ bytes.length ∧ readMany (read (α := α)) k bytes = .ok (xs, rest) ∧
      read (α := α) rest = .error fault ∧ readMany (read (α := α)) n bytes = .error fault := by
  induction n generalizing bytes with
  | zero => omega
  | succ n ih =>
    cases hread : read (α := α) bytes with
    | error fault =>
      refine ⟨0, [], bytes, fault, Nat.zero_le _, rfl, hread, ?_⟩
      rw [readMany, hread]
      rfl
    | ok taken =>
      obtain ⟨x, bytes'⟩ := taken
      have hlength := (takes hread).length_le
      have hpos := length_pos x
      obtain ⟨k, xs, rest, fault, hk, hfirst, hfault, hmany⟩ := ih (show bytes'.length < n by omega)
      refine ⟨k + 1, x :: xs, rest, fault, by omega, ?_, hfault, ?_⟩
      · rw [readMany, hread, ok_bind]
        simp only [hfirst, ok_bind]
      · rw [readMany, hread, ok_bind]
        simp only [hmany]
        rfl

instance [CanonicalCodec α] : CanonicalCodec (Option α) where
  takes {bytes rest x} h := by
    delta instCodecOption at h
    cases bytes with
    | nil => cases h
    | cons tag bytes =>
      simp only at h
      split at h
      · cases h
        exact ⟨by rw [length_encode_none, List.length_cons]; omega, rereads_none⟩
      · split at h
        · obtain ⟨⟨x, rest⟩, hx, h⟩ := bind_eq_ok h
          cases h
          obtain ⟨hlength, hrereads⟩ := takes hx
          refine ⟨?_, rereads_some hrereads⟩
          rw [length_encode_some, List.length_cons]
          dsimp only
          omega
        · cases h

instance [CanonicalCodec α] [CanonicalCodec β] : CanonicalCodec (α × β) where
  takes {bytes rest p} h := by
    delta instCodecProd at h
    obtain ⟨⟨x, bytes₁⟩, hx, h⟩ := bind_eq_ok h
    obtain ⟨⟨y, rest⟩, hy, h⟩ := bind_eq_ok h
    cases h
    obtain ⟨hlength₁, hrereads₁⟩ := takes hx
    obtain ⟨hlength₂, hrereads₂⟩ := takes hy
    refine ⟨?_, rereads_pair hrereads₁ hrereads₂⟩
    rw [length_encode_pair]
    dsimp only
    omega

/-! ### Sets and maps -/

/-- A selection without repetition is written no longer than what it was selected from. -/
theorem length_flatMap_le {xs ys : List α} (hnodup : xs.Nodup) (hsub : xs ⊆ ys) :
    (xs.flatMap encode).length ≤ (ys.flatMap encode).length := by
  obtain ⟨zs, hperm, hsublist⟩ := List.subperm_of_subset hnodup hsub
  rw [← (hperm.flatMap_right encode).length_eq]
  exact (hsublist.flatMap encode).length_le

/-- What is selected from a list that was taken is written no longer and is read back. -/
theorem Takes.select [LawfulCodec α] {xs ys : List α} (h : Takes bytes ys rest)
    (hall : ∀ y ∈ ys, Rereads y) (hlength : ys.length < 2 ^ 64) (hnodup : xs.Nodup)
    (hsub : xs ⊆ ys) : Takes bytes xs rest where
  length_le := by
    have hys := h.length_le
    have hxs := length_flatMap_le hnodup hsub
    rw [length_encode_list] at hys ⊢
    omega
  rereads := by
    have hcount := (List.subperm_of_subset hnodup hsub).length_le
    exact rereads_list (fun x hx => hall x (hsub hx)) (by omega)

/-- A list that was read has no more elements than a word can say, and each is read back. -/
theorem of_read_list [CanonicalCodec α] {xs : List α} (h : read bytes = .ok (xs, rest)) :
    (∀ x ∈ xs, Rereads x) ∧ xs.length < 2 ^ 64 := by
  delta instCodecList at h
  obtain ⟨⟨n, bytes'⟩, -, h⟩ := bind_eq_ok h
  obtain ⟨hcount, -, hall⟩ := takes_readMany h
  have hn := n.toNat_lt
  exact ⟨hall, by omega⟩

section

variable [Ord α] [Std.TransOrd α] [Std.LawfulEqOrd α] [DecidableEq α]

omit [Codec α] [DecidableEq α] [Codec β] in
theorem nodup_toList_map (m : Std.ExtTreeMap α β compare) : m.toList.Nodup :=
  Std.ExtTreeMap.distinct_keys_toList.imp fun hne heq =>
    hne (Std.LawfulEqCmp.compare_eq_iff_eq.mpr (congrArg Prod.fst heq))

omit [Codec α] in
theorem toList_ofList_set_subset (xs : List α) :
    (Std.ExtTreeSet.ofList xs compare).toList ⊆ xs := by
  intro x hx
  rwa [Std.ExtTreeSet.mem_toList, Std.ExtTreeSet.mem_ofList, List.contains_iff_mem] at hx

omit [Codec α] [Codec β] in
/-- Of the entries of one key the last counts. -/
theorem getElem?_ofList_map (xs : List (α × β)) (k : α) :
    (Std.ExtTreeMap.ofList xs compare)[k]? = xs.reverse.lookup k := by
  rw [Std.ExtTreeMap.ofList_eq_insertMany_empty, Std.ExtTreeMap.getElem?_insertMany_list,
    Std.ExtTreeMap.getElem?_empty, Option.or_none, List.findSomeRev?_eq_findSome?_reverse]
  induction xs.reverse with
  | nil => rfl
  | cons entry entries ih =>
    rw [List.findSome?_cons, List.lookup_cons, ih]
    by_cases hk : entry.1 = k
    · simp [hk]
    · have hne : (k == entry.1) = false := beq_false_of_ne (Ne.symm hk)
      simp [hk, hne]

omit [Codec α] [Codec β] in
/-- Every entry of a map is one of those that it was made of. -/
theorem toList_ofList_map_subset (xs : List (α × β)) :
    (Std.ExtTreeMap.ofList xs compare).toList ⊆ xs := by
  rintro ⟨k, y⟩ hmem
  rw [Std.ExtTreeMap.mem_toList_iff_getElem?_eq_some, getElem?_ofList_map,
    List.lookup_eq_some_iff] at hmem
  obtain ⟨later, earlier, hentries, -⟩ := hmem
  exact List.mem_reverse.mp (hentries ▸ List.mem_append_cons_self)

/-- A map is read from entries in any order, and of those of one key the last counts. -/
theorem lookup_of_read_map {m : Std.ExtTreeMap α β compare} (h : read bytes = .ok (m, rest)) :
    ∃ entries : List (α × β), read bytes = .ok (entries, rest) ∧
      ∀ k, m[k]? = entries.reverse.lookup k := by
  delta instCodecExtTreeMapCompareOfTransOrd at h
  obtain ⟨⟨xs, rest⟩, hxs, h⟩ := bind_eq_ok h
  cases h
  exact ⟨xs, hxs, getElem?_ofList_map xs⟩

instance [LawfulCodec α] [CanonicalCodec α] : CanonicalCodec (Std.ExtTreeSet α compare) where
  takes {bytes rest s} h := by
    delta instCodecExtTreeSetCompareOfTransOrd at h
    obtain ⟨⟨xs, rest⟩, hxs, h⟩ := bind_eq_ok h
    cases h
    obtain ⟨hall, hlength⟩ := of_read_list hxs
    obtain ⟨hle, hrereads⟩ := (takes hxs).select hall hlength (nodup_toList _)
      (toList_ofList_set_subset xs)
    exact ⟨hle, rereads_set hrereads⟩

instance [LawfulCodec α] [LawfulCodec β] [CanonicalCodec α] [CanonicalCodec β] :
    CanonicalCodec (Std.ExtTreeMap α β compare) where
  takes {bytes rest m} h := by
    delta instCodecExtTreeMapCompareOfTransOrd at h
    obtain ⟨⟨xs, rest⟩, hxs, h⟩ := bind_eq_ok h
    cases h
    obtain ⟨hall, hlength⟩ := of_read_list hxs
    obtain ⟨hle, hrereads⟩ := (takes hxs).select hall hlength (nodup_toList_map _)
      (toList_ofList_map_subset xs)
    exact ⟨hle, rereads_map hrereads⟩

end

/-! ### Variants and structures -/

theorem length_of_readVariant {γ : Type} {variants : List γ} {x : γ}
    (h : readVariant variants bytes = .ok (x, rest)) : bytes.length = 4 + rest.length := by
  unfold readVariant at h
  obtain ⟨⟨tag, rest⟩, hword, h⟩ := bind_eq_ok h
  dsimp only at h
  split at h
  · cases h
    exact length_of_readWord hword
  · cases h

/-- A tag is as long as the encoding of its variant. -/
theorem Takes.of_readVariant [LawfulCodec α] {variants : List α} {x : α}
    (h : readVariant variants bytes = .ok (x, rest)) (hlength : (encode x).length = 4) :
    Takes bytes x rest := by
  have hbytes := length_of_readVariant h
  exact ⟨by omega, Wire.rereads x (by omega)⟩

instance : CanonicalCodec EventKind where
  takes h := .of_readVariant h (length_encodeVariant _ _)

instance : CanonicalCodec FileKind where
  takes h := .of_readVariant h (length_encodeVariant _ _)

instance : CanonicalCodec Destination where
  takes h := .of_readVariant h (length_encodeVariant _ _)

instance : CanonicalCodec Member where
  takes {bytes rest m} h := by
    delta instCodecMember at h
    obtain ⟨⟨host, bytes₁⟩, hhost, h⟩ := bind_eq_ok h
    obtain ⟨⟨port, bytes₂⟩, hport, h⟩ := bind_eq_ok h
    obtain ⟨⟨joinedAt, rest⟩, hjoined, h⟩ := bind_eq_ok h
    cases h
    obtain ⟨hlength₁, hrereads⟩ := takes hhost
    have hlength₂ := (takes hport).length_le
    have hlength₃ := (takes hjoined).length_le
    refine ⟨?_, rereads_member hrereads⟩
    rw [length_encode_member]
    dsimp only
    omega

instance : CanonicalCodec Event where
  takes {bytes rest e} h := by
    delta instCodecEvent at h
    obtain ⟨⟨kind, bytes₁⟩, hkind, h⟩ := bind_eq_ok h
    obtain ⟨⟨subject, rest⟩, hsubject, h⟩ := bind_eq_ok h
    cases h
    obtain ⟨hlength₁, hrereads₁⟩ := takes hkind
    obtain ⟨hlength₂, hrereads₂⟩ := takes hsubject
    refine ⟨?_, rereads_event hrereads₁ hrereads₂⟩
    rw [length_encode_event]
    dsimp only
    omega

instance : CanonicalCodec FileMessage where
  takes {bytes rest m} h := by
    delta instCodecFileMessage at h
    obtain ⟨⟨kind, bytes₁⟩, hkind, h⟩ := bind_eq_ok h
    obtain ⟨⟨destination, bytes₂⟩, hdestination, h⟩ := bind_eq_ok h
    obtain ⟨⟨file, bytes₃⟩, hfile, h⟩ := bind_eq_ok h
    obtain ⟨⟨nodes, bytes₄⟩, hnodes, h⟩ := bind_eq_ok h
    obtain ⟨⟨version, bytes₅⟩, hversion, h⟩ := bind_eq_ok h
    obtain ⟨⟨versions, bytes₆⟩, hversions, h⟩ := bind_eq_ok h
    obtain ⟨⟨files, bytes₇⟩, hfiles, h⟩ := bind_eq_ok h
    obtain ⟨⟨size, rest⟩, hsize, h⟩ := bind_eq_ok h
    cases h
    obtain ⟨hlength₁, hrereads₁⟩ := takes hkind
    obtain ⟨hlength₂, hrereads₂⟩ := takes hdestination
    obtain ⟨hlength₃, hrereads₃⟩ := takes hfile
    obtain ⟨hlength₄, hrereads₄⟩ := takes hnodes
    obtain ⟨hlength₅, hrereads₅⟩ := takes hversion
    obtain ⟨hlength₆, hrereads₆⟩ := takes hversions
    obtain ⟨hlength₇, hrereads₇⟩ := takes hfiles
    obtain ⟨hlength₈, hrereads₈⟩ := takes hsize
    refine ⟨?_, rereads_fileMessage hrereads₁ hrereads₂ hrereads₃ hrereads₄ hrereads₅ hrereads₆
      hrereads₇ hrereads₈⟩
    rw [length_encode_fileMessage]
    dsimp only
    omega

instance : CanonicalCodec Message where
  takes {bytes rest x} h := by
    delta instCodecMessage at h
    obtain ⟨⟨isFile, bytes₁⟩, htag, h⟩ := bind_eq_ok h
    have hlength₁ := length_of_readVariant htag
    simp only at h
    split at h
    · obtain ⟨⟨m, rest⟩, hm, h⟩ := bind_eq_ok h
      cases h
      obtain ⟨hlength₂, hrereads⟩ := takes hm
      refine ⟨?_, rereads_file hrereads⟩
      rw [length_encode_file]
      dsimp only
      omega
    · obtain ⟨⟨e, rest⟩, he, h⟩ := bind_eq_ok h
      cases h
      obtain ⟨hlength₂, hrereads⟩ := takes he
      refine ⟨?_, rereads_membership hrereads⟩
      rw [length_encode_membership]
      dsimp only
      omega

instance : CanonicalCodec Snapshot where
  takes {bytes rest s} h := by
    delta instCodecSnapshot at h
    obtain ⟨⟨members, bytes₁⟩, hmembers, h⟩ := bind_eq_ok h
    obtain ⟨⟨coordinator, rest⟩, hcoordinator, h⟩ := bind_eq_ok h
    cases h
    obtain ⟨hlength₁, hrereads₁⟩ := takes hmembers
    obtain ⟨hlength₂, hrereads₂⟩ := takes hcoordinator
    refine ⟨?_, rereads_snapshot hrereads₁ hrereads₂⟩
    rw [length_encode_snapshot]
    dsimp only
    omega

instance : CanonicalCodec IntroducerRequest where
  takes {bytes rest r} h := by
    delta instCodecIntroducerRequest at h
    obtain ⟨⟨joining, rest⟩, hjoining, h⟩ := bind_eq_ok h
    cases h
    obtain ⟨hlength, hrereads⟩ := takes hjoining
    exact ⟨hlength, rereads_introducerRequest hrereads⟩

instance : CanonicalCodec IntroducerReply where
  takes {bytes rest r} h := by
    delta instCodecIntroducerReply at h
    obtain ⟨⟨groupMember, rest⟩, hmember, h⟩ := bind_eq_ok h
    cases h
    obtain ⟨hlength, hrereads⟩ := takes hmember
    exact ⟨hlength, rereads_introducerReply hrereads⟩

instance : CanonicalCodec Datagram where
  takes {bytes rest d} h := by
    delta instCodecDatagram at h
    obtain ⟨⟨seq, bytes₁⟩, hseq, h⟩ := bind_eq_ok h
    obtain ⟨⟨event, rest⟩, hevent, h⟩ := bind_eq_ok h
    cases h
    obtain ⟨hlength₁, hrereads₁⟩ := takes hseq
    obtain ⟨hlength₂, hrereads₂⟩ := takes hevent
    refine ⟨?_, rereads_datagram hrereads₁ hrereads₂⟩
    rw [length_encode_datagram]
    dsimp only
    omega

/-! ### Sizes -/

/-- The sizes of what a value is made of: how many bytes each text has, and how many elements each
list, set and map. None exceeds the length of the encoding. -/
class Extent (α : Type) [Codec α] where
  sizes : α → List Nat
  le_length : ∀ x, ∀ n ∈ sizes x, n ≤ (encode x).length

export Extent (sizes)

instance : Extent UInt64 := ⟨fun _ => [], nofun⟩

instance : Extent String where
  sizes s := [s.utf8ByteSize]
  le_length s n hn := by
    cases List.mem_singleton.mp hn
    rw [length_encode_text]
    omega

instance [LawfulCodec α] [Extent α] : Extent (List α) where
  sizes xs := xs.length :: xs.flatMap sizes
  le_length xs n hn := by
    rw [length_encode_list]
    obtain rfl | hn := List.mem_cons.mp hn
    · have := length_le_flatMap xs
      omega
    · obtain ⟨x, hx, hn⟩ := List.mem_flatMap.mp hn
      have hsize := Extent.le_length x n hn
      have := length_encode_le_flatMap hx
      omega

instance [Extent α] : Extent (Option α) where
  sizes x := x.elim [] sizes
  le_length x n hn := by
    cases x with
    | none => cases hn
    | some x =>
      have := Extent.le_length x n hn
      rw [length_encode_some]
      omega

/-- The sizes in two values that are written one after the other. -/
theorem le_of_mem_sizes_append [Extent α] [Extent β] {x : α} {y : β} {n : Nat}
    (h : n ∈ sizes x ++ sizes y) : n ≤ (encode x).length + (encode y).length := by
  obtain h | h := List.mem_append.mp h
  · exact Nat.le_trans (Extent.le_length x n h) (Nat.le_add_right _ _)
  · exact Nat.le_trans (Extent.le_length y n h) (Nat.le_add_left _ _)

instance [Extent α] [Extent β] : Extent (α × β) where
  sizes p := sizes p.1 ++ sizes p.2
  le_length p n hn := by
    rw [length_encode_pair]
    exact le_of_mem_sizes_append hn

section

variable [Ord α] [Std.TransOrd α] [LawfulCodec α] [LawfulCodec β] [Extent α] [Extent β]

instance : Extent (Std.ExtTreeSet α compare) where
  sizes s := s.size :: s.toList.flatMap sizes
  le_length s n hn := by
    refine Extent.le_length s.toList n ?_
    change n ∈ s.toList.length :: s.toList.flatMap sizes
    rwa [Std.ExtTreeSet.length_toList]

instance : Extent (Std.ExtTreeMap α β compare) where
  sizes m := m.size :: m.toList.flatMap sizes
  le_length m n hn := by
    refine Extent.le_length m.toList n ?_
    change n ∈ m.toList.length :: m.toList.flatMap sizes
    rwa [Std.ExtTreeMap.length_toList]

end

instance : Extent Member where
  sizes m := sizes m.host
  le_length m n hn := by
    have := Extent.le_length m.host n hn
    rw [length_encode_member]
    omega

instance : Extent Event where
  sizes e := sizes e.subject
  le_length e n hn := by
    have := Extent.le_length e.subject n hn
    rw [length_encode_event]
    omega

instance : Extent FileMessage where
  sizes m := (sizes m.file ++ sizes m.nodes) ++ (sizes m.versions ++ sizes m.files)
  le_length m n hn := by
    rw [length_encode_fileMessage]
    obtain hn | hn := List.mem_append.mp hn
    · have := le_of_mem_sizes_append hn
      omega
    · have := le_of_mem_sizes_append hn
      omega

def messageSizes : Message → List Nat
  | .membership e => sizes e
  | .file m => sizes m

theorem le_length_of_mem_messageSizes {x : Message} {n : Nat} (hn : n ∈ messageSizes x) :
    n ≤ (encode x).length := by
  cases x with
  | membership e =>
    have := Extent.le_length e n hn
    rw [length_encode_membership]
    omega
  | file m =>
    have := Extent.le_length m n hn
    rw [length_encode_file]
    omega

instance : Extent Message := ⟨messageSizes, fun _ _ => le_length_of_mem_messageSizes⟩

instance : Extent Snapshot where
  sizes s := sizes s.members ++ sizes s.coordinator
  le_length s n hn := by
    rw [length_encode_snapshot]
    exact le_of_mem_sizes_append hn

instance : Extent IntroducerRequest where
  sizes r := sizes r.joining
  le_length r := Extent.le_length r.joining

instance : Extent IntroducerReply where
  sizes r := sizes r.groupMember
  le_length r := Extent.le_length r.groupMember

instance : Extent Datagram where
  sizes d := sizes d.event
  le_length d n hn := by
    have := Extent.le_length d.event n hn
    rw [length_encode_datagram]
    omega

end ReplicaRing.Wire
