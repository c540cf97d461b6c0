import Mathlib.Data.List.Nodup
import ReplicaRing.Client
import ReplicaRing.Proofs.Directory.Numbering

/-!
# A directory that knows what was put

The history of a group is what was put under each name, in order. A directory represents it if the
versions of a file are numbered as its puts, from one on, and each has holders. Then the newest
version is that of the last put, and the newest versions are those of the last puts.
-/
namespace ReplicaRing

/-- What was put under each name, in order. -/
abbrev History := String → List Bytes

namespace History

variable {h : History} {file g : String} {v : UInt64} {content found : Bytes}

/-- Nothing was put. -/
def empty : History := fun _ => []

def add (h : History) (file : String) (content : Bytes) : History :=
  fun g => if g = file then h g ++ [content] else h g

/-- The content of a version. Versions count from one. -/
def content? (h : History) (file : String) (v : UInt64) : Option Bytes :=
  if v.toNat = 0 then none else (h file)[v.toNat - 1]?

theorem content?_isSome :
    (h.content? file v).isSome ↔ 1 ≤ v.toNat ∧ v.toNat ≤ (h file).length := by
  unfold content?
  split
  · simp only [Option.isSome_none, Bool.false_eq_true, false_iff]
    omega
  · rw [Option.isSome_iff_ne_none, Ne, List.getElem?_eq_none_iff]
    omega

theorem length_add_self : (h.add file content file).length = (h file).length + 1 := by
  rw [add, if_pos rfl, List.length_append]
  rfl

/-- What was put stays. -/
theorem content?_add (hfound : h.content? g v = some found) :
    (h.add file content).content? g v = some found := by
  unfold content? at hfound ⊢
  split at hfound
  · cases hfound
  · rw [if_neg ‹_›, add]
    split
    · rw [List.getElem?_append_left (List.getElem?_eq_some_iff.mp hfound).1]
      exact hfound
    · exact hfound

/-- The version after the last one is that of the new put. -/
theorem content?_add_self (hv : v.toNat = (h file).length + 1) :
    (h.add file content).content? file v = some content := by
  rw [content?, if_neg (by omega), add, if_pos rfl, hv, Nat.add_sub_cancel,
    List.getElem?_concat_length]

theorem content?_length (hv : v.toNat = (h file).length) :
    h.content? file v = (h file).getLast? := by
  unfold content?
  split
  · have hnil : h file = [] := List.length_eq_zero_iff.mp (by omega)
    rw [hnil, List.getLast?_nil]
  · rw [List.getLast?_eq_getElem?, hv]

end History

namespace Directory

variable {d : Directory} {h : History} {file : String} {v : UInt64} {content : Bytes}
  {holders : MemberSet} {stores stores' : Member → String → Prop} {entry : UInt64 × MemberSet}

/-- The versions of a file are its puts, and each is stored by its holders, of which there are
some. -/
structure Represents (d : Directory) (h : History) (stores : Member → String → Prop) : Prop where
  unknown : ∀ file, h file = [] → d.record? file = none
  highest : ∀ file, (d.recordOf file).highestAssigned.toNat = (h file).length
  versions : ∀ file v, v ∈ (d.recordOf file).versions ↔ (h.content? file v).isSome
  held : ∀ file v holders, (d.recordOf file).versions[v]? = some holders →
    holders.isEmpty = false ∧ ∀ m ∈ holders, stores m (StoredName.ofVersion file v)

theorem represents_empty : ({} : Directory).Represents .empty stores where
  unknown _ _ := rfl
  highest _ := rfl
  versions file v := by
    rw [recordOf_eq, record?_empty, Option.getD_none, History.content?_isSome]
    refine iff_of_false Std.ExtTreeMap.not_mem_empty ?_
    simp only [History.empty, List.length_nil]
    omega
  held _ _ _ hv := nomatch hv

namespace Represents

theorem mono (hd : d.Represents h stores) (hstores : ∀ m name, stores m name → stores' m name) :
    d.Represents h stores' where
  unknown := hd.unknown
  highest := hd.highest
  versions := hd.versions
  held file v holders hv :=
    ⟨(hd.held file v holders hv).1, fun m hm => hstores _ _ ((hd.held file v holders hv).2 m hm)⟩

theorem nextVersion_toNat (hd : d.Represents h stores) (hroom : (h file).length + 1 < UInt64.size) :
    (d.nextVersion file).toNat = (h file).length + 1 := by
  rw [nextVersion, UInt64.toNat_add, hd.highest]
  exact Nat.mod_eq_of_lt hroom

/-- A put that is reserved and then confirmed. -/
theorem put (hd : d.Represents h stores) (hroom : (h file).length + 1 < UInt64.size)
    (hholders : holders.isEmpty = false)
    (hstores : ∀ m ∈ holders, stores m (StoredName.ofVersion file (d.nextVersion file)))
    (content : Bytes) :
    ((d.reserve file).1.confirm file (d.nextVersion file) holders).Represents
      (h.add file content) stores := by
  have hnext := hd.nextVersion_toNat hroom
  have hrecord (g : String) :
      ((d.reserve file).1.confirm file (d.nextVersion file) holders).recordOf g =
        if file = g then
          ((d.recordOf file).put (d.nextVersion file) ∅).put (d.nextVersion file) holders
        else d.recordOf g := by
    rw [recordOf_eq, record?_confirm hholders]
    split
    · rw [Option.getD_some, recordOf_eq, record?_reserve, if_pos rfl, Option.getD_some]
    · rw [record?_reserve, if_neg ‹_›, recordOf_eq]
  refine ⟨fun g hg => ?_, fun g => ?_, fun g v => ?_, fun g v found hv => ?_⟩
  · have hne : file ≠ g := by
      rintro rfl
      rw [History.add, if_pos rfl] at hg
      exact List.concat_ne_nil _ _ hg
    rw [History.add, if_neg (Ne.symm hne)] at hg
    rw [record?_confirm hholders, if_neg hne, record?_reserve, if_neg hne]
    exact hd.unknown g hg
  · rw [hrecord]
    split
    · rename_i heq
      subst heq
      have hle : (d.recordOf file).highestAssigned ≤ d.nextVersion file := by
        rw [UInt64.le_iff_toNat_le, hd.highest, hnext]
        omega
      rw [FileRecord.put_highestAssigned, FileRecord.put_highestAssigned, max_eq_right hle,
        max_self, hnext, History.length_add_self]
    · rw [hd.highest, History.add, if_neg (Ne.symm ‹_›)]
  · rw [hrecord, History.content?_isSome]
    split
    · subst_vars
      rw [FileRecord.mem_put, FileRecord.mem_put, hd.versions, History.content?_isSome,
        History.length_add_self, ← UInt64.toNat_inj, hnext]
      omega
    · rw [hd.versions, History.content?_isSome, History.add, if_neg (Ne.symm ‹_›)]
  · rw [hrecord] at hv
    split at hv
    · subst_vars
      rw [FileRecord.put_versions_getElem?] at hv
      split at hv
      · cases hv
        exact ‹_› ▸ ⟨hholders, hstores⟩
      · rw [FileRecord.put_versions_getElem?, if_neg ‹_›] at hv
        exact hd.held _ v found hv
    · exact hd.held g v found hv

/-- The versions of a file, in order, are numbered as its puts. -/
theorem map_toNat_versions (hd : d.Represents h stores) (file : String) :
    (d.recordOf file).versions.toList.map (·.1.toNat) = List.range' 1 (h file).length := by
  have hsorted : ((d.recordOf file).versions.toList.map (·.1.toNat)).Pairwise (· < ·) := by
    rw [List.pairwise_map]
    refine Std.ExtTreeMap.ordered_keys_toList.imp fun hlt => ?_
    exact UInt64.lt_iff_toNat_lt.mp (compare_lt_iff_lt.mp hlt)
  refine List.Perm.eq_of_pairwise (fun a b _ _ hab hba => absurd hba (Nat.lt_asymm hab)) hsorted
    (List.pairwise_lt_range' 1) ?_
  refine (List.perm_ext_iff_of_nodup (hsorted.imp Nat.ne_of_lt) List.nodup_range').mpr fun n => ?_
  rw [List.mem_map, List.mem_range'_1]
  constructor
  · rintro ⟨⟨v, holders⟩, hmem, rfl⟩
    have hv := (hd.versions file v).mp (Std.ExtTreeMap.mem_iff_isSome_getElem?.mpr (by
      rw [Std.ExtTreeMap.mem_toList_iff_getElem?_eq_some.mp hmem]
      rfl))
    rw [History.content?_isSome] at hv
    dsimp only
    omega
  · rintro ⟨hpos, hle⟩
    have hbound := (d.recordOf file).highestAssigned.toNat_lt
    rw [hd.highest] at hbound
    have hn : (UInt64.ofNat n).toNat = n :=
      UInt64.toNat_ofNat_of_lt' (Nat.lt_of_le_of_lt (by omega) hbound)
    have hmem := (hd.versions file (UInt64.ofNat n)).mpr
      (History.content?_isSome.mpr (by rw [hn]; omega))
    obtain ⟨holders, hholders⟩ := FileRecord.mem_versions_iff.mp hmem
    exact ⟨(UInt64.ofNat n, holders),
      Std.ExtTreeMap.mem_toList_iff_getElem?_eq_some.mpr hholders, hn⟩

/-- Every version has holders, who store it. -/
theorem held_of_mem (hd : d.Represents h stores)
    (hmem : entry ∈ (d.recordOf file).versions.toList) :
    entry.2.isEmpty = false ∧ ∀ m ∈ entry.2, stores m (StoredName.ofVersion file entry.1) :=
  hd.held file entry.1 entry.2 (Std.ExtTreeMap.mem_toList_iff_getElem?_eq_some.mp hmem)

theorem record?_eq (hd : d.Represents h stores) (hput : h file ≠ []) :
    d.record? file = some (d.recordOf file) := by
  cases hr : d.record? file with
  | some r => rw [recordOf_eq, hr, Option.getD_some]
  | none =>
    have hhighest := hd.highest file
    rw [recordOf_eq, hr, Option.getD_none] at hhighest
    exact absurd (List.length_eq_zero_iff.mp hhighest.symm) hput

/-- The newest version is that of the last put. -/
theorem latest? (hd : d.Represents h stores) (hput : h file ≠ []) :
    ∃ v holders, d.latest? file = some (v, holders) ∧ v.toNat = (h file).length ∧
      holders.isEmpty = false ∧ ∀ m ∈ holders, stores m (StoredName.ofVersion file v) := by
  have hkeys := congrArg List.getLast? (hd.map_toNat_versions file)
  rw [List.getLast?_map, List.getLast?_range', if_neg (by rwa [List.length_eq_zero_iff])] at hkeys
  obtain ⟨entry, hlast, hentry⟩ := Option.map_eq_some_iff.mp hkeys
  have hheld := hd.held_of_mem (List.mem_of_getLast? hlast)
  refine ⟨entry.1, entry.2, ?_, by omega, hheld⟩
  have hfront : (d.recordOf file).versions.toList.reverse.head? = some entry := by
    rw [List.head?_reverse, hlast]
  obtain ⟨rest, hrest⟩ := List.head?_eq_some_iff.mp hfront
  rw [Directory.latest?, hd.record?_eq hput, Option.bind_some, FileRecord.latest?, hrest,
    List.find?_cons_of_pos]
  rw [hheld.1]
  rfl

theorem latest?_of_nil (hd : d.Represents h stores) (hnil : h file = []) :
    d.latest? file = none := by
  rw [Directory.latest?, hd.unknown file hnil, Option.bind_none]

/-- The newest versions are those of the last puts. -/
theorem newest (hd : d.Represents h stores) (file : String) (count : Nat) :
    (Client.newest (d.recordOf file).versions count).map (·.1.toNat) =
        ((List.range' 1 (h file).length).reverse.take count) ∧
      ∀ entry ∈ Client.newest (d.recordOf file).versions count,
        entry.2.isEmpty = false ∧ ∀ m ∈ entry.2, stores m (StoredName.ofVersion file entry.1) := by
  have hall : Client.newest (d.recordOf file).versions count =
      (d.recordOf file).versions.toList.reverse.take count := by
    rw [Client.newest, List.filter_eq_self.mpr]
    intro entry hmem
    rw [(hd.held_of_mem (List.mem_reverse.mp hmem)).1]
    rfl
  rw [hall]
  refine ⟨?_, fun entry hmem => hd.held_of_mem (List.mem_reverse.mp (List.mem_of_mem_take hmem))⟩
  rw [List.map_take, List.map_reverse, hd.map_toNat_versions]

end Represents

end Directory

end ReplicaRing
