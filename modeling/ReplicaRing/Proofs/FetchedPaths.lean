import ReplicaRing.Client
import ReplicaRing.Proofs.Disk.Folders
import ReplicaRing.Proofs.VersionedPaths

/-!
# Where versions are fetched to

A version is fetched to a path of its own, in the folder of the path that was asked for. The last
name of that path is read back as the version, so what is fetched together never meets.
-/
namespace ReplicaRing

open Disk

namespace Path

variable {name : String} {path : List Char}

theorem dropTrailing_dropTrailing (path : List Char) :
    dropTrailing (dropTrailing path) = dropTrailing path := by
  fun_induction dropTrailing path with
  | case1 r ih => exact ih
  | case2 r ih => exact ih
  | case3 r hslash hdot => rw [dropTrailing.eq_3 r hslash hdot]

/-- What stands above a plain name, trimmed. -/
theorem parent_append (h : Plain name) (above : List Char) :
    parent (above ++ '/' :: name.toList) =
      if dropTrailing above.reverse = [] ∧ (above ++ ['/']).head? = some '/' then ['/']
      else (dropTrailing above.reverse).reverse := by
  have hreverse : (above ++ '/' :: name.toList).reverse =
      name.toList.reverse ++ '/' :: above.reverse := by simp
  have hdrop : (name.toList.reverse ++ '/' :: above.reverse).dropWhile (· ≠ '/') =
      '/' :: above.reverse := by
    rw [List.dropWhile_append_of_pos h.ne_slash_of_mem, List.dropWhile_cons_of_neg (by decide)]
  have hhead : (above ++ '/' :: name.toList).head? = (above ++ ['/']).head? := by
    cases above <;> rfl
  simp only [parent, hreverse, h.dropTrailing_append, hdrop, dropTrailing, hhead]

/-- A name that starts with no slash goes below the path. -/
theorem join_plain (h : Plain name) (above : List Char) :
    join above name.toList =
      match above.getLast? with
      | none => name.toList
      | some c => if c = '/' then above ++ name.toList else above ++ '/' :: name.toList := by
  unfold join
  split
  · rename_i heq
    exact absurd (heq ▸ List.mem_cons_self) h.no_slash
  · rfl

/-- A name that is put where another one stood has the same parent. -/
theorem parent_join_parent (h : Plain name) (path : List Char) :
    parent (join (parent path) name.toList) = parent path := by
  generalize hparent : parent path = above
  rw [parent] at hparent
  generalize hrest : dropTrailing ((dropTrailing path.reverse).dropWhile (· ≠ '/')) = rest
    at hparent
  split at hparent
  · subst hparent
    rw [join_plain h]
    exact (parent_append h []).trans rfl
  · subst hparent
    cases rest with
    | nil => exact (congrArg parent (join_plain h [])).trans h.parent_eq
    | cons c rest =>
      -- The path is trimmed already, and so it ends in no slash.
      have hc : c ≠ '/' := by
        rintro rfl
        exact head?_dropTrailing _ (congrArg List.head? hrest)
      have htrimmed : dropTrailing (c :: rest) = c :: rest := by
        rw [← hrest, dropTrailing_dropTrailing]
      rw [join_plain h, List.getLast?_reverse, List.head?_cons]
      simp only [hc, ↓reduceIte]
      rw [parent_append h, List.reverse_reverse, htrimmed, if_neg (by simp)]

theorem parent_withFileName (h : Plain name) (hpath : fileName? path ≠ none) :
    parent (withFileName path name.toList) = parent path := by
  unfold withFileName
  cases hname : fileName? path with
  | none => exact absurd hname hpath
  | some found => exact parent_join_parent h path

end Path

namespace StoredName

open Client

variable {v w : UInt64} {path : String}

theorem fileName?_versionedPath (path : String) (v : UInt64) :
    Path.fileName? (versionedPath path v).toList = some (ofVersion (baseName path) v).toList := by
  obtain ⟨front, hfront, hpath⟩ := exists_front_versionedPath path v
  rw [hpath, Path.fileName?_front hfront (plain_version_baseName path v)]

theorem versionedPath_injective (h : versionedPath path v = versionedPath path w) : v = w := by
  have hname := fileName?_versionedPath path v
  rw [h, fileName?_versionedPath, Option.some.injEq] at hname
  exact (ofVersion_eq_iff.mp (String.toList_injective hname)).2.symm

theorem parent_versionedPath (h : Path.fileName? path.toList ≠ none) (v : UInt64) :
    Path.parent (versionedPath path v).toList = Path.parent path.toList := by
  rw [versionedPath, String.toList_ofList]
  exact Path.parent_withFileName (plain_version_baseName path v) h

/-- What is fetched together are different versions. -/
theorem pairwise_newest (versions : VersionMap) (count : Nat) :
    (newest versions count).Pairwise fun a b => a.1 ≠ b.1 := by
  have hkeys : versions.toList.Pairwise fun a b => a.1 ≠ b.1 :=
    Std.ExtTreeMap.distinct_keys_toList.imp fun hne heq =>
      hne (Std.LawfulEqCmp.compare_eq_iff_eq.mpr heq)
  have hreverse : versions.toList.reverse.Pairwise fun a b => a.1 ≠ b.1 :=
    List.pairwise_reverse.mpr (hkeys.imp Ne.symm)
  exact (hreverse.filter _).sublist (List.take_sublist _ _)

/-- **Versions are fetched side by side.** Whatever the local path is, each version of it is a path
whose last name is plain, and is read back as that version of the path's own file name (which is
empty if there is none). Versions that are fetched together have different paths, which lead to
different places, also when the disk changes in between. A path with a file name keeps its
parent. -/
theorem fetched_side_by_side (path : String) (v : UInt64) :
    (∃ last : String, Path.fileName? (versionedPath path v).toList = some last.toList ∧
      Plain last ∧ parse last = .ok (String.ofList ((Path.fileName? path.toList).getD []), v)) ∧
    (∀ (versions : VersionMap) (count : Nat), (newest versions count).Pairwise fun a b =>
      versionedPath path a.1 ≠ versionedPath path b.1 ∧
        ∀ (folder : Location) (d d' : Disk) (l k : Location),
          d.fileTarget ⟨folder, versionedPath path a.1⟩ = .ok l →
          d'.fileTarget ⟨folder, versionedPath path b.1⟩ = .ok k → l ≠ k) ∧
    (Path.fileName? path.toList ≠ none →
      Path.parent (versionedPath path v).toList = Path.parent path.toList) := by
  refine ⟨⟨ofVersion (baseName path) v, fileName?_versionedPath path v,
    plain_version_baseName path v, by rw [parse, parse?_ofVersion, baseName]⟩,
    fun versions count => ?_,
    fun hname => parent_versionedPath hname v⟩
  exact (pairwise_newest versions count).imp fun hne =>
    ⟨fun heq => hne (versionedPath_injective heq), fun _ _ _ _ _ => versionedPath_apart hne⟩

/-- Two versions of a path that ends in a slash and a dot. -/
theorem fetched_side_by_side_of_two :
    let path := "out//a.b.txt/."
    let holder : Member := ⟨"127.0.0.2", 9000, 1⟩
    let versions : VersionMap :=
      Std.ExtTreeMap.ofList [((1 : UInt64), {holder}), (2, ∅), (3, {holder})] compare
    let d := ({} : Disk).set ["out"] .folder
    newest versions 2 = [(3, {holder}), (1, {holder})] ∧
      d.fileTarget ⟨[], versionedPath path 3⟩ = .ok ["out", "a.b_3.txt"] ∧
      d.fileTarget ⟨[], versionedPath path 1⟩ = .ok ["out", "a.b_1.txt"] ∧
      (["out", "a.b_3.txt"] : Location) ≠ ["out", "a.b_1.txt"] ∧
      Path.fileName? path.toList = some "a.b.txt".toList ∧
      Path.parent (versionedPath path 3).toList = Path.parent path.toList := by
  intro path holder versions d
  have hnewest : newest versions 2 = [(3, {holder}), (1, {holder})] := by decide +kernel
  have hthird : d.fileTarget ⟨[], versionedPath path 3⟩ = .ok ["out", "a.b_3.txt"] := by
    decide +kernel
  have hfirst : d.fileTarget ⟨[], versionedPath path 1⟩ = .ok ["out", "a.b_1.txt"] := by
    decide +kernel
  have hname : Path.fileName? path.toList = some "a.b.txt".toList := by decide +kernel
  obtain ⟨-, hapart, hparent⟩ := fetched_side_by_side path 3
  have hpair := hapart versions 2
  rw [hnewest, List.pairwise_pair] at hpair
  exact ⟨hnewest, hthird, hfirst, hpair.2 [] d d _ _ hthird hfirst, hname,
    hparent (by rw [hname]; exact Option.some_ne_none _)⟩

end StoredName

end ReplicaRing
