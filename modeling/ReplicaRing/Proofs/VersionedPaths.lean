import ReplicaRing.Proofs.Store.Paths
import ReplicaRing.Proofs.StoredNames

/-!
# Paths of versions

Versions of a file are fetched to paths beside each other, whose last names tell the versions apart.
The sibling that collects one version is at none of these paths.
-/
namespace ReplicaRing

open Disk Text

variable {name base : String} {v w : UInt64} {front : List Char} {path : String} {d : Disk}
  {p : FilePath} {l k : Location}

namespace StoredName

theorem mem_joinExtension_append {c : Char} {stem extra : List Char}
    {extension : Option (List Char)} :
    c ∈ joinExtension (stem ++ extra) extension ↔ c ∈ joinExtension stem extension ∨ c ∈ extra := by
  cases extension with
  | none => rw [joinExtension, joinExtension, List.mem_append]
  | some extension =>
    simp only [joinExtension, List.mem_append]
    tauto

/-- A version of a name without slashes is stored under a plain name. -/
theorem plain_ofVersion (h : '/' ∉ base.toList) (v : UInt64) : Plain (ofVersion base v) := by
  have hmem (c : Char) : c ∈ (ofVersion base v).toList ↔
      c ∈ base.toList ∨ c ∈ delimiter :: v.toNat.repr.toList := by
    rw [toList_ofVersion, mem_joinExtension_append, joinExtension_splitExtension]
  have hdelimiter : delimiter ∈ (ofVersion base v).toList := (hmem _).mpr (.inr List.mem_cons_self)
  refine ⟨?_, ?_, ?_, ?_⟩
  · intro heq
    rw [heq] at hdelimiter
    cases hdelimiter
  · rw [hmem, not_or, List.mem_cons, not_or]
    exact ⟨h, by decide, not_mem_repr (by decide) _⟩
  · intro heq
    rw [heq] at hdelimiter
    exact absurd hdelimiter (by decide)
  · intro heq
    rw [heq] at hdelimiter
    exact absurd hdelimiter (by decide)

/-- No version has the name of the sibling that collects a version. -/
theorem ofVersion_ne_ofName (base : String) (v w : UInt64) :
    ofVersion base v ≠ PartialName.ofName (ofVersion base w) := by
  intro heq
  cases hs : splitExtension base.toList with
  | mk stem extension =>
    have hdot : '.' ∉ delimiter :: v.toNat.repr.toList := by
      rw [List.mem_cons, not_or]
      exact ⟨by decide, not_mem_repr (by decide) _⟩
    have hversion : splitExtension (ofVersion base v).toList =
        (stem ++ delimiter :: v.toNat.repr.toList, extension) := by
      rw [toList_ofVersion, hs]
      exact splitExtension_joinExtension_append hs hdot
    have hsibling : splitExtension (PartialName.ofName (ofVersion base w)).toList =
        ('.' :: (ofVersion base w).toList, some "partial".toList) := by
      have hsplit : splitLast? '.' (PartialName.ofName (ofVersion base w)).toList =
          some ('.' :: (ofVersion base w).toList, "partial".toList) :=
        splitLast?_eq_some_iff.mpr ⟨PartialName.toList_ofName _, by decide⟩
      rw [splitExtension, hsplit]
      rfl
    rw [heq, hsibling, toList_ofVersion, hs, Prod.mk.injEq] at hversion
    obtain ⟨hstem, rfl⟩ := hversion
    -- Behind the last delimiter stands the number, so the stems before it are the same.
    have hleft : splitLast? delimiter (stem ++ delimiter :: v.toNat.repr.toList) =
        some (stem, v.toNat.repr.toList) :=
      splitLast?_eq_some_iff.mpr ⟨rfl, not_mem_repr (by decide) _⟩
    have hright : splitLast? delimiter (stem ++ delimiter :: v.toNat.repr.toList) =
        some ('.' :: stem, w.toNat.repr.toList ++ '.' :: "partial".toList) := by
      refine splitLast?_eq_some_iff.mpr ⟨?_, ?_⟩
      · rw [← hstem, joinExtension, List.cons_append, List.append_assoc, List.cons_append]
      · rw [List.mem_append, not_or]
        exact ⟨not_mem_repr (by decide) _, by decide⟩
    rw [hleft, Option.some.injEq, Prod.mk.injEq] at hright
    exact absurd hright.1 (List.cons_ne_self _ _).symm

/-- The name whose versions the paths of versions end in. -/
def baseName (path : String) : String := String.ofList ((Path.fileName? path.toList).getD [])

theorem plain_version_baseName (path : String) (v : UInt64) : Plain (ofVersion (baseName path) v) :=
  plain_ofVersion (by rw [baseName, String.toList_ofList]; exact Path.not_mem_fileName? _) v

theorem exists_front_versionedPath (path : String) (v : UInt64) :
    ∃ front, Path.IsFront front ∧
      (versionedPath path v).toList = front ++ (ofVersion (baseName path) v).toList := by
  obtain ⟨front, hfront, hpath⟩ := Path.exists_front path.toList
  refine ⟨front, hfront, ?_⟩
  rw [versionedPath, String.toList_ofList]
  exact hpath _ (plain_version_baseName path v)

theorem pieces_versionedPath (path : String) (v : UInt64) :
    (pieces (versionedPath path v).toList).getLast? = some (ofVersion (baseName path) v) := by
  obtain ⟨front, hfront, hpath⟩ := exists_front_versionedPath path v
  rw [hpath, Path.pieces_front hfront (plain_version_baseName path v)]

theorem pieces_inTransit_versionedPath (path : String) (v : UInt64) :
    (pieces (PartialName.ofPath (versionedPath path v)).toList).getLast? =
      some (PartialName.ofName (ofVersion (baseName path) v)) := by
  obtain ⟨front, hfront, hpath⟩ := exists_front_versionedPath path v
  rw [PartialName.pieces_ofPath, hpath, Path.fileName?_front hfront (plain_version_baseName path v),
    Option.getD_some, String.ofList_toList]

end StoredName

namespace Disk

theorem getLast?_fileTarget (h : d.fileTarget p = .ok l)
    (hname : (pieces p.text.toList).getLast? = some name) : l.getLast? = some name := by
  obtain ⟨parent, found, rfl, -, hfound⟩ := exists_parent_of_resolve (fileTarget_eq_ok.mp h).1
  rw [List.getLast?_concat, ← hfound, hname]

/-- Versions are fetched to different places, also when the disk changes in between. -/
theorem versionedPath_apart {d' : Disk} {folder : Location} (hvw : v ≠ w)
    (hv : d.fileTarget ⟨folder, StoredName.versionedPath path v⟩ = .ok l)
    (hw : d'.fileTarget ⟨folder, StoredName.versionedPath path w⟩ = .ok k) : l ≠ k := by
  rintro rfl
  have hv := getLast?_fileTarget hv (StoredName.pieces_versionedPath path v)
  have hw := getLast?_fileTarget hw (StoredName.pieces_versionedPath path w)
  exact hvw (StoredName.ofVersion_eq_iff.mp (Option.some.inj (hv.symm.trans hw))).2

/-- What collects a version is not where another one is. -/
theorem versionedPath_apart_inTransit {folder : Location}
    (hv : d.fileTarget ⟨folder, StoredName.versionedPath path v⟩ = .ok l)
    (hw : d.fileTarget (FilePath.inTransit ⟨folder, StoredName.versionedPath path w⟩) = .ok k) :
    l ≠ k := by
  rintro rfl
  have hv := getLast?_fileTarget hv (StoredName.pieces_versionedPath path v)
  have hw := getLast?_fileTarget hw (StoredName.pieces_inTransit_versionedPath path w)
  exact StoredName.ofVersion_ne_ofName _ _ _ (Option.some.inj (hv.symm.trans hw))

end Disk

end ReplicaRing
