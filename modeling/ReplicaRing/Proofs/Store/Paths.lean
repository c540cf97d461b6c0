import ReplicaRing.Proofs.Disk.Transfers
import ReplicaRing.Store

/-!
# Where a store keeps its files

A name that a store accepts is a plain name. Its file is an entry of the store's folder, and so is
the sibling that collects the bytes of the file; no name that is accepted is the name of a sibling.
-/
namespace ReplicaRing

open Disk

variable {name other : String} {s : Store}

namespace Store

/-- Where the file of a name is. -/
def place (s : Store) (name : String) : Location := s.root ++ [name]

theorem plain_of_accepts (h : accepts name = true) : Plain name := by
  simp only [accepts, Bool.not_eq_true', Bool.or_eq_false_iff, List.contains_eq_mem,
    decide_eq_false_iff_not, beq_eq_false_iff_ne] at h
  obtain ⟨⟨⟨⟨⟨hempty, hslash⟩, -⟩, hdot⟩, hdots⟩, -⟩ := h
  exact ⟨fun heq => by simp [heq] at hempty, hslash, hdot, hdots⟩

/-- No stored file has the name of a sibling. -/
theorem ofName_ne_of_accepts (h : accepts name = true) : PartialName.ofName other ≠ name := by
  rintro rfl
  simp [accepts, PartialName.isPartial_ofName] at h

theorem place_eq_iff : s.place name = s.place other ↔ name = other := by
  simp [place]

theorem inTransit_path (h : accepts name = true) :
    (s.path name).inTransit = s.path (PartialName.ofName name) :=
  FilePath.inTransit_plain (plain_of_accepts h)

theorem not_isPartial_of_accepts (h : accepts name = true) :
    PartialName.isPartial name = false := by
  simp only [accepts, Bool.not_eq_true', Bool.or_eq_false_iff] at h
  exact h.2

theorem place_prefix_iff : s.place name <+: s.place other ↔ name = other := by
  refine ⟨fun h => place_eq_iff.mp (h.eq_of_length ?_), fun h => h ▸ List.prefix_refl _⟩
  simp only [place, List.length_append, List.length_singleton]

end Store

end ReplicaRing
