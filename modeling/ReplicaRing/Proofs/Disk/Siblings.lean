import Mathlib.Data.List.TakeWhile
import ReplicaRing.Proofs.Disk.Entries

/-!
# What paths end in

Every path has a sibling, which ends in a plain name behind the front of the path. A path that ends
in a plain name has this name for its file name.
-/
namespace ReplicaRing

open Disk

variable {name other : String} {root : Location} {front : List Char} {d : Disk} {p : FilePath}
  {t : Target}

namespace Disk.Plain

theorem dropTrailing_append (h : Plain name) (rest : List Char) :
    Path.dropTrailing (name.toList.reverse ++ rest) = name.toList.reverse ++ rest := by
  have hslash : '/' ∉ name.toList.reverse := by rw [List.mem_reverse]; exact h.no_slash
  have hempty : name.toList.reverse ≠ [] := fun heq =>
    h.ne_empty (String.toList_eq_nil_iff.mp (List.reverse_eq_nil_iff.mp heq))
  have hdot : name.toList.reverse ≠ ['.'] := fun heq =>
    h.ne_dot (String.toList_injective (List.reverse_eq_iff.mp heq))
  obtain ⟨c, front, hname⟩ := List.exists_cons_of_ne_nil hempty
  rw [hname, List.mem_cons, not_or] at hslash
  rw [hname] at hdot
  rw [hname, List.cons_append]
  unfold Path.dropTrailing
  split
  · rename_i heq
    cases heq
    exact absurd rfl hslash.1
  · rename_i heq
    cases front with
    | nil =>
      cases heq
      exact absurd rfl hdot
    | cons c' front =>
      cases heq
      exact absurd List.mem_cons_self hslash.2
  · rfl

theorem dropTrailing_eq (h : Plain name) :
    Path.dropTrailing name.toList.reverse = name.toList.reverse := by
  have happend := h.dropTrailing_append []
  rwa [List.append_nil] at happend

theorem ne_slash_of_mem (h : Plain name) : ∀ c ∈ name.toList.reverse, decide (c ≠ '/') = true := by
  intro c hc
  rw [decide_eq_true_iff]
  rintro rfl
  exact h.no_slash (List.mem_reverse.mp hc)

/-- The file name of a path that ends in a plain name. -/
theorem fileName?_of_takeWhile {path : List Char} (h : Plain name)
    (hname : (Path.dropTrailing path.reverse).takeWhile (· ≠ '/') = name.toList.reverse) :
    Path.fileName? path = some name.toList := by
  have hempty : name.toList ≠ [] := fun heq => h.ne_empty (String.toList_eq_nil_iff.mp heq)
  have hdot : name.toList ≠ ['.'] := fun heq => h.ne_dot (String.toList_injective heq)
  have hdots : name.toList ≠ ['.', '.'] := fun heq => h.ne_dots (String.toList_injective heq)
  simp only [Path.fileName?, hname, List.reverse_reverse, hempty, hdot, hdots, or_self, ↓reduceIte]

theorem fileName?_eq (h : Plain name) : Path.fileName? name.toList = some name.toList := by
  refine h.fileName?_of_takeWhile ?_
  rw [h.dropTrailing_eq, List.takeWhile_eq_self_iff]
  exact h.ne_slash_of_mem

/-- A slash ends what stands before the file name. -/
theorem fileName?_append (h : Plain name) (above : List Char) :
    Path.fileName? (above ++ '/' :: name.toList) = some name.toList := by
  refine h.fileName?_of_takeWhile ?_
  rw [List.reverse_append, List.reverse_cons, List.append_assoc, h.dropTrailing_append,
    List.takeWhile_append_of_pos h.ne_slash_of_mem, List.singleton_append,
    List.takeWhile_cons_of_neg (by decide), List.append_nil]

theorem parent_eq (h : Plain name) : Path.parent name.toList = [] := by
  have hnone : name.toList.reverse.dropWhile (· ≠ '/') = [] := by
    rw [List.dropWhile_eq_nil_iff]
    exact h.ne_slash_of_mem
  have hhead : name.toList.head? ≠ some '/' := fun hh => h.no_slash (List.mem_of_mem_head? hh)
  simp only [Path.parent, h.dropTrailing_eq, hnone, Path.dropTrailing, hhead, and_false, ↓reduceIte,
    List.reverse_nil]

end Disk.Plain

namespace PartialName

theorem toList_ofName (name : String) :
    (ofName name).toList = '.' :: name.toList ++ ".partial".toList := by
  simp [ofName]

theorem ofName_injective (h : ofName name = ofName other) : name = other := by
  have heq := congrArg String.toList h
  rw [toList_ofName, toList_ofName, List.cons_append, List.cons_append, List.cons.injEq] at heq
  exact String.toList_injective (List.append_cancel_right heq.2)

theorem isPartial_ofName (name : String) : isPartial (ofName name) = true := by
  rw [isPartial, toList_ofName, Bool.and_eq_true, List.isPrefixOf_iff_prefix,
    List.isSuffixOf_iff_suffix]
  exact ⟨⟨name.toList ++ ".partial".toList, rfl⟩, List.suffix_append _ _⟩

theorem plain_ofName (h : '/' ∉ name.toList) : Plain (ofName name) := by
  have hlength : (ofName name).toList.length = name.toList.length + 9 := by
    rw [toList_ofName, List.length_append, List.length_cons]
    rfl
  have hne (short : String) (hshort : short.toList.length < 9) : ofName name ≠ short := by
    rintro heq
    rw [heq] at hlength
    omega
  refine ⟨hne "" (by decide), ?_, hne "." (by decide), hne ".." (by decide)⟩
  rw [toList_ofName, List.mem_append, List.mem_cons, not_or, not_or]
  exact ⟨⟨by decide, h⟩, by decide⟩

end PartialName

theorem FilePath.inTransit_plain (h : Plain name) :
    FilePath.inTransit ⟨root, name⟩ = ⟨root, PartialName.ofName name⟩ := by
  have hslash := (PartialName.plain_ofName h.no_slash).no_slash
  have hjoin : Path.join [] (PartialName.ofName name).toList =
      (PartialName.ofName name).toList := by
    unfold Path.join
    split
    · rfl
    · rfl
  rw [inTransit, PartialName.ofPath]
  simp only [h.fileName?_eq, Option.getD_some, String.ofList_toList, Path.withFileName, h.parent_eq,
    hjoin]

namespace Path

/-- What a name stands behind in a path: nothing, or a slash. -/
def IsFront (front : List Char) : Prop := front = [] ∨ ∃ above, front = above ++ ['/']

theorem pieces_front (hfront : IsFront front) (hname : Plain name) :
    (pieces (front ++ name.toList)).getLast? = some name := by
  have hsingle := pieces_of_no_slash hname.ne_empty hname.no_slash
  obtain rfl | ⟨above, rfl⟩ := hfront
  · rw [List.nil_append, hsingle, List.getLast?_singleton]
  · rw [List.append_assoc, List.singleton_append, pieces_append_slash, hsingle,
      List.getLast?_append, List.getLast?_singleton, Option.some_or]

theorem fileName?_front (hfront : IsFront front) (hname : Plain name) :
    fileName? (front ++ name.toList) = some name.toList := by
  obtain rfl | ⟨above, rfl⟩ := hfront
  · exact hname.fileName?_eq
  · rw [List.append_assoc]
    exact hname.fileName?_append above

/-- All names stand behind the same front. -/
theorem exists_front (path : List Char) :
    ∃ front, IsFront front ∧
      ∀ name, Plain name → withFileName path name.toList = front ++ name.toList := by
  have hjoin (above : List Char) : ∃ front, IsFront front ∧ ∀ name, Plain name →
      join above name.toList = front ++ name.toList := by
    have hrelative (name : String) (hname : Plain name) : join above name.toList =
        above.getLast?.elim name.toList fun c =>
          if c = '/' then above ++ name.toList else above ++ '/' :: name.toList := by
      unfold join
      split
      · rename_i heq
        exact absurd (heq ▸ List.mem_cons_self) hname.no_slash
      · cases above.getLast? <;> rfl
    cases hlast : above.getLast? with
    | none =>
      refine ⟨[], .inl rfl, fun name hname => ?_⟩
      rw [hrelative name hname, hlast]
      rfl
    | some c =>
      by_cases hc : c = '/'
      · obtain ⟨front, rfl⟩ := List.getLast?_eq_some_iff.mp hlast
        refine ⟨front ++ [c], .inr ⟨front, by rw [hc]⟩, fun name hname => ?_⟩
        rw [hrelative name hname, hlast]
        exact if_pos hc
      · refine ⟨above ++ ['/'], .inr ⟨above, rfl⟩, fun name hname => ?_⟩
        rw [hrelative name hname, hlast, List.append_assoc]
        exact if_neg hc
  unfold withFileName
  cases fileName? path with
  | none => exact hjoin path
  | some found => exact hjoin (parent path)

theorem not_mem_fileName? (path : List Char) : '/' ∉ (fileName? path).getD [] := by
  unfold fileName?
  dsimp only
  split
  · exact List.not_mem_nil
  · rw [Option.getD_some, List.mem_reverse]
    intro hmem
    have hne := List.mem_takeWhile_imp hmem
    rw [decide_eq_true_iff] at hne
    exact hne rfl

end Path

/-- A sibling ends in the name that belongs to the file name of the path. -/
theorem PartialName.pieces_ofPath (path : String) :
    (pieces (ofPath path).toList).getLast? =
      some (ofName (String.ofList ((Path.fileName? path.toList).getD []))) := by
  have hplain : Plain (ofName (String.ofList ((Path.fileName? path.toList).getD []))) :=
    plain_ofName (by rw [String.toList_ofList]; exact Path.not_mem_fileName? _)
  obtain ⟨front, hfront, hpath⟩ := Path.exists_front path.toList
  rw [ofPath, String.toList_ofList, hpath _ hplain, Path.pieces_front hfront hplain]

/-- No sibling is a folder that a path is in. -/
theorem Disk.dots_inTransit (h : d.resolve p.inTransit = .ok t) : t.dots = false := by
  have hplain : Plain (PartialName.ofName
      (String.ofList ((Path.fileName? p.text.toList).getD []))) :=
    PartialName.plain_ofName (by rw [String.toList_ofList]; exact Path.not_mem_fileName? _)
  rw [(resolve_eq_ok.mp h).2.2.2, FilePath.inTransit, PartialName.pieces_ofPath]
  simp [hplain.ne_dot, hplain.ne_dots]

end ReplicaRing
