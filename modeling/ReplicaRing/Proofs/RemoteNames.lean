import Mathlib.Data.List.Forall2
import ReplicaRing.Proofs.NameForms
import ReplicaRing.Proofs.VersionedPaths

/-!
# Remote names and the names that are stored for them

Slashes and their stand-ins are neither dots nor delimiters nor digits, so a name divides into its
stem and its extension as before when they are exchanged, and the version goes to the same place.
What is stored for a remote name is therefore the stored name with its slashes exchanged, wherever
in the name they stand.
-/
namespace ReplicaRing

open Text

variable {f : Char → Char} {name other : String} {text stem : List Char}
  {extension : Option (List Char)} {v w : UInt64}

namespace StoredName

/-- A change of characters that leaves all by which stored names are read: dots, delimiters and
digits. No other character becomes a dot. -/
structure Neutral (f : Char → Char) : Prop where
  dot : ∀ c, f c = '.' ↔ c = '.'
  delimiter : f delimiter = delimiter
  digit : ∀ c, c.isDigit = true → f c = c

theorem Neutral.joinExtension (h : Neutral f) (stem : List Char) (extension : Option (List Char)) :
    (joinExtension stem extension).map f =
      joinExtension (stem.map f) (extension.map (List.map f)) := by
  cases extension with
  | none => rfl
  | some extension =>
    rw [StoredName.joinExtension, List.map_append, List.map_cons, (h.dot '.').mpr rfl]
    rfl

/-- The parts of a name are changed, and not where it divides. -/
theorem Neutral.divides (h : Neutral f) (hdivides : Divides text stem extension) :
    Divides (text.map f) (stem.map f) (extension.map (List.map f)) := by
  have hdot {part : List Char} (hpart : '.' ∉ part) : '.' ∉ part.map f := by
    rw [List.mem_map]
    rintro ⟨c, hc, heq⟩
    exact hpart ((h.dot c).mp heq ▸ hc)
  cases extension with
  | none =>
    obtain ⟨rfl, htail⟩ := hdivides
    exact ⟨rfl, List.map_tail ▸ hdot htail⟩
  | some extension =>
    obtain ⟨rfl, hne, hlast⟩ := hdivides
    refine ⟨?_, fun hnil => hne (List.map_eq_nil_iff.mp hnil), hdot hlast⟩
    rw [List.map_append, List.map_cons, (h.dot '.').mpr rfl]

theorem Neutral.repr (h : Neutral f) (n : Nat) : n.repr.toList.map f = n.repr.toList := by
  refine (List.map_congr_left fun c hc => h.digit c ?_).trans (List.map_id _)
  by_contra hdigit
  exact not_mem_repr (Bool.eq_false_iff.mpr hdigit) n hc

/-- A changed name is stored under the changed stored name. -/
theorem Neutral.toList_ofVersion (h : Neutral f) (name : String) (v : UInt64) :
    (ofVersion (String.ofList (name.toList.map f)) v).toList = (ofVersion name v).toList.map f := by
  obtain ⟨stem, extension, hsplit⟩ : ∃ stem extension,
      splitExtension name.toList = (stem, extension) := ⟨_, _, rfl⟩
  have hchanged : splitExtension (name.toList.map f) =
      (stem.map f, extension.map (List.map f)) :=
    splitExtension_eq_iff.mpr (h.divides (splitExtension_eq_iff.mp hsplit))
  rw [StoredName.toList_ofVersion, StoredName.toList_ofVersion, String.toList_ofList, hsplit,
    hchanged, h.joinExtension, List.map_append, List.map_cons, h.delimiter, h.repr]

end StoredName

namespace RemoteName

open StoredName

/-- The names are the same, but that a slash in one of them may be a stand-in in the other. -/
def Alike (name other : String) : Prop :=
  List.Forall₂ (fun c e => c = e ∨ c ∈ ['/', standIn] ∧ e ∈ ['/', standIn])
    name.toList other.toList

theorem neutral_restore : Neutral fun c => if c = standIn then '/' else c where
  dot c := by
    split
    · subst_vars; decide
    · rfl
  delimiter := by decide
  digit c hc := if_neg fun heq => by subst heq; cases hc

theorem flatten_eq_iff : flatten name = flatten other ↔ Alike name other := by
  have hplace (c e : Char) : (if c = '/' then standIn else c) = (if e = '/' then standIn else e) ↔
      c = e ∨ c ∈ ['/', standIn] ∧ e ∈ ['/', standIn] := by
    simp only [List.mem_cons, List.not_mem_nil, or_false]
    grind
  rw [← String.toList_inj, flatten, flatten, String.toList_ofList, String.toList_ofList,
    ← List.forall₂_eq_eq_eq, List.forall₂_map_left_iff, List.forall₂_map_right_iff, Alike]
  simp only [hplace]

theorem slash_not_mem_flatten (name : String) : '/' ∉ (flatten name).toList := by
  rw [flatten, String.toList_ofList, List.mem_map]
  rintro ⟨c, -, heq⟩
  split at heq
  · exact absurd heq (by decide)
  · contradiction

theorem restore_flatten_eq_iff : restore (flatten name) = name ↔ standIn ∉ name.toList := by
  have hplace (c : Char) : (if (if c = '/' then standIn else c) = standIn then '/'
      else if c = '/' then standIn else c) = c ↔ c ≠ standIn := by
    have hne : '/' ≠ standIn := by decide
    grind
  rw [← String.toList_inj, restore, flatten, String.toList_ofList, String.toList_ofList,
    List.map_map]
  conv_lhs => rhs; rw [← List.map_id name.toList]
  simp only [List.map_inj_left, Function.comp_apply, id_eq, hplace]
  exact ⟨fun h hmem => h _ hmem rfl, fun h c hc heq => h (heq ▸ hc)⟩

/-- What is shown for a stored version. -/
theorem restore_ofVersion (name : String) (v : UInt64) :
    restore (ofVersion name v) = ofVersion (restore name) v := by
  rw [← String.toList_inj, restore, restore, String.toList_ofList,
    neutral_restore.toList_ofVersion]

/-- **Remote names that differ only in slashes are one file.** Two versions of remote names are
stored under one name just if they have the same number and their remote names are the same, but for
slashes and stand-ins in each other's place. A stored name has no slash. It is shown as the remote
name with the version in it just if the remote name has no stand-in. -/
theorem stored_remote_names (name other : String) (v w : UInt64) :
    (ofVersion (flatten name) v = ofVersion (flatten other) w ↔ v = w ∧ Alike name other) ∧
    '/' ∉ (ofVersion (flatten name) v).toList ∧
    (restore (ofVersion (flatten name) v) = ofVersion name v ↔ '#' ∉ name.toList) := by
  refine ⟨?_, (plain_ofVersion (slash_not_mem_flatten name) v).no_slash, ?_⟩
  · rw [ofVersion_eq_iff, flatten_eq_iff, and_comm]
  · rw [restore_ofVersion, ofVersion_eq_iff, and_iff_left rfl, restore_flatten_eq_iff]
    rfl

example : ofVersion (flatten "a/b.c/d") 3 = "a#b_3.c#d" ∧
    restore "a#b_3.c#d" = ofVersion "a/b.c/d" 3 := by
  decide +kernel

end RemoteName

end ReplicaRing
