import Mathlib.Data.List.Basic
import ReplicaRing.StoredName

/-!
# Versions and the names that they are stored under

A stored name tells which version of which file it is: the number stands before the extension, it
holds neither a dot nor the delimiter, and so the extension and the last delimiter are found again.
-/
namespace ReplicaRing.StoredName

open Text

variable {file g name : String} {v w : UInt64} {text stem suffix : List Char}
  {extension : Option (List Char)}

theorem joinExtension_splitExtension (text : List Char) :
    joinExtension (splitExtension text).1 (splitExtension text).2 = text := by
  unfold splitExtension
  split
  · rename_i stem extension hsplit
    split
    · rfl
    · exact (splitLast?_eq_some_iff.mp hsplit).1.symm
  · rfl

/-- What is put behind the stem stays before the extension, if it holds no dot. -/
theorem splitExtension_joinExtension_append (hs : splitExtension text = (stem, extension))
    (hdot : '.' ∉ suffix) :
    splitExtension (joinExtension (stem ++ suffix) extension) = (stem ++ suffix, extension) := by
  unfold splitExtension at hs
  split at hs
  · rename_i before after hsplit
    obtain ⟨htext, hafter⟩ := splitLast?_eq_some_iff.mp hsplit
    split at hs
    · rename_i hempty
      cases hs
      have hsuffix : '.' ∉ after ++ suffix := by simp [hafter, hdot]
      have hfound : splitLast? '.' (text ++ suffix) = some ([], after ++ suffix) :=
        splitLast?_eq_some_iff.mpr ⟨by rw [htext, hempty]; rfl, hsuffix⟩
      rw [joinExtension, splitExtension, hfound]
      rfl
    · rename_i hne
      cases hs
      have hfound :
          splitLast? '.' (stem ++ suffix ++ '.' :: after) = some (stem ++ suffix, after) :=
        splitLast?_eq_some_iff.mpr ⟨rfl, hafter⟩
      have hne' : stem ++ suffix ≠ [] := fun h => hne (List.append_eq_nil_iff.mp h).1
      rw [joinExtension, splitExtension, hfound]
      simp only [hne', ↓reduceIte]
  · rename_i hnone
    cases hs
    have hfound : splitLast? '.' (text ++ suffix) = none := by
      rw [splitLast?_eq_none_iff] at hnone ⊢
      simp [hnone, hdot]
    rw [joinExtension, splitExtension, hfound]

theorem toList_ofVersion (file : String) (v : UInt64) :
    (ofVersion file v).toList = joinExtension
      ((splitExtension file.toList).1 ++ delimiter :: v.toNat.repr.toList)
      (splitExtension file.toList).2 := by
  rw [ofVersion, String.toList_ofList]

theorem utf8ByteSize_joinExtension_append (stem suffix : List Char)
    (extension : Option (List Char)) :
    (String.ofList (joinExtension (stem ++ suffix) extension)).utf8ByteSize =
      (String.ofList (joinExtension stem extension)).utf8ByteSize +
        (String.ofList suffix).utf8ByteSize := by
  cases extension with
  | none => simp only [joinExtension, String.ofList_append, String.utf8ByteSize_append]
  | some extension =>
    simp only [joinExtension, String.ofList_append, String.utf8ByteSize_append]
    omega

/-- A number takes room in a name. -/
theorem utf8ByteSize_le_ofVersion (file : String) (v : UInt64) :
    file.utf8ByteSize ≤ (ofVersion file v).utf8ByteSize := by
  have hfile := congrArg String.ofList (joinExtension_splitExtension file.toList)
  rw [String.ofList_toList] at hfile
  rw [ofVersion]
  dsimp only
  rw [utf8ByteSize_joinExtension_append, hfile]
  exact Nat.le_add_right _ _

/-- A number is written in digits. -/
theorem not_mem_repr {c : Char} (hc : c.isDigit = false) (n : Nat) : c ∉ n.repr.toList := by
  rw [Nat.toList_repr]
  intro hmem
  rw [Nat.isDigit_of_mem_toDigits (by decide) (by decide) hmem] at hc
  cases hc

theorem parse?_ofVersion (file : String) (v : UInt64) :
    parse? (ofVersion file v) = some (file, v) := by
  cases hs : splitExtension file.toList with
  | mk stem extension =>
    have hdot : '.' ∉ delimiter :: v.toNat.repr.toList := by
      rw [List.mem_cons, not_or]
      exact ⟨by decide, not_mem_repr (by decide) _⟩
    have hsplit : splitLast? delimiter (stem ++ delimiter :: v.toNat.repr.toList) =
        some (stem, v.toNat.repr.toList) :=
      splitLast?_eq_some_iff.mpr ⟨rfl, not_mem_repr (by decide) _⟩
    have hjoin : joinExtension stem extension = file.toList := by
      have hback := joinExtension_splitExtension file.toList
      rwa [hs] at hback
    rw [parse?, ofVersion, hs, String.toList_ofList, splitExtension_joinExtension_append hs hdot]
    simp only [hsplit, word64?_repr, Option.map_some, hjoin, String.ofList_toList]

theorem ofVersion_eq_iff : ofVersion file v = ofVersion g w ↔ file = g ∧ v = w := by
  refine ⟨fun h => ?_, fun ⟨hf, hv⟩ => hf ▸ hv ▸ rfl⟩
  have hparse := parse?_ofVersion file v
  rw [h, parse?_ofVersion] at hparse
  cases hparse
  exact ⟨rfl, rfl⟩

theorem belongsTo_iff :
    belongsTo name file = true ↔ name = file ∨ ∃ v, parse? name = some (file, v) := by
  simp only [belongsTo, Bool.or_eq_true, beq_iff_eq, Option.any_eq_true, Prod.exists]
  refine or_congr Iff.rfl ⟨?_, fun ⟨v, hv⟩ => ⟨file, v, hv, rfl⟩⟩
  rintro ⟨_, v, hv, rfl⟩
  exact ⟨v, hv⟩

/-- **Stored names decode uniquely.** The name under which a version is stored is read back as just
that version of that file, whatever dots and delimiters the file's own name has. So no two versions
of any files share a stored name, and a stored name belongs to its file and to itself, and to no
other target. -/
theorem stored_names_decode (file : String) (v : UInt64) :
    parse (ofVersion file v) = .ok (file, v) ∧
    (∀ (g : String) (w : UInt64), ofVersion g w = ofVersion file v ↔ (g, w) = (file, v)) ∧
    ∀ target : String, belongsTo (ofVersion file v) target = true ↔
      target = file ∨ target = ofVersion file v := by
  refine ⟨?_, fun g w => ?_, fun target => ?_⟩
  · rw [parse, parse?_ofVersion]
  · rw [ofVersion_eq_iff, Prod.mk.injEq]
  · rw [belongsTo_iff, parse?_ofVersion, or_comm, eq_comm (a := ofVersion file v)]
    refine or_congr_left ⟨fun ⟨w, hw⟩ => ?_, fun htarget => ⟨v, by rw [htarget]⟩⟩
    cases hw
    rfl

example : ofVersion ".profile" 3 = ".profile_3" ∧ ofVersion "a_1.b." 3 = "a_1.b_3." := by
  decide +kernel

end ReplicaRing.StoredName
