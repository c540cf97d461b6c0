import ReplicaRing.Proofs.Directory.Recovery

/-!
# What each operation does to a version

A version of a file is listed or not, and if it is, it has a set of holders. The lemmas here say
what every operation makes of that, and which version is the latest.
-/
namespace ReplicaRing

namespace FileRecord

variable {r : FileRecord} {v : UInt64} {holders : MemberSet}

/-- The latest version is the largest of those that have holders. -/
theorem latest?_eq_some_iff :
    r.latest? = some (v, holders) ↔
      r.versions[v]? = some holders ∧ holders.isEmpty = false ∧
        ∀ (w : UInt64) (found : MemberSet), r.versions[w]? = some found → found.isEmpty = false →
          w ≤ v := by
  have hlatest (v : UInt64) (holders : MemberSet) (h : r.latest? = some (v, holders)) :
      r.versions[v]? = some holders ∧ holders.isEmpty = false := by
    have hmem := List.mem_reverse.mp (List.mem_of_find?_eq_some h)
    have hheld := List.find?_some h
    rw [Bool.not_eq_true'] at hheld
    exact ⟨Std.ExtTreeMap.mem_toList_iff_getElem?_eq_some.mp hmem, hheld⟩
  have hlargest (w : UInt64) (found : MemberSet) (hw : r.versions[w]? = some found)
      (hfound : found.isEmpty = false) : ∃ v holders, r.latest? = some (v, holders) ∧ w ≤ v := by
    obtain ⟨m, hm⟩ := exists_mem_of_isEmpty hfound
    exact exists_latest? ⟨found, hw, hm⟩
  constructor
  · intro h
    refine ⟨(hlatest v holders h).1, (hlatest v holders h).2, fun w found hw hfound => ?_⟩
    obtain ⟨v', holders', h', hle⟩ := hlargest w found hw hfound
    cases h.symm.trans h'
    exact hle
  · rintro ⟨hv, hheld, hmax⟩
    obtain ⟨v', holders', h', hle⟩ := hlargest v holders hv hheld
    obtain ⟨hv', hheld'⟩ := hlatest v' holders' h'
    cases le_antisymm hle (hmax v' holders' hv' hheld')
    cases hv.symm.trans hv'
    exact h'

end FileRecord

namespace Directory

variable {d : Directory} {file g : String} {v w : UInt64} {m : Member} {holders : MemberSet}
  {keep : Member → Bool}

/-- The holders of a version, if it is listed. -/
def holders? (d : Directory) (file : String) (version : UInt64) : Option MemberSet :=
  (d.versions? file).bind (·[version]?)

theorem holders?_eq (d : Directory) (file : String) (v : UInt64) :
    d.holders? file v = (d.record? file).bind (·.versions[v]?) := by
  rw [holders?, versions?]
  cases d.record? file <;> rfl

theorem holders?_eq_recordOf (d : Directory) (file : String) (v : UInt64) :
    d.holders? file v = (d.recordOf file).versions[v]? := by
  rw [holders?_eq, recordOf_eq]
  cases d.record? file <;> rfl

theorem holds_iff_holders? :
    d.Holds file v m ↔ ∃ holders, d.holders? file v = some holders ∧ m ∈ holders := by
  simp only [Holds, holders?_eq, Option.bind_eq_some_iff]
  exact ⟨fun ⟨r, holders, hr, hv, hm⟩ => ⟨holders, ⟨r, hr, hv⟩, hm⟩,
    fun ⟨holders, ⟨r, hr, hv⟩, hm⟩ => ⟨r, holders, hr, hv, hm⟩⟩

/-- A version has a holder where it is listed with a set that is not empty. -/
theorem exists_holds_iff :
    (∃ m, d.Holds file v m) ↔
      ∃ holders, d.holders? file v = some holders ∧ holders.isEmpty = false := by
  simp only [holds_iff_holders?]
  constructor
  · rintro ⟨m, holders, hv, hm⟩
    exact ⟨holders, hv, isEmpty_of_mem hm⟩
  · rintro ⟨holders, hv, hheld⟩
    obtain ⟨m, hm⟩ := exists_mem_of_isEmpty hheld
    exact ⟨m, holders, hv, hm⟩

/-! ### One operation -/

theorem holders?_reserve :
    (d.reserve file).1.holders? g w =
      if file = g ∧ (d.reserve file).2 = w then some ∅ else d.holders? g w := by
  rw [holders?_eq, record?_reserve, reserve_version]
  by_cases hf : file = g
  · subst hf
    simp only [↓reduceIte, Option.bind_some, FileRecord.put_versions_getElem?, true_and,
      holders?_eq_recordOf]
  · simp only [hf, ↓reduceIte, false_and, holders?_eq]

theorem holders?_abandon :
    (d.abandon file v).1.holders? g w =
      if file = g ∧ v = w then none else d.holders? g w := by
  rw [holders?_eq, record?_abandon, holders?_eq]
  by_cases hf : file = g
  · cases d.record? g with
    | none => simp
    | some r => simp [hf, FileRecord.drop_versions_getElem?]
  · simp only [hf, ↓reduceIte, false_and]

theorem holders?_confirm :
    (d.confirm file v holders).holders? g w =
      if file = g ∧ v = w then (if holders.isEmpty then none else some holders)
      else d.holders? g w := by
  cases he : holders.isEmpty with
  | true => rw [confirm_of_isEmpty he, holders?_abandon, if_pos rfl]
  | false =>
    rw [holders?_eq, record?_confirm he, if_neg Bool.false_ne_true]
    by_cases hf : file = g
    · subst hf
      simp only [↓reduceIte, Option.bind_some, FileRecord.put_versions_getElem?, true_and,
        holders?_eq_recordOf]
    · simp only [hf, ↓reduceIte, false_and, holders?_eq]

theorem holders?_addHolder :
    (d.addHolder file v m).1.holders? g w =
      if file = g ∧ v = w then
        (d.holders? g w).map fun holders => if holders.isEmpty then holders else holders.insert m
      else d.holders? g w := by
  rw [holders?_eq, record?_addHolder, holders?_eq]
  by_cases hf : file = g
  · cases d.record? g with
    | none => simp
    | some r => simp [hf, FileRecord.join_versions_getElem?]
  · simp only [hf, ↓reduceIte, false_and]

theorem holders?_prune :
    (d.prune keep).1.holders? g w = (d.holders? g w).map (·.filter keep) := by
  rw [holders?_eq, record?_prune, holders?_eq]
  cases d.record? g with
  | none => rfl
  | some r => exact FileRecord.retain_versions_getElem?

theorem holders?_remove :
    (d.remove file).1.holders? g w = if file = g then none else d.holders? g w := by
  rw [holders?_eq, record?_remove, holders?_eq]
  split <;> rfl

/-! ### The latest version -/

theorem latest?_eq_some_iff :
    d.latest? file = some (v, holders) ↔
      d.holders? file v = some holders ∧ holders.isEmpty = false ∧
        ∀ (w : UInt64) (found : MemberSet), d.holders? file w = some found →
          found.isEmpty = false → w ≤ v := by
  simp only [latest?, holders?_eq]
  cases d.record? file with
  | none => simp
  | some r => exact FileRecord.latest?_eq_some_iff

theorem latest?_eq_none_iff : d.latest? file = none ↔ ∀ v m, ¬ d.Holds file v m := by
  have hnone : d.latest? file = none ↔
      ∀ v holders, d.holders? file v = some holders → holders.isEmpty := by
    simp only [latest?, holders?_eq]
    cases d.record? file with
    | none => simp
    | some r => exact FileRecord.latest?_eq_none_iff
  refine hnone.trans (forall_congr' fun v => ?_)
  rw [← not_exists, exists_holds_iff]
  simp only [not_exists, not_and, Bool.not_eq_false]

end Directory

end ReplicaRing
