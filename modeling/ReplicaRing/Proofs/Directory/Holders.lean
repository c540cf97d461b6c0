import ReplicaRing.Proofs.Directory.Numbering

/-!
# Where holders come from

A member becomes a holder when a put is confirmed or a copy is settled, and in no other way.
-/
namespace ReplicaRing

theorem exists_mem_of_isEmpty {holders : MemberSet} (h : holders.isEmpty = false) :
    ∃ m, m ∈ holders := by
  by_contra hnone
  have hempty : holders = ∅ :=
    Std.ExtTreeSet.ext_mem fun m =>
      ⟨fun hm => absurd ⟨m, hm⟩ hnone, fun hm => absurd hm Std.ExtTreeSet.not_mem_empty⟩
  rw [hempty] at h
  cases h

theorem isEmpty_of_mem {holders : MemberSet} {m : Member} (h : m ∈ holders) :
    holders.isEmpty = false :=
  Bool.eq_false_iff.mpr fun hempty =>
    Std.ExtTreeSet.not_mem_empty (Std.ExtTreeSet.isEmpty_iff.mp hempty ▸ h)

namespace FileRecord

variable {r : FileRecord} {v w : UInt64} {m n : Member} {holders : MemberSet}

/-- A member is recorded as holder of a version. -/
def Holds (r : FileRecord) (version : UInt64) (m : Member) : Prop :=
  ∃ holders, r.versions[version]? = some holders ∧ m ∈ holders

theorem holds_of_put (h : (r.put v holders).Holds w m) : r.Holds w m ∨ v = w ∧ m ∈ holders := by
  obtain ⟨found, hw, hm⟩ := h
  rw [put_versions_getElem?] at hw
  split at hw
  · cases hw
    exact .inr ⟨‹_›, hm⟩
  · exact .inl ⟨found, hw, hm⟩

theorem holds_of_drop (h : (r.drop v).Holds w m) : r.Holds w m := by
  obtain ⟨found, hw, hm⟩ := h
  rw [drop_versions_getElem?] at hw
  split at hw
  · cases hw
  · exact ⟨found, hw, hm⟩

theorem holds_of_retain {keep : Member → Bool} (h : (r.retain keep).Holds w m) : r.Holds w m := by
  obtain ⟨found, hw, hm⟩ := h
  rw [retain_versions_getElem?] at hw
  obtain ⟨holders, hold, rfl⟩ := Option.map_eq_some_iff.mp hw
  exact ⟨holders, hold, (mem_filter_iff.mp hm).1⟩

theorem holds_of_join (h : (r.join v n).Holds w m) : r.Holds w m ∨ v = w ∧ n = m := by
  obtain ⟨found, hw, hm⟩ := h
  rw [join_versions_getElem?] at hw
  split at hw
  · obtain ⟨holders, hold, rfl⟩ := Option.map_eq_some_iff.mp hw
    split at hm
    · exact .inl ⟨holders, hold, hm⟩
    · rw [mem_insert_iff] at hm
      obtain rfl | hm := hm
      · exact .inr ⟨‹_›, rfl⟩
      · exact .inl ⟨holders, hold, hm⟩
  · exact .inl ⟨found, hw, hm⟩

theorem not_holds_empty : ¬ ({} : FileRecord).Holds v m := by
  rintro ⟨holders, hv, -⟩
  cases hv

end FileRecord

namespace Directory

variable {d : Directory} {op : Operation} {file : String} {v : UInt64} {m n : Member}

theorem holds_iff : d.Holds file v m ↔ ∃ r, d.record? file = some r ∧ r.Holds v m :=
  exists_congr fun _ => exists_and_left

theorem holds_of_recordOf (h : (d.recordOf file).Holds v m) : d.Holds file v m := by
  rw [recordOf_eq] at h
  cases hr : d.record? file with
  | none =>
    rw [hr] at h
    exact absurd h FileRecord.not_holds_empty
  | some r =>
    rw [hr] at h
    exact holds_iff.mpr ⟨r, hr, h⟩

/-- Whether an operation records the member as a holder of the version. -/
def Operation.Adds (file : String) (version : UInt64) (m : Member) : Operation → Prop
  | confirm f v holders => f = file ∧ v = version ∧ m ∈ holders
  | addHolder f v n => f = file ∧ v = version ∧ n = m
  | _ => False

/-- Holders come from what operations record. -/
theorem holds_of_apply (op : Operation) (h : (d.apply op).Holds file v m) :
    d.Holds file v m ∨ op.Adds file v m := by
  obtain ⟨r, hr, hrecord⟩ := holds_iff.mp h
  have hsame (hr : d.record? file = some r) : d.Holds file v m ∨ op.Adds file v m :=
    .inl (holds_iff.mpr ⟨r, hr, hrecord⟩)
  have hfrom {f : FileRecord → FileRecord} (hr : (d.record? file).map f = some r)
      (hf : ∀ r, (f r).Holds v m → r.Holds v m) : d.Holds file v m ∨ op.Adds file v m := by
    obtain ⟨r, hold, rfl⟩ := Option.map_eq_some_iff.mp hr
    exact .inl (holds_iff.mpr ⟨r, hold, hf r hrecord⟩)
  cases op with
  | reserve f =>
    rw [apply, record?_reserve] at hr
    split at hr
    · subst_vars
      cases hr
      obtain hold | ⟨-, hm⟩ := FileRecord.holds_of_put hrecord
      · exact .inl (holds_of_recordOf hold)
      · exact absurd hm Std.ExtTreeSet.not_mem_empty
    · exact hsame hr
  | confirm f w named =>
    rw [apply] at hr
    cases he : named.isEmpty with
    | true =>
      rw [confirm_of_isEmpty he, record?_abandon] at hr
      split at hr
      · exact hfrom hr fun _ => FileRecord.holds_of_drop
      · exact hsame hr
    | false =>
      rw [record?_confirm he] at hr
      split at hr
      · subst_vars
        cases hr
        obtain hold | ⟨hw, hm⟩ := FileRecord.holds_of_put hrecord
        · exact .inl (holds_of_recordOf hold)
        · exact .inr ⟨rfl, hw, hm⟩
      · exact hsame hr
  | abandon f w =>
    rw [apply, record?_abandon] at hr
    split at hr
    · exact hfrom hr fun _ => FileRecord.holds_of_drop
    · exact hsame hr
  | addHolder f w n =>
    rw [apply, record?_addHolder] at hr
    split at hr
    · subst_vars
      obtain ⟨r, hold, rfl⟩ := Option.map_eq_some_iff.mp hr
      obtain holds | ⟨hw, hm⟩ := FileRecord.holds_of_join hrecord
      · exact .inl (holds_iff.mpr ⟨r, hold, holds⟩)
      · exact .inr ⟨rfl, hw, hm⟩
    · exact hsame hr
  | prune keep =>
    rw [apply, record?_prune] at hr
    exact hfrom hr fun _ => FileRecord.holds_of_retain
  | remove f =>
    rw [apply, record?_remove] at hr
    split at hr
    · cases hr
    · exact hsame hr

/-- Only a version that has a holder gets one more. -/
theorem exists_holds_of_addHolder {f : String} {w : UInt64}
    (h : (d.addHolder f w n).1.Holds file v m) : ∃ holder, d.Holds file v holder := by
  obtain ⟨r, hr, holders, hv, hm⟩ := holds_iff.mp h
  rw [record?_addHolder] at hr
  split at hr
  · obtain ⟨r, hold, rfl⟩ := Option.map_eq_some_iff.mp hr
    rw [FileRecord.join_versions_getElem?] at hv
    split at hv
    · obtain ⟨found, hfound, rfl⟩ := Option.map_eq_some_iff.mp hv
      split at hm
      · exact ⟨m, r, found, hold, hfound, hm⟩
      · rename_i hholders
        obtain ⟨holder, hholder⟩ := exists_mem_of_isEmpty (Bool.eq_false_iff.mpr hholders)
        exact ⟨holder, r, found, hold, hfound, hholder⟩
    · exact ⟨m, r, holders, hold, hv, hm⟩
  · exact ⟨m, r, holders, hr, hv, hm⟩

/-- What lacks copies has a holder. -/
theorem exists_holds_of_mem_shortages {factor : Nat} {s : Shortage}
    (h : s ∈ d.shortages factor) : ∃ holder, d.Holds s.file s.version holder := by
  obtain ⟨⟨file, version, holders⟩, hentry, rfl⟩ := List.mem_map.mp h
  obtain ⟨hentry, hlacks⟩ := List.mem_filter.mp hentry
  obtain ⟨⟨f, r⟩, hr, hversion⟩ := List.mem_flatMap.mp hentry
  obtain ⟨⟨w, found⟩, hw, heq⟩ := List.mem_map.mp hversion
  cases heq
  rw [Bool.and_eq_true, Bool.not_eq_true'] at hlacks
  obtain ⟨holder, hholder⟩ := exists_mem_of_isEmpty hlacks.1
  exact ⟨holder, r, holders, Std.ExtTreeMap.mem_toList_iff_getElem?_eq_some.mp hr,
    Std.ExtTreeMap.mem_toList_iff_getElem?_eq_some.mp hw, hholder⟩

/-- The highest number of a record is one that it had or was handed. -/
theorem highestAssigned_apply_eq (d : Directory) (hop : op.removes file = false) :
    ((d.apply op).recordOf file).highestAssigned =
      (d.handed? file op).elim (d.recordOf file).highestAssigned
        (max (d.recordOf file).highestAssigned) := by
  obtain ⟨v, holders, hv, heq⟩ | ⟨f, hn, heq, hf⟩ := record?_apply (d := d) hop
  · rw [recordOf_eq (d.apply op), heq, hv]
    rfl
  · rw [recordOf_eq, heq, hn, Option.elim_none, recordOf_eq]
    cases d.record? file with
    | none => rfl
    | some r => exact (hf r).1

end Directory

end ReplicaRing
