import ReplicaRing.Proofs.Directory.Holders
import ReplicaRing.Proofs.Directory.Reports
import ReplicaRing.Proofs.StoredNames

/-!
# What a new coordinator knows

A directory that is built from catalogs records just what the catalogs say. There is only one such
directory, so that it does not matter in which order the members answer, nor how often one of them
is listed. What the directory before it knew is known again, as far as somebody still stores it.
-/
namespace ReplicaRing

namespace FileRecord

variable {r : FileRecord} {v w : UInt64} {m n : Member} {holders : MemberSet}

/-- One more member stores a version. -/
def enlist (r : FileRecord) (version : UInt64) (m : Member) : FileRecord :=
  r.put version ((r.versions.getD version ∅).insert m)

theorem holds_enlist : (r.enlist v m).Holds w n ↔ (v = w ∧ m = n) ∨ r.Holds w n := by
  have hgetD : n ∈ r.versions.getD v ∅ ↔ r.Holds v n := by
    rw [Std.ExtTreeMap.getD_eq_getD_getElem?, Holds]
    cases r.versions[v]? with
    | none => exact iff_of_false Std.ExtTreeSet.not_mem_empty fun ⟨_, h, _⟩ => nomatch h
    | some holders => simp
  unfold Holds at hgetD ⊢
  rw [enlist, put_versions_getElem?]
  by_cases hv : v = w
  · subst hv
    simp only [↓reduceIte, Option.some.injEq, exists_eq_left', mem_insert_iff, true_and, hgetD]
  · simp only [hv, ↓reduceIte, false_and, false_or]

/-- No version is pending. -/
def Confirmed (r : FileRecord) : Prop :=
  ∀ (v : UInt64) (holders : MemberSet), r.versions[v]? = some holders → ∃ m, m ∈ holders

theorem Confirmed.enlist (h : r.Confirmed) : (r.enlist v m).Confirmed := by
  intro w holders hw
  rw [FileRecord.enlist, put_versions_getElem?] at hw
  split at hw
  · cases hw
    exact ⟨m, Std.ExtTreeSet.mem_insert_self⟩
  · exact h w holders hw

/-- A record is known by its holders. -/
theorem eq_of_holds {r' : FileRecord} (hr : r.Confirmed) (hr' : r'.Confirmed)
    (hhighest : r.highestAssigned = r'.highestAssigned)
    (hholds : ∀ v m, r.Holds v m ↔ r'.Holds v m) : r = r' := by
  have hsome {r r' : FileRecord} (hr : r.Confirmed) (hholds : ∀ v m, r.Holds v m ↔ r'.Holds v m)
      {v : UInt64} {holders : MemberSet} (hv : r.versions[v]? = some holders) :
      r'.versions[v]? = some holders := by
    obtain ⟨m, hm⟩ := hr v holders hv
    obtain ⟨holders', hv', -⟩ := (hholds v m).mp ⟨holders, hv, hm⟩
    rw [hv', Option.some.injEq]
    refine Std.ExtTreeSet.ext_mem fun n => ?_
    have hn := hholds v n
    simp only [Holds, hv, hv', Option.some.injEq, exists_eq_left'] at hn
    exact hn.symm
  refine ext_versions (fun v => Option.ext fun holders => ?_) hhighest
  exact ⟨hsome hr hholds, hsome hr' fun v m => (hholds v m).symm⟩

/-- The newest version that has a holder is above all others that have one. -/
theorem exists_latest? (h : r.Holds v m) : ∃ w holders, r.latest? = some (w, holders) ∧ v ≤ w := by
  obtain ⟨holders, hv, hm⟩ := h
  have hlisted : (v, holders) ∈ r.versions.toList.reverse :=
    List.mem_reverse.mpr (Std.ExtTreeMap.mem_toList_iff_getElem?_eq_some.mpr hv)
  have hheld : (!holders.isEmpty) = true := by
    rw [Bool.not_eq_true', isEmpty_of_mem hm]
  have hsorted : r.versions.toList.reverse.Pairwise (·.1 > ·.1) := by
    rw [List.pairwise_reverse]
    exact Std.ExtTreeMap.ordered_keys_toList.imp fun h => compare_lt_iff_lt.mp h
  cases hfind : r.latest? with
  | none => exact absurd hheld (List.find?_eq_none.mp hfind _ hlisted)
  | some found =>
    refine ⟨found.1, found.2, rfl, ?_⟩
    obtain ⟨-, newer, older, hsplit, hnewer⟩ := List.find?_eq_some_iff_append.mp hfind
    rw [hsplit] at hlisted hsorted
    obtain hv | hv := List.mem_append.mp hlisted
    · have hnone := hnewer _ hv
      rw [hheld] at hnone
      cases hnone
    · obtain rfl | hv := List.mem_cons.mp hv
      · exact le_rfl
      · exact (List.rel_of_pairwise_cons (List.pairwise_append.mp hsorted).2.1 hv).le

end FileRecord

namespace Directory

variable {d d' : Directory} {file g name : String} {v w : UInt64} {m n : Member}
  {stored : String → UInt64 → Member → Prop} {catalogs : List (Member × NameSet)}

/-- A directory that records who stores what, and nothing else. -/
structure Records (d : Directory) (stored : String → UInt64 → Member → Prop) : Prop where
  holds : ∀ file v m, d.Holds file v m ↔ stored file v m
  confirmed : ∀ file r, d.record? file = some r → r.Confirmed
  highest : ∀ file r, d.record? file = some r → r.highestAssigned ∈ r.versions
  bounded : d.Bounded

theorem records_empty : ({} : Directory).Records fun _ _ _ => False where
  holds _ _ _ := iff_of_false (fun ⟨_, _, h, _⟩ => nomatch h) id
  confirmed _ _ h := nomatch h
  highest _ _ h := nomatch h
  bounded _ _ h := nomatch h

namespace Records

theorem congr {stored' : String → UInt64 → Member → Prop} (h : d.Records stored)
    (hstored : ∀ file v m, stored file v m ↔ stored' file v m) : d.Records stored' :=
  { h with holds := fun file v m => (h.holds file v m).trans (hstored file v m) }

/-- The file has a record as soon as somebody stores a version of it. -/
theorem exists_record (h : d.Records stored) (hv : stored file v m) :
    ∃ r, d.record? file = some r ∧ r.Holds v m :=
  holds_iff.mp ((h.holds file v m).mpr hv)

/-- Who stores what determines the directory. -/
theorem unique (h : d.Records stored) (h' : d'.Records stored) : d = d' := by
  have hsome {d d' : Directory} (h : d.Records stored) (h' : d'.Records stored) {file : String}
      {r : FileRecord} (hr : d.record? file = some r) :
      ∃ r', d'.record? file = some r' ∧ (∀ v m, r.Holds v m → r'.Holds v m) ∧
        r.highestAssigned ≤ r'.highestAssigned := by
    have hholds {v : UInt64} {m : Member} (hv : r.Holds v m) :
        ∃ r', d'.record? file = some r' ∧ r'.Holds v m :=
      h'.exists_record ((h.holds file v m).mp (holds_iff.mpr ⟨r, hr, hv⟩))
    obtain ⟨holders, hv⟩ := FileRecord.mem_versions_iff.mp (h.highest file r hr)
    obtain ⟨m, hm⟩ := h.confirmed file r hr _ _ hv
    obtain ⟨r', hr', hheld⟩ := hholds ⟨holders, hv, hm⟩
    refine ⟨r', hr', fun v m hvm => ?_, ?_⟩
    · obtain ⟨found, hfound, hheld⟩ := hholds hvm
      cases hr'.symm.trans hfound
      exact hheld
    · obtain ⟨holders', hv', -⟩ := hheld
      exact h'.bounded file r' hr' _ (FileRecord.mem_versions_iff.mpr ⟨holders', hv'⟩)
  refine ext_record? fun file => ?_
  cases hr : d.record? file with
  | none =>
    cases hr' : d'.record? file with
    | none => rfl
    | some r' =>
      obtain ⟨r, hr₀, -⟩ := hsome h' h hr'
      cases hr.symm.trans hr₀
  | some r =>
    obtain ⟨r', hr', hholds, hle⟩ := hsome h h' hr
    obtain ⟨r₀, hr₀, hholds', hle'⟩ := hsome h' h hr'
    cases hr.symm.trans hr₀
    rw [hr', FileRecord.eq_of_holds (h.confirmed file r hr) (h'.confirmed file r' hr')
      (le_antisymm hle hle') fun v m => ⟨hholds v m, hholds' v m⟩]

/-- A member tells one name that it stores. -/
theorem recover (h : d.Records stored) (m : Member) (name : String) :
    (d.recover m name).Records fun file v n =>
      (StoredName.parse? name = some (file, v) ∧ m = n) ∨ stored file v n := by
  cases hp : StoredName.parse? name with
  | none =>
    rw [recover_of_unversioned hp]
    exact h.congr fun _ _ _ => (or_iff_right fun ⟨hsome, _⟩ => nomatch hsome).symm
  | some found =>
    obtain ⟨f, v⟩ := found
    have hrecord (g : String) : (d.recover m name).record? g =
        if f = g then some ((d.recordOf f).enlist v m) else d.record? g := record?_recover hp
    have hold : (d.recordOf f).Confirmed := by
      rw [recordOf_eq]
      cases hr : d.record? f with
      | none => exact fun _ _ h => nomatch h
      | some r => exact h.confirmed f r hr
    refine ⟨fun file w n => ?_, fun file r hr => ?_, fun file r hr => ?_, h.bounded.recover m name⟩
    · rw [holds_iff, hrecord]
      by_cases hf : f = file
      · subst hf
        have hrecordOf : (d.recordOf f).Holds w n ↔ stored f w n := by
          refine ⟨fun hn => (h.holds f w n).mp (holds_of_recordOf hn), fun hn => ?_⟩
          obtain ⟨r, hr, hn⟩ := h.exists_record hn
          rwa [recordOf_eq, hr]
        simp only [↓reduceIte, Option.some.injEq, exists_eq_left', FileRecord.holds_enlist,
          Prod.mk.injEq, true_and, hrecordOf]
      · simp only [hf, ↓reduceIte, Option.some.injEq, Prod.mk.injEq, false_and, false_or,
          ← holds_iff, h.holds]
    · rw [hrecord] at hr
      split at hr
      · cases hr
        exact hold.enlist
      · exact h.confirmed file r hr
    · rw [hrecord] at hr
      split at hr
      · cases hr
        rw [FileRecord.enlist, FileRecord.put_highestAssigned, FileRecord.mem_put, recordOf_eq]
        cases hr : d.record? f with
        | none => exact .inl (max_eq_right (UInt64.le_iff_toNat_le.mpr (Nat.zero_le _)))
        | some r =>
          rw [Option.getD_some]
          obtain hle | hle := le_total r.highestAssigned v
          · exact .inl (max_eq_right hle)
          · exact .inr ((max_eq_left hle).symm ▸ h.highest f r hr)
      · exact h.highest file r hr

/-- A member tells all names that it stores. -/
theorem foldl_recover (h : d.Records stored) (m : Member) (names : List String) :
    (names.foldl (·.recover m ·) d).Records fun file v n =>
      ((∃ name ∈ names, StoredName.parse? name = some (file, v)) ∧ m = n) ∨ stored file v n := by
  induction names generalizing d stored with
  | nil => exact h.congr (by simp)
  | cons name names ih =>
    refine (ih (h.recover m name)).congr fun file v n => ?_
    simp only [List.exists_mem_cons_iff, or_and_right, or_assoc, or_left_comm]

end Records

/-- A member is listed with a catalog that has a version of the file. -/
def Listed (catalogs : List (Member × NameSet)) (file : String) (version : UInt64) (m : Member) :
    Prop :=
  ∃ names, (m, names) ∈ catalogs ∧ ∃ name ∈ names, StoredName.parse? name = some (file, version)

theorem records_rebuild (catalogs : List (Member × NameSet)) :
    (rebuild catalogs).Records (Listed catalogs) := by
  have hall (d : Directory) (stored : String → UInt64 → Member → Prop) (h : d.Records stored) :
      (catalogs.foldl (fun d catalog => catalog.2.toList.foldl (·.recover catalog.1 ·) d) d).Records
        fun file v m => Listed catalogs file v m ∨ stored file v m := by
    induction catalogs generalizing d stored with
    | nil => exact h.congr (by simp [Listed])
    | cons catalog catalogs ih =>
      obtain ⟨m, names⟩ := catalog
      refine (ih _ _ (h.foldl_recover m names.toList)).congr fun file v n => ?_
      have hcons : Listed ((m, names) :: catalogs) file v n ↔
          ((∃ name ∈ names, StoredName.parse? name = some (file, v)) ∧ m = n) ∨
            Listed catalogs file v n := by
        simp only [Listed, List.mem_cons, Prod.mk.injEq, or_and_right, exists_or]
        refine or_congr_left ⟨?_, ?_⟩
        · rintro ⟨_, ⟨rfl, rfl⟩, hname⟩
          exact ⟨hname, rfl⟩
        · rintro ⟨hname, rfl⟩
          exact ⟨names, ⟨rfl, rfl⟩, hname⟩
      rw [hcons]
      simp only [Std.ExtTreeSet.mem_toList, or_assoc, or_left_comm]
  exact (hall {} _ records_empty).congr fun _ _ _ => or_iff_left id

/-- The next put gets a number above all that are stored, as long as there is one. -/
theorem Records.lt_reserve (h : d.Records stored)
    (hroom : ∀ v m, stored file v m → v.toNat + 1 < UInt64.size) (hv : stored file v m) :
    v < (d.reserve file).2 := by
  obtain ⟨r, hr, holders, hversion, -⟩ := h.exists_record hv
  obtain ⟨found, hfound⟩ := FileRecord.mem_versions_iff.mp (h.highest file r hr)
  obtain ⟨n, hn⟩ := h.confirmed file r hr _ _ hfound
  have hhighest : d.Holds file r.highestAssigned n := holds_iff.mpr ⟨r, hr, found, hfound, hn⟩
  have hrecord : d.recordOf file = r := by rw [recordOf_eq, hr, Option.getD_some]
  rw [reserve_version]
  refine lt_nextVersion ?_ ?_ <;> rw [hrecord]
  · exact hroom _ n ((h.holds file _ n).mp hhighest)
  · exact h.bounded file r hr v (FileRecord.mem_versions_iff.mpr ⟨holders, hversion⟩)

end Directory

end ReplicaRing
