import ReplicaRing.Proofs.Directory.Operations

/-!
# Version numbers

A record remembers the highest number that it ever had. Numbers come into it when a put reserves
one, when a put is confirmed under a number that the record does not have, and when a catalog is
recovered. They leave it when a put is abandoned. No number is given out twice as long as the record
lives; a record that is removed takes its numbering with it.
-/
namespace ReplicaRing

namespace FileRecord

variable {r : FileRecord} {v w : UInt64} {holders : MemberSet}

/-- No version is above the highest number. -/
def Bounded (r : FileRecord) : Prop := ∀ v ∈ r.versions, v ≤ r.highestAssigned

theorem mem_put : w ∈ (r.put v holders).versions ↔ w = v ∨ w ∈ r.versions := by
  rw [put, Std.ExtTreeMap.mem_insert, Std.LawfulEqCmp.compare_eq_iff_eq, eq_comm (a := v)]

theorem mem_of_mem_drop (h : w ∈ (r.drop v).versions) : w ∈ r.versions :=
  (Std.ExtTreeMap.mem_erase.mp h).2

theorem mem_of_mem_retain {keep : Member → Bool} (h : w ∈ (r.retain keep).versions) :
    w ∈ r.versions :=
  Std.ExtTreeMap.mem_map.mp h

theorem mem_of_mem_join {m : Member} (h : w ∈ (r.join v m).versions) : w ∈ r.versions := by
  obtain ⟨joined, h⟩ := mem_versions_iff.mp h
  rw [join_versions_getElem?] at h
  split at h
  · obtain ⟨holders, hw, -⟩ := Option.map_eq_some_iff.mp h
    exact mem_versions_iff.mpr ⟨holders, hw⟩
  · exact mem_versions_iff.mpr ⟨joined, h⟩

theorem Bounded.put (h : r.Bounded) : (r.put v holders).Bounded := by
  intro w hw
  rw [put_highestAssigned]
  obtain rfl | hold := mem_put.mp hw
  · exact le_max_right _ _
  · exact (h w hold).trans (le_max_left _ _)

end FileRecord

namespace Directory

variable {d : Directory} {file : String} {op : Operation} {ops first mid rest : List Operation}
  {r : FileRecord} {v w : UInt64}

/-- The file has a record with this version. -/
def Contains (d : Directory) (file : String) (version : UInt64) : Prop :=
  ∃ r, d.record? file = some r ∧ version ∈ r.versions

/-- Every version of every record is at most the highest number of the record. -/
def Bounded (d : Directory) : Prop := ∀ file r, d.record? file = some r → r.Bounded

/-- The number that an operation hands to the record of a file. -/
def handed? (d : Directory) (file : String) : Operation → Option UInt64
  | .reserve f => if f = file then some (d.reserve f).2 else none
  | .confirm f version holders => if f = file ∧ !holders.isEmpty then some version else none
  | _ => none

/-- The numbers that a run hands to the record of a file, first first. -/
def handed (d : Directory) (file : String) : List Operation → List UInt64
  | [] => []
  | op :: ops => (d.handed? file op).toList ++ (d.apply op).handed file ops

/-- The number that an operation gives to a put of the file. -/
def reserved? (d : Directory) (file : String) : Operation → Option UInt64
  | .reserve f => if f = file then some (d.reserve f).2 else none
  | _ => none

/-- The numbers that a run gives to the puts of a file, first first. -/
def reserved (d : Directory) (file : String) : List Operation → List UInt64
  | [] => []
  | op :: ops => (d.reserved? file op).toList ++ (d.apply op).reserved file ops

/-- Whenever the run gives a number to a put of the file, there is one left. -/
def HasRoom (d : Directory) (file : String) : List Operation → Prop
  | [] => True
  | op :: ops =>
    ((d.reserved? file op).isSome →
        (d.recordOf file).highestAssigned.toNat + 1 < UInt64.size) ∧
      (d.apply op).HasRoom file ops

instance decidableHasRoom (d : Directory) (file : String) :
    (ops : List Operation) → Decidable (d.HasRoom file ops)
  | [] => inferInstanceAs (Decidable True)
  | op :: ops =>
    have := decidableHasRoom (d.apply op) file ops
    inferInstanceAs (Decidable (_ ∧ _))

/-! ### One operation -/

/-- An operation that keeps the record of a file puts one version into it, or none. -/
theorem record?_apply (hop : op.removes file = false) :
    (∃ v holders, d.handed? file op = some v ∧
        (d.apply op).record? file = some ((d.recordOf file).put v holders)) ∨
      ∃ f : FileRecord → FileRecord, d.handed? file op = none ∧
        (d.apply op).record? file = (d.record? file).map f ∧
        ∀ r, (f r).highestAssigned = r.highestAssigned ∧
          ∀ w ∈ (f r).versions, w ∈ r.versions := by
  have hsame (hr : (d.apply op).record? file = d.record? file) (hn : d.handed? file op = none) :
      ∃ f : FileRecord → FileRecord, d.handed? file op = none ∧
        (d.apply op).record? file = (d.record? file).map f ∧
        ∀ r, (f r).highestAssigned = r.highestAssigned ∧ ∀ w ∈ (f r).versions, w ∈ r.versions :=
    ⟨id, hn, by rw [hr, Option.map_id_fun, id], fun _ => ⟨rfl, fun _ => id⟩⟩
  cases op with
  | reserve f =>
    by_cases hf : f = file
    · subst hf
      exact .inl ⟨d.nextVersion f, ∅, if_pos rfl, record?_reserve.trans (if_pos rfl)⟩
    · exact .inr (hsame (record?_reserve.trans (if_neg hf)) (if_neg hf))
  | confirm f v holders =>
    cases he : holders.isEmpty with
    | false =>
      by_cases hf : f = file
      · subst hf
        exact .inl ⟨v, holders, if_pos ⟨rfl, by rw [he, Bool.not_false]⟩,
          (record?_confirm he).trans (if_pos rfl)⟩
      · exact .inr (hsame ((record?_confirm he).trans (if_neg hf)) (if_neg fun h => hf h.1))
    | true =>
      have hn : d.handed? file (.confirm f v holders) = none :=
        if_neg fun h => by rw [he] at h; exact Bool.false_ne_true h.2
      have hr : (d.apply (.confirm f v holders)).record? file = _ :=
        (congrArg (record? · file) (confirm_of_isEmpty he)).trans record?_abandon
      by_cases hf : f = file
      · rw [if_pos hf] at hr
        exact .inr ⟨(·.drop v), hn, hr, fun _ => ⟨rfl, fun _ => FileRecord.mem_of_mem_drop⟩⟩
      · exact .inr (hsame (hr.trans (if_neg hf)) hn)
  | abandon f v =>
    by_cases hf : f = file
    · exact .inr ⟨(·.drop v), rfl, record?_abandon.trans (if_pos hf),
        fun _ => ⟨rfl, fun _ => FileRecord.mem_of_mem_drop⟩⟩
    · exact .inr (hsame (record?_abandon.trans (if_neg hf)) rfl)
  | addHolder f v m =>
    by_cases hf : f = file
    · exact .inr ⟨(·.join v m), rfl, record?_addHolder.trans (if_pos hf),
        fun r => ⟨r.join_highestAssigned v m, fun _ => FileRecord.mem_of_mem_join⟩⟩
    · exact .inr (hsame (record?_addHolder.trans (if_neg hf)) rfl)
  | prune keep =>
    exact .inr ⟨(·.retain keep), rfl, record?_prune,
      fun _ => ⟨rfl, fun _ => FileRecord.mem_of_mem_retain⟩⟩
  | remove f =>
    have hf : f ≠ file := by
      rintro rfl
      exact Bool.false_ne_true (hop.symm.trans (beq_self_eq_true f))
    exact .inr (hsame (record?_remove.trans (if_neg hf)) rfl)

theorem Bounded.recordOf (h : d.Bounded) (file : String) : (d.recordOf file).Bounded := by
  rw [recordOf_eq]
  cases hr : d.record? file with
  | none =>
    intro v hv
    exact absurd hv Std.ExtTreeMap.not_mem_empty
  | some r => exact h file r hr

theorem Bounded.apply (h : d.Bounded) (op : Operation) : (d.apply op).Bounded := by
  intro file r hr
  cases hop : op.removes file with
  | true =>
    cases op with
    | remove f =>
      have hf : f = file := beq_iff_eq.mp hop
      rw [Directory.apply, record?_remove, if_pos hf] at hr
      cases hr
    | _ => cases hop
  | false =>
    obtain ⟨v, holders, -, heq⟩ | ⟨f, -, heq, hf⟩ := record?_apply (d := d) hop <;> rw [hr] at heq
    · cases heq
      exact (h.recordOf file).put
    · obtain ⟨r₀, hr₀, rfl⟩ := Option.map_eq_some_iff.mp heq.symm
      intro w hw
      rw [(hf r₀).1]
      exact h file r₀ hr₀ w ((hf r₀).2 w hw)

theorem Bounded.run (h : d.Bounded) (ops : List Operation) : (d.run ops).Bounded := by
  induction ops generalizing d with
  | nil => exact h
  | cons op ops ih => exact ih (h.apply op)

theorem Bounded.recover (h : d.Bounded) (m : Member) (name : String) :
    (d.recover m name).Bounded := by
  cases hp : StoredName.parse? name with
  | none => rwa [recover_of_unversioned hp]
  | some found =>
    intro g r hr
    rw [record?_recover hp] at hr
    split at hr
    · cases hr
      exact (h.recordOf _).put
    · exact h g r hr

theorem bounded_rebuild (catalogs : List (Member × NameSet)) : (rebuild catalogs).Bounded := by
  have hcatalog (d : Directory) (m : Member) (names : List String) (h : d.Bounded) :
      (names.foldl (·.recover m ·) d).Bounded := by
    induction names generalizing d with
    | nil => exact h
    | cons name names ih => exact ih _ (h.recover m name)
  have hall (d : Directory) (h : d.Bounded) :
      (catalogs.foldl
        (fun d catalog => catalog.2.toList.foldl (·.recover catalog.1 ·) d) d).Bounded := by
    induction catalogs generalizing d with
    | nil => exact h
    | cons catalog catalogs ih => exact ih _ (hcatalog d catalog.1 catalog.2.toList h)
  exact hall {} fun file r hr => by cases hr

/-! ### The life of a record -/

/-- The highest number of a record does not fall, and covers what the operation hands to it. -/
theorem highestAssigned_apply (hop : op.removes file = false) :
    (d.recordOf file).highestAssigned ≤ ((d.apply op).recordOf file).highestAssigned ∧
      ∀ v, d.handed? file op = some v → v ≤ ((d.apply op).recordOf file).highestAssigned := by
  obtain ⟨v, holders, hv, heq⟩ | ⟨f, hn, heq, hf⟩ := record?_apply (d := d) hop
  · rw [recordOf_eq (d.apply op), heq, Option.getD_some, FileRecord.put_highestAssigned]
    refine ⟨le_max_left _ _, fun w hw => ?_⟩
    cases hv.symm.trans hw
    exact le_max_right _ _
  · refine ⟨?_, fun w hw => by rw [hn] at hw; cases hw⟩
    rw [recordOf_eq, recordOf_eq, heq]
    cases d.record? file with
    | none => exact le_rfl
    | some r => exact (hf r).1.ge

theorem highestAssigned_run (hlife : ∀ op ∈ ops, op.removes file = false) :
    (d.recordOf file).highestAssigned ≤ ((d.run ops).recordOf file).highestAssigned ∧
      ∀ v ∈ d.handed file ops, v ≤ ((d.run ops).recordOf file).highestAssigned := by
  induction ops generalizing d with
  | nil => exact ⟨le_rfl, fun v hv => by cases hv⟩
  | cons op ops ih =>
    have hstep := highestAssigned_apply (d := d) (hlife op List.mem_cons_self)
    have hrest := ih (d := d.apply op) fun o ho => hlife o (List.mem_cons_of_mem _ ho)
    refine ⟨hstep.1.trans hrest.1, fun v hv => ?_⟩
    obtain hv | hv := List.mem_append.mp hv
    · exact (hstep.2 v (Option.mem_toList.mp hv)).trans hrest.1
    · exact hrest.2 v hv

/-- A record lives until it is removed. -/
theorem exists_record_run (hlife : ∀ op ∈ ops, op.removes file = false)
    (hr : d.record? file = some r) : ∃ r', (d.run ops).record? file = some r' := by
  induction ops generalizing d r with
  | nil => exact ⟨r, hr⟩
  | cons op ops ih =>
    have hrest : ∀ o ∈ ops, o.removes file = false := fun o ho =>
      hlife o (List.mem_cons_of_mem _ ho)
    obtain ⟨v, holders, -, heq⟩ | ⟨f, -, heq, -⟩ :=
      record?_apply (d := d) (hlife op List.mem_cons_self)
    · exact ih hrest heq
    · rw [hr, Option.map_some] at heq
      exact ih hrest heq

theorem Bounded.le_highestAssigned (h : d.Bounded) (hv : d.Contains file v) :
    v ≤ (d.recordOf file).highestAssigned := by
  obtain ⟨r, hr, hmem⟩ := hv
  rw [recordOf_eq, hr]
  exact h file r hr v hmem

theorem lt_nextVersion (hroom : (d.recordOf file).highestAssigned.toNat + 1 < UInt64.size)
    (hv : v ≤ (d.recordOf file).highestAssigned) : v < d.nextVersion file := by
  rw [nextVersion, UInt64.lt_iff_toNat_lt, UInt64.toNat_add, UInt64.toNat_one,
    Nat.mod_eq_of_lt hroom]
  exact Nat.lt_succ_of_le (UInt64.le_iff_toNat_le.mp hv)

theorem HasRoom.of_append (h : d.HasRoom file (ops ++ rest)) : (d.run ops).HasRoom file rest := by
  induction ops generalizing d with
  | nil => exact h
  | cons op ops ih => exact ih h.2

/-- What a put gets is above all that the record had or was handed before. -/
theorem Bounded.lt_reserve (h : d.Bounded) (hlife : ∀ op ∈ ops, op.removes file = false)
    (hroom : ((d.run ops).recordOf file).highestAssigned.toNat + 1 < UInt64.size)
    (hv : d.Contains file v ∨ v ∈ d.handed file ops) : v < ((d.run ops).reserve file).2 := by
  have hrun := highestAssigned_run (d := d) hlife
  refine lt_nextVersion hroom ?_
  obtain hv | hv := hv
  · exact (h.le_highestAssigned hv).trans hrun.1
  · exact hrun.2 v hv

/-- The numbers of a run all lie above the highest number at its start. -/
theorem lt_of_mem_reserved (hlife : ∀ op ∈ ops, op.removes file = false)
    (hroom : d.HasRoom file ops) (hv : v ∈ d.reserved file ops) :
    (d.recordOf file).highestAssigned < v := by
  induction ops generalizing d with
  | nil => cases hv
  | cons op ops ih =>
    have hstep := highestAssigned_apply (d := d) (hlife op List.mem_cons_self)
    obtain hv | hv := List.mem_append.mp hv
    · cases op with
      | reserve f =>
        by_cases hf : f = file
        · subst hf
          cases (if_pos rfl : d.reserved? f (.reserve f) = _).symm.trans (Option.mem_toList.mp hv)
          exact lt_nextVersion (hroom.1 (by rw [reserved?, if_pos rfl, Option.isSome_some])) le_rfl
        · cases (if_neg hf : d.reserved? file (.reserve f) = _).symm.trans (Option.mem_toList.mp hv)
      | _ => cases hv
    · exact hstep.1.trans_lt (ih (fun o ho => hlife o (List.mem_cons_of_mem _ ho)) hroom.2 hv)

theorem pairwise_reserved (hlife : ∀ op ∈ ops, op.removes file = false)
    (hroom : d.HasRoom file ops) : (d.reserved file ops).Pairwise (· < ·) := by
  induction ops generalizing d with
  | nil => exact .nil
  | cons op ops ih =>
    have hrest : ∀ o ∈ ops, o.removes file = false := fun o ho =>
      hlife o (List.mem_cons_of_mem _ ho)
    have htail := ih hrest hroom.2
    rw [reserved]
    cases hres : d.reserved? file op with
    | none => exact htail
    | some v =>
      refine List.pairwise_cons.mpr ⟨fun w hw => ?_, htail⟩
      have hhanded : d.handed? file op = some v := by
        cases op with
        | reserve f => exact hres
        | _ => cases hres
      exact ((highestAssigned_apply (hlife op List.mem_cons_self)).2 v hhanded).trans_lt
        (lt_of_mem_reserved hrest hroom.2 hw)

/-- **No version number is used twice.** In any part of a run in which the record of a file is not
removed, the puts of the file get strictly increasing numbers, each above every number that the
record had at some earlier time of that part, or was handed in it, whether it came from a catalog,
a put or a confirmation, and whether it is still there or not. No version of any record is above the
highest number of the record, and that number does not fall. -/
theorem versions_never_reused (catalogs : List (Member × NameSet)) (file : String)
    (before life : List Operation) (hlife : ∀ op ∈ life, op.removes file = false)
    (hroom : ((rebuild catalogs).run before).HasRoom file life) :
    let d := (rebuild catalogs).run before
    (d.reserved file life).Pairwise (· < ·) ∧
      (∀ first mid rest, life = first ++ mid ++ .reserve file :: rest → ∀ v,
        (d.run first).Contains file v ∨ v ∈ (d.run first).handed file mid →
          v < ((d.run (first ++ mid)).reserve file).2) ∧
      (∀ f r, ((d.run life).record? f = some r) → ∀ v ∈ r.versions, v ≤ r.highestAssigned) ∧
      ∀ r, d.record? file = some r →
        ∃ r', (d.run life).record? file = some r' ∧ r.highestAssigned ≤ r'.highestAssigned := by
  intro d
  have hbounded : d.Bounded := (bounded_rebuild catalogs).run before
  refine ⟨pairwise_reserved hlife hroom, ?_, hbounded.run life, fun r hr => ?_⟩
  · rintro first mid rest rfl v hv
    have hmid : ∀ op ∈ mid, op.removes file = false := fun op hop =>
      hlife op (List.mem_append_left _ (List.mem_append_right _ hop))
    have hleft := hroom.of_append.1 (by rw [reserved?, if_pos rfl, Option.isSome_some])
    rw [run_append] at hleft ⊢
    exact (hbounded.run first).lt_reserve hmid hleft hv
  · obtain ⟨r', hr'⟩ := exists_record_run hlife hr
    have hle := (highestAssigned_run (d := d) hlife).1
    rw [recordOf_eq, recordOf_eq, hr, hr'] at hle
    exact ⟨r', hr', hle⟩

/-- A recovered number, a record that starts over, numbers that are abandoned, and one that comes
with a confirmation. -/
theorem versions_never_reused_after_removal :
    let m : Member := ⟨"a", 1, 1⟩
    let d := (rebuild [(m, .ofList ["a_4.txt", "b"])]).run [.reserve "a.txt", .remove "a.txt"]
    let life : List Operation := [.reserve "a.txt", .abandon "a.txt" 1, .reserve "b",
      .confirm "a.txt" 9 (.ofList [m]), .prune fun _ => false, .reserve "a.txt",
      .abandon "a.txt" 10, .addHolder "a.txt" 9 m, .reserve "a.txt"]
    d.reserved "a.txt" life = [1, 10, 11] ∧ (d.reserved "a.txt" life).Pairwise (· < ·) := by
  intro m d life
  have hnever := versions_never_reused [(m, .ofList ["a_4.txt", "b"])] "a.txt"
    [.reserve "a.txt", .remove "a.txt"] life (by decide) (by decide +kernel)
  exact ⟨by decide +kernel, hnever.1⟩

end Directory

end ReplicaRing
