import Mathlib.Algebra.BigOperators.Group.List.Basic
import Mathlib.Algebra.GroupWithZero.Nat
import Mathlib.Data.List.Induction
import Mathlib.Data.List.Perm.Subperm
import ReplicaRing.Proofs.Directory.Holdings

/-!
# A repair pass

A pass forgets the holders that are not members any more, orders copies of every version that has
holders, but too few of them, and records each target that answers that it has the copy. Main
statement: what becomes of every version and of the report, whichever members are chosen as targets,
whatever the orders come to, and in whichever order they end.
-/
namespace ReplicaRing

/-! ### Targets -/

namespace Placement

variable {p : Placement} {name : String} {members : List Member} {holders : MemberSet} {m : Member}

/-- The copies that are ordered of a version, given how many members and how many holders there
are. -/
def shortfall (p : Placement) (members holders : Nat) : Nat :=
  if 0 < holders ∧ holders < p.factor then min (p.factor - holders) (members - holders) else 0

theorem mem_of_mem_repairTargets (h : m ∈ p.repairTargets name members holders) :
    m ∈ members ∧ m ∉ holders := by
  have hcandidate := (p.arrangement.order_perm name _).mem_iff.mp (List.mem_of_mem_take h)
  obtain ⟨hm, hnot⟩ := List.mem_filter.mp hcandidate
  refine ⟨hm, fun hholds => ?_⟩
  rw [Std.ExtTreeSet.contains_iff_mem.mpr hholds] at hnot
  cases hnot

theorem nodup_repairTargets (hmembers : members.Nodup) :
    (p.repairTargets name members holders).Nodup :=
  ((p.arrangement.order_perm name _).nodup_iff.mpr (hmembers.filter _)).sublist
    (List.take_sublist _ _)

theorem size_le (hholders : ∀ m ∈ holders, m ∈ members) : holders.size ≤ members.length := by
  rw [← Std.ExtTreeSet.length_toList]
  have hsubset : holders.toList ⊆ members := fun m hm =>
    hholders m (Std.ExtTreeSet.mem_toList.mp hm)
  exact (List.Nodup.subperm (nodup_toList holders) hsubset).length_le

/-- Of the members, all that are no holders could hold one more copy. -/
theorem length_candidates (hmembers : members.Nodup) (hholders : ∀ m ∈ holders, m ∈ members) :
    (candidates members holders).length = members.length - holders.size := by
  have hheld : (members.filter holders.contains).Perm holders.toList := by
    refine (List.perm_ext_iff_of_nodup (hmembers.filter _) (nodup_toList holders)).mpr fun m => ?_
    rw [List.mem_filter, Std.ExtTreeSet.contains_iff_mem, Std.ExtTreeSet.mem_toList]
    exact and_iff_right_of_imp (hholders m)
  have hsplit := List.length_eq_length_filter_add (l := members) holders.contains
  rw [hheld.length_eq, Std.ExtTreeSet.length_toList] at hsplit
  change members.length = _ + (candidates members holders).length at hsplit
  omega

theorem length_repairTargets (hmembers : members.Nodup) (hholders : ∀ m ∈ holders, m ∈ members) :
    (p.repairTargets name members holders).length =
      min (p.factor - holders.size) (members.length - holders.size) := by
  rw [repairTargets, List.length_take, (p.arrangement.order_perm name _).length_eq,
    length_candidates hmembers hholders]

end Placement

namespace Coordinator

variable {c : Coordinator} {members : List Member} {o : CopyOrder} {a : Option FileKind}
  {answers : List (CopyOrder × Option FileKind)} {file : String} {v : UInt64} {m : Member}
  {left : MemberSet} {answer : CopyOrder → Option FileKind}

/-- An answer that says that the target has the copy. -/
def Copied (answer : Option FileKind) : Prop := answer = some .ok ∨ answer = some .fileExists

instance : DecidablePred Copied := fun _ => inferInstanceAs (Decidable (_ ∨ _))

/-- The holders that are still members. -/
def staying (members : List Member) (held : MemberSet) : MemberSet :=
  held.filter (members.contains ·)

/-! ### The first half -/

theorem planRepair_directory (c : Coordinator) (members : List Member) :
    (c.planRepair members).1.directory = (c.directory.prune (members.contains ·)).1 := rfl

/-- A version after the pruning. -/
theorem holders?_planned {held : MemberSet} (hv : c.directory.holders? file v = some held) :
    (c.planRepair members).1.directory.holders? file v = some (staying members held) := by
  rw [planRepair_directory, Directory.holders?_prune, hv]
  rfl

/-- Copies are ordered of the versions that have holders, but too few. -/
theorem mem_planRepair :
    o ∈ (c.planRepair members).2.2 ↔
      ∃ left : MemberSet, (c.planRepair members).1.directory.holders? o.file o.version = some left ∧
        left.isEmpty = false ∧ left.size < c.placement.factor ∧ o.holders = left.toList ∧
        o.target ∈ c.placement.repairTargets o.storedName members left := by
  simp only [planRepair, Directory.shortages, List.mem_flatMap, List.mem_map, List.mem_filter,
    Prod.exists, Bool.and_eq_true, Bool.not_eq_true', decide_eq_true_eq]
  constructor
  · rintro ⟨s, ⟨file, v, left, ⟨hentry, hheld, hfew⟩, rfl⟩, target, htarget, rfl⟩
    exact ⟨left, Directory.mem_entries.mp hentry, hheld, hfew, rfl, htarget⟩
  · rintro ⟨left, hv, hheld, hfew, hholders, htarget⟩
    have hentry := Directory.mem_entries.mpr hv
    refine ⟨⟨o.file, o.version, left⟩, ⟨_, _, left, ⟨hentry, hheld, hfew⟩, rfl⟩, o.target,
      htarget, ?_⟩
    rw [← hholders]

/-- Those left are members. -/
theorem mem_of_planned
    (hv : (c.planRepair members).1.directory.holders? file v = some left) :
    ∀ m ∈ left, m ∈ members := by
  intro m hm
  have hholds := Directory.holds_iff_holders?.mpr ⟨left, hv, hm⟩
  rw [planRepair_directory, Directory.holds_prune] at hholds
  exact List.contains_iff_mem.mp hholds.2

theorem length_planRepair (hmembers : members.Nodup) :
    (c.planRepair members).2.2.length =
      (c.directory.entries.map fun (_, _, held) =>
        c.placement.shortfall members.length (staying members held).size).sum := by
  set planned := (c.planRepair members).1.directory with hplanned
  have hordered (entry : String × UInt64 × MemberSet) (hentry : entry ∈ planned.entries) :
      (c.placement.repairTargets (StoredName.ofVersion entry.1 entry.2.1) members
        entry.2.2).length =
        min (c.placement.factor - entry.2.2.size) (members.length - entry.2.2.size) :=
    Placement.length_repairTargets hmembers (mem_of_planned (Directory.mem_entries.mp hentry))
  have hlacks (entry : String × UInt64 × MemberSet) :
      (!entry.2.2.isEmpty && decide (entry.2.2.size < c.placement.factor)) =
        decide (0 < entry.2.2.size ∧ entry.2.2.size < c.placement.factor) := by
    rw [Std.ExtTreeSet.isEmpty_eq_size_beq_zero, Bool.decide_and]
    cases entry.2.2.size <;> rfl
  calc (c.planRepair members).2.2.length
      = ((planned.entries.filter fun entry =>
          decide (0 < entry.2.2.size ∧ entry.2.2.size < c.placement.factor)).map fun entry =>
            (c.placement.repairTargets (StoredName.ofVersion entry.1 entry.2.1) members
              entry.2.2).length).sum := by
        simp only [planRepair, Directory.shortages, List.length_flatMap, List.length_map,
          List.map_map, ← hlacks]
        rfl
    _ = (planned.entries.map fun entry =>
          c.placement.shortfall members.length entry.2.2.size).sum := by
        have hsplit := List.sum_map_ite
          (fun entry : String × UInt64 × MemberSet =>
            0 < entry.2.2.size ∧ entry.2.2.size < c.placement.factor)
          (fun entry => (c.placement.repairTargets (StoredName.ofVersion entry.1 entry.2.1) members
            entry.2.2).length) (fun _ => 0) planned.entries
        simp only [List.map_const', List.sum_replicate, nsmul_zero, add_zero] at hsplit
        rw [← hsplit]
        refine congrArg List.sum (List.map_congr_left fun entry hentry => ?_)
        rw [hordered entry hentry, Placement.shortfall]
    _ = _ := by
        rw [hplanned, planRepair_directory, Directory.entries_prune, List.map_map]
        rfl

/-- No order is given twice. -/
theorem nodup_planRepair (hmembers : members.Nodup) : (c.planRepair members).2.2.Nodup := by
  have hentries := ((c.planRepair members).1.directory.pairwise_entries.filter
    fun (_, _, holders) => !holders.isEmpty && decide (holders.size < c.placement.factor)).map
      (S := fun s t : Shortage => ¬ (s.file = t.file ∧ s.version = t.version))
      (fun (file, version, holders) => ⟨file, version, holders⟩) fun _ _ hne => hne
  refine List.pairwise_flatMap.mpr ⟨fun s _ => ?_, hentries.imp fun {s t} hne o ho o' ho' heq => ?_⟩
  · exact List.Pairwise.map _ (fun _ _ hne heq => hne (congrArg (·.target) heq))
      (Placement.nodup_repairTargets hmembers)
  · obtain ⟨_, -, rfl⟩ := List.mem_map.mp ho
    obtain ⟨_, -, rfl⟩ := List.mem_map.mp ho'
    exact hne ⟨congrArg (·.file) heq, congrArg (·.version) heq⟩

/-! ### The second half -/

theorem settleOrder_of_copied (h : Copied a) :
    c.settleOrder o a =
      ({ c with directory := (c.directory.addHolder o.file o.version o.target).1 },
        (c.directory.addHolder o.file o.version o.target).2) :=
  if_pos h

theorem settleOrder_of_not_copied (h : ¬ Copied a) : c.settleOrder o a = (c, false) := if_neg h

theorem settle_concat :
    c.settle (answers ++ [(o, a)]) =
      (((c.settle answers).1.settleOrder o a).1, (c.settle answers).2 +
        if ((c.settle answers).1.settleOrder o a).2 then 1 else 0) := by
  rw [settle, List.foldl_append, ← settle, List.foldl_cons, List.foldl_nil]
  obtain ⟨c', added⟩ := c.settle answers
  dsimp only
  obtain ⟨c'', new⟩ := c'.settleOrder o a
  cases new <;> rfl

/-- The answers have come to `c'`: members have joined holders, as many as were counted, and nothing
else has changed. -/
structure Settles (c c' : Coordinator) (joins : String → UInt64 → Member → Prop) (added : Nat) :
    Prop where
  placement : c'.placement = c.placement
  highest : ∀ file, c'.directory.highest? file = c.directory.highest? file
  listed : ∀ file v,
    (c'.directory.holders? file v).isSome = (c.directory.holders? file v).isSome
  holds : ∀ file v m, c'.directory.Holds file v m ↔
    c.directory.Holds file v m ∨ (∃ k, c.directory.Holds file v k) ∧ joins file v m
  count : c'.directory.holdings.length = c.directory.holdings.length + added

theorem settleOrder_settles (c : Coordinator) (o : CopyOrder) (a : Option FileKind) :
    Settles c (c.settleOrder o a).1
      (fun file v m => Copied a ∧ o.file = file ∧ o.version = v ∧ o.target = m)
      (if (c.settleOrder o a).2 then 1 else 0) := by
  by_cases h : Copied a
  · rw [settleOrder_of_copied h]
    refine ⟨rfl, fun _ => Directory.highest?_addHolder,
      fun _ _ => Directory.isSome_holders?_addHolder, fun _ _ _ => ?_,
      Directory.length_holdings_addHolder⟩
    rw [Directory.holds_addHolder, and_iff_right h, and_comm]
  · rw [settleOrder_of_not_copied h]
    refine ⟨rfl, fun _ => rfl, fun _ _ => rfl, fun _ _ _ => (or_iff_left ?_).symm, rfl⟩
    exact fun hjoins => h hjoins.2.1

theorem settle_settles (c : Coordinator) (answers : List (CopyOrder × Option FileKind)) :
    Settles c (c.settle answers).1
      (fun file v m =>
        ∃ o a, (o, a) ∈ answers ∧ Copied a ∧ o.file = file ∧ o.version = v ∧ o.target = m)
      (c.settle answers).2 := by
  induction answers using List.reverseRecOn with
  | nil =>
    refine ⟨rfl, fun _ => rfl, fun _ _ => rfl, fun _ _ _ => (or_iff_left ?_).symm, rfl⟩
    rintro ⟨-, o, a, hmem, -⟩
    exact absurd hmem List.not_mem_nil
  | append_singleton answers x ih =>
    obtain ⟨o, a⟩ := x
    have hlast := (c.settle answers).1.settleOrder_settles o a
    rw [settle_concat]
    refine ⟨hlast.placement.trans ih.placement,
      fun file => (hlast.highest file).trans (ih.highest file),
      fun file v => (hlast.listed file v).trans (ih.listed file v), fun file v m => ?_, ?_⟩
    · -- Answers add holders only where there is one, so there was one before them.
      have hheld : (∃ k, (c.settle answers).1.directory.Holds file v k) ↔
          ∃ k, c.directory.Holds file v k := by
        simp only [ih.holds, exists_or]
        exact or_iff_left_of_imp fun ⟨_, h, _⟩ => h
      rw [hlast.holds, hheld, ih.holds]
      simp only [List.mem_append, List.mem_singleton, Prod.mk.injEq, or_and_right, exists_or,
        and_or_left, or_assoc]
      refine or_congr_right (or_congr_right (and_congr_right' ?_))
      exact ⟨fun h => ⟨o, a, ⟨rfl, rfl⟩, h⟩, fun ⟨_, _, ⟨ho, ha⟩, h⟩ => ho ▸ ha ▸ h⟩
    · rw [hlast.count, ih.count, Nat.add_assoc]

theorem eq_of_directory {c' : Coordinator} (hplacement : c.placement = c'.placement)
    (hdirectory : c.directory = c'.directory) : c = c' := by
  cases c
  cases c'
  cases hplacement
  cases hdirectory
  rfl

/-- It does not matter in which order the answers come. -/
theorem settle_perm {answers' : List (CopyOrder × Option FileKind)} (h : answers.Perm answers') :
    c.settle answers = c.settle answers' := by
  have hone := c.settle_settles answers
  have hother := c.settle_settles answers'
  have hdirectory : (c.settle answers).1.directory = (c.settle answers').1.directory := by
    refine Directory.ext_holders? (fun file => ?_) fun file v =>
      Directory.holders?_congr ?_ fun m => ?_
    · rw [hone.highest, hother.highest]
    · rw [hone.listed, hother.listed]
    · rw [hone.holds, hother.holds]
      simp only [h.mem_iff]
  refine Prod.ext (eq_of_directory (hone.placement.trans hother.placement.symm) hdirectory) ?_
  have hcount := hone.count
  rw [hdirectory] at hcount
  exact Nat.add_left_cancel (hcount.symm.trans hother.count)

/-! ### Both halves -/

/-- What a pass makes of a version that had the holders `held`. -/
structure Repaired (c : Coordinator) (members : List Member) (answer : CopyOrder → Option FileKind)
    (file : String) (v : UInt64) (held holders : MemberSet) : Prop where
  /-- Only members are left. -/
  among : ∀ m ∈ holders, m ∈ members
  /-- A version that has no holders left, or enough of them, is pruned and no more. -/
  pruned : (staying members held).isEmpty ∨ c.placement.factor ≤ (staying members held).size →
    holders = staying members held
  /-- To any other version, those targets come that answered that they have the copy. -/
  joined : (staying members held).isEmpty = false →
    (staying members held).size < c.placement.factor → ∀ m, m ∈ holders ↔
      m ∈ staying members held ∨ ∃ o ∈ (c.planRepair members).2.2,
        o.file = file ∧ o.version = v ∧ o.target = m ∧ Copied (answer o)
  /-- Targets are members that do not hold the version. -/
  targets : ∀ o ∈ (c.planRepair members).2.2, o.file = file → o.version = v →
    o.target ∈ members ∧ o.target ∉ staying members held
  atMost : (staying members held).size < c.placement.factor → holders.size ≤ c.placement.factor
  exactly : (staying members held).isEmpty = false →
    (staying members held).size < c.placement.factor →
      (∀ o ∈ (c.planRepair members).2.2, o.file = file → o.version = v → Copied (answer o)) →
        holders.size = min c.placement.factor members.length

/-- The orders for one version are those to its targets. -/
theorem exists_order_iff (hv : (c.planRepair members).1.directory.holders? file v = some left)
    (hheld : left.isEmpty = false) (hfew : left.size < c.placement.factor) {P : CopyOrder → Prop} :
    (∃ o ∈ (c.planRepair members).2.2, o.file = file ∧ o.version = v ∧ o.target = m ∧ P o) ↔
      m ∈ c.placement.repairTargets (StoredName.ofVersion file v) members left ∧
        P ⟨m, file, v, left.toList⟩ := by
  constructor
  · rintro ⟨⟨target, f, w, named⟩, ho, rfl, rfl, rfl, hP⟩
    obtain ⟨left', hv', -, -, hnamed, htarget⟩ := mem_planRepair.mp ho
    cases hv.symm.trans hv'
    cases hnamed
    exact ⟨htarget, hP⟩
  · rintro ⟨htarget, hP⟩
    have ho : (⟨m, file, v, left.toList⟩ : CopyOrder) ∈ (c.planRepair members).2.2 :=
      mem_planRepair.mpr ⟨left, hv, hheld, hfew, rfl, htarget⟩
    exact ⟨_, ho, rfl, rfl, rfl, hP⟩

/-- Orders are only for a version that has holders, but too few, and only to members that do not
hold it. -/
theorem spec_of_order (hv : (c.planRepair members).1.directory.holders? file v = some left)
    (ho : o ∈ (c.planRepair members).2.2) (hfile : o.file = file) (hversion : o.version = v) :
    left.isEmpty = false ∧ left.size < c.placement.factor ∧ o.target ∈ members ∧
      o.target ∉ left := by
  subst hfile hversion
  obtain ⟨left', hleft, hheld, hfew, -, htarget⟩ := mem_planRepair.mp ho
  cases hv.symm.trans hleft
  exact ⟨hheld, hfew, Placement.mem_of_mem_repairTargets htarget⟩

/-- The second half of a pass in which each order gets its answer. -/
def settled (c : Coordinator) (members : List Member) (answer : CopyOrder → Option FileKind) :
    Coordinator × Nat :=
  (c.planRepair members).1.settle ((c.planRepair members).2.2.map fun o => (o, answer o))

theorem repair_eq (c : Coordinator) (members : List Member) (network : StoreNetwork Id) :
    c.repair network members =
      ((c.settled members network.copy).1,
        { pruned := (c.planRepair members).2.1
          ordered := (c.planRepair members).2.2.length
          added := (c.settled members network.copy).2 }) := by
  have hanswers : (c.planRepair members).2.2.mapM (m := Id) (fun o => pure (o, network.copy o)) =
      (c.planRepair members).2.2.map fun o => (o, network.copy o) := List.mapM_pure
  have hpass (answers : List (CopyOrder × Option FileKind))
      (h : (c.planRepair members).2.2.mapM (m := Id) (fun o => pure (o, network.copy o)) =
        answers) :
      c.repair network members =
        (((c.planRepair members).1.settle answers).1,
          { pruned := (c.planRepair members).2.1
            ordered := (c.planRepair members).2.2.length
            added := ((c.planRepair members).1.settle answers).2 }) := h ▸ rfl
  exact hpass _ hanswers

/-- Who holds a version after the pass. -/
theorem holds_settled :
    (c.settled members answer).1.directory.Holds file v m ↔
      (c.planRepair members).1.directory.Holds file v m ∨
        ∃ o ∈ (c.planRepair members).2.2,
          o.file = file ∧ o.version = v ∧ o.target = m ∧ Copied (answer o) := by
  rw [settled, ((c.planRepair members).1.settle_settles _).holds]
  refine or_congr_right ⟨?_, ?_⟩
  · rintro ⟨-, o, a, hmem, hcopied, hf, hv, ht⟩
    obtain ⟨o', ho', heq⟩ := List.mem_map.mp hmem
    cases heq
    exact ⟨o, ho', hf, hv, ht, hcopied⟩
  · rintro ⟨o, ho, rfl, rfl, rfl, hcopied⟩
    obtain ⟨left, hv, hheld, -⟩ := mem_planRepair.mp ho
    exact ⟨Directory.exists_holds_iff.mpr ⟨left, hv, hheld⟩, o, answer o,
      List.mem_map_of_mem ho, hcopied, rfl, rfl, rfl⟩

/-- The holders of a version after the pass, one by one. -/
theorem mem_settled {holders : MemberSet}
    (hv : (c.planRepair members).1.directory.holders? file v = some left)
    (hsettled : (c.settled members answer).1.directory.holders? file v = some holders) :
    m ∈ holders ↔ m ∈ left ∨ ∃ o ∈ (c.planRepair members).2.2,
      o.file = file ∧ o.version = v ∧ o.target = m ∧ Copied (answer o) := by
  have hholds : (c.settled members answer).1.directory.Holds file v m ↔ _ := holds_settled
  simpa only [Directory.holds_iff_holders?, hv, hsettled, Option.some.injEq, exists_eq_left'] using
    hholds

/-- A version that lacks copies has as many holders more as targets say that they have one. -/
theorem size_settled {holders : MemberSet} (hmembers : members.Nodup)
    (hv : (c.planRepair members).1.directory.holders? file v = some left)
    (hheld : left.isEmpty = false) (hfew : left.size < c.placement.factor)
    (hsettled : (c.settled members answer).1.directory.holders? file v = some holders) :
    holders.size = left.size +
      ((c.placement.repairTargets (StoredName.ofVersion file v) members left).filter fun m =>
        Copied (answer ⟨m, file, v, left.toList⟩)).length := by
  have hnodup : (left.toList ++
      (c.placement.repairTargets (StoredName.ofVersion file v) members left).filter fun m =>
        Copied (answer ⟨m, file, v, left.toList⟩)).Nodup := by
    refine List.nodup_append.mpr ⟨nodup_toList left,
      (Placement.nodup_repairTargets hmembers).filter _, fun m hm n hn heq => ?_⟩
    refine (Placement.mem_of_mem_repairTargets (List.mem_filter.mp hn).1).2 (heq ▸ ?_)
    exact Std.ExtTreeSet.mem_toList.mp hm
  have hperm := (List.perm_ext_iff_of_nodup (nodup_toList holders) hnodup).mpr fun m => by
    rw [Std.ExtTreeSet.mem_toList, mem_settled hv hsettled, exists_order_iff hv hheld hfew,
      List.mem_append, Std.ExtTreeSet.mem_toList, List.mem_filter, decide_eq_true_eq]
  rw [← Std.ExtTreeSet.length_toList, hperm.length_eq, List.length_append,
    Std.ExtTreeSet.length_toList]

theorem isSome_holders?_settled :
    ((c.settled members answer).1.directory.holders? file v).isSome =
      (c.directory.holders? file v).isSome := by
  rw [settled, ((c.planRepair members).1.settle_settles _).listed, planRepair_directory,
    Directory.holders?_prune, Option.isSome_map]

/-- A version that is not ordered has the holders that it had after the pruning. -/
theorem eq_left_of_settled {holders : MemberSet}
    (hv : (c.planRepair members).1.directory.holders? file v = some left)
    (hsettled : (c.settled members answer).1.directory.holders? file v = some holders)
    (henough : left.isEmpty ∨ c.placement.factor ≤ left.size) : holders = left := by
  refine Std.ExtTreeSet.ext_mem fun m => (mem_settled hv hsettled).trans (or_iff_left ?_)
  rintro ⟨o, ho, hfile, hversion, -⟩
  obtain ⟨hheld, hfew, -⟩ := spec_of_order hv ho hfile hversion
  obtain hempty | henough := henough
  · rw [hheld] at hempty
    cases hempty
  · exact absurd hfew (Nat.not_lt.mpr henough)

/-- A version that lacks copies gets no more than it should have. -/
theorem size_settled_le {holders : MemberSet} (hmembers : members.Nodup)
    (hv : (c.planRepair members).1.directory.holders? file v = some left)
    (hsettled : (c.settled members answer).1.directory.holders? file v = some holders)
    (hfew : left.size < c.placement.factor) : holders.size ≤ c.placement.factor := by
  cases hheld : left.isEmpty with
  | true =>
    rw [eq_left_of_settled hv hsettled (.inl hheld)]
    exact Nat.le_of_lt hfew
  | false =>
    have htargets : (c.placement.repairTargets (StoredName.ofVersion file v) members left).length =
        _ := Placement.length_repairTargets hmembers (mem_of_planned hv)
    rw [size_settled hmembers hv hheld hfew hsettled]
    have hle := List.length_filter_le (fun m => decide (Copied (answer ⟨m, file, v, left.toList⟩)))
      (c.placement.repairTargets (StoredName.ofVersion file v) members left)
    omega

/-- It gets all that it should have, or all members, if all targets have the copy. -/
theorem size_settled_of_copied {holders : MemberSet} (hmembers : members.Nodup)
    (hv : (c.planRepair members).1.directory.holders? file v = some left)
    (hsettled : (c.settled members answer).1.directory.holders? file v = some holders)
    (hheld : left.isEmpty = false) (hfew : left.size < c.placement.factor)
    (hall : ∀ o ∈ (c.planRepair members).2.2, o.file = file → o.version = v → Copied (answer o)) :
    holders.size = min c.placement.factor members.length := by
  have hcopied : (c.placement.repairTargets (StoredName.ofVersion file v) members left).filter
      (fun m => decide (Copied (answer ⟨m, file, v, left.toList⟩))) =
        c.placement.repairTargets (StoredName.ofVersion file v) members left := by
    refine List.filter_eq_self.mpr fun m hm => decide_eq_true ?_
    exact hall _ (mem_planRepair.mpr ⟨left, hv, hheld, hfew, rfl, hm⟩) rfl rfl
  have hfits := Placement.size_le (mem_of_planned hv)
  rw [size_settled hmembers hv hheld hfew hsettled, hcopied,
    Placement.length_repairTargets hmembers (mem_of_planned hv)]
  omega

/-- What becomes of one version. -/
theorem exists_repaired {held : MemberSet} (hmembers : members.Nodup)
    (hv : c.directory.holders? file v = some held) :
    ∃ holders, (c.settled members answer).1.directory.holders? file v = some holders ∧
      Repaired c members answer file v held holders := by
  have hplanned : (c.planRepair members).1.directory.holders? file v =
      some (staying members held) := holders?_planned hv
  have hlisted : ((c.settled members answer).1.directory.holders? file v).isSome = true := by
    rw [isSome_holders?_settled, hv, Option.isSome_some]
  obtain ⟨holders, hholders⟩ := Option.isSome_iff_exists.mp hlisted
  refine ⟨holders, hholders, ?_⟩
  constructor
  case among =>
    intro m hm
    obtain hm | ⟨o, ho, hfile, hversion, rfl, -⟩ := (mem_settled hplanned hholders).mp hm
    · exact mem_of_planned hplanned m hm
    · exact (spec_of_order hplanned ho hfile hversion).2.2.1
  case pruned => exact eq_left_of_settled hplanned hholders
  case joined => exact fun _ _ m => mem_settled hplanned hholders
  case targets =>
    exact fun o ho hfile hversion => (spec_of_order hplanned ho hfile hversion).2.2
  case atMost => exact size_settled_le hmembers hplanned hholders
  case exactly => exact size_settled_of_copied hmembers hplanned hholders

theorem placement_settled : (c.settled members answer).1.placement = c.placement :=
  ((c.planRepair members).1.settle_settles _).placement

/-- Nobody is added who is no member. -/
theorem mem_of_settled (h : (c.settled members answer).1.directory.Holds file v m) :
    m ∈ members := by
  obtain h | ⟨o, ho, -, -, rfl, -⟩ := holds_settled.mp h
  · rw [planRepair_directory, Directory.holds_prune] at h
    exact List.contains_iff_mem.mp h.2
  · obtain ⟨left, -, -, -, -, htarget⟩ := mem_planRepair.mp ho
    exact (Placement.mem_of_mem_repairTargets htarget).1

/-- Of the holders there were, the members are left. -/
theorem holds_settled_of_holds (h : c.directory.Holds file v m) :
    (c.settled members answer).1.directory.Holds file v m ↔ m ∈ members := by
  refine ⟨mem_of_settled, fun hm => holds_settled.mpr (.inl ?_)⟩
  rw [planRepair_directory, Directory.holds_prune]
  exact ⟨h, List.contains_iff_mem.mpr hm⟩

theorem pruned_eq :
    (c.planRepair members).2.1 = (c.directory.holdings.filter
      (!(c.settled members answer).1.directory.holdings.contains ·)).length := by
  change (c.directory.prune (members.contains ·)).2 = _
  rw [Directory.prune_count]
  refine congrArg List.length (List.filter_congr fun holding hholding => ?_)
  obtain ⟨file, v, m⟩ := holding
  rw [Bool.not_inj_iff, Bool.eq_iff_iff, List.contains_iff_mem, List.contains_iff_mem,
    Directory.mem_holdings, holds_settled_of_holds (Directory.mem_holdings.mp hholding)]

theorem added_eq :
    (c.settled members answer).2 = ((c.settled members answer).1.directory.holdings.filter
      (!c.directory.holdings.contains ·)).length := by
  have hkept : ((c.settled members answer).1.directory.holdings.filter
      c.directory.holdings.contains).Perm (c.planRepair members).1.directory.holdings := by
    refine (List.perm_ext_iff_of_nodup ((Directory.nodup_holdings _).filter _)
      (Directory.nodup_holdings _)).mpr ?_
    rintro ⟨file, v, m⟩
    rw [List.mem_filter, List.contains_iff_mem, Directory.mem_holdings, Directory.mem_holdings,
      Directory.mem_holdings, planRepair_directory, Directory.holds_prune, List.contains_iff_mem,
      and_comm]
    exact and_congr_right holds_settled_of_holds
  have hlength : (c.settled members answer).1.directory.holdings.length =
      (c.planRepair members).1.directory.holdings.length + (c.settled members answer).2 :=
    ((c.planRepair members).1.settle_settles _).count
  have hsplit := List.length_eq_length_filter_add
    (l := (c.settled members answer).1.directory.holdings) c.directory.holdings.contains
  rw [hkept.length_eq] at hsplit
  omega

/-! ### Nothing to repair -/

/-- Only members are holders, and a version that has holders has as many as there can be. -/
def Whole (c : Coordinator) (members : List Member) : Prop :=
  ∀ file v holders, c.directory.holders? file v = some holders →
    (∀ m ∈ holders, m ∈ members) ∧
      (holders.isEmpty ∨ min c.placement.factor members.length ≤ holders.size)

theorem staying_of_subset {held : MemberSet} (h : ∀ m ∈ held, m ∈ members) :
    staying members held = held :=
  Std.ExtTreeSet.ext_mem fun m => mem_filter_iff.trans
    (and_iff_left_of_imp fun hm => List.contains_iff_mem.mpr (h m hm))

theorem planRepair_of_whole (hmembers : members.Nodup) (hwhole : c.Whole members) :
    c.planRepair members = (c, 0, []) := by
  have hdirectory : (c.planRepair members).1 = c := by
    refine eq_of_directory rfl (Directory.ext_holders? (fun _ => Directory.highest?_prune)
      fun file v => ?_)
    cases hv : c.directory.holders? file v with
    | none => rw [planRepair_directory, Directory.holders?_prune, hv, Option.map_none]
    | some held => rw [holders?_planned hv, staying_of_subset (hwhole file v held hv).1]
  have hpruned : (c.planRepair members).2.1 = 0 := by
    change (c.directory.prune (members.contains ·)).2 = 0
    rw [Directory.prune_count, List.length_eq_zero_iff, List.filter_eq_nil_iff]
    rintro ⟨file, v, m⟩ hm
    obtain ⟨holders, hv, hm⟩ := Directory.holds_iff_holders?.mp (Directory.mem_holdings.mp hm)
    rw [Bool.not_eq_true', Bool.not_eq_false, List.contains_iff_mem]
    exact (hwhole file v holders hv).1 m hm
  have hordered : (c.planRepair members).2.2 = [] := by
    rw [← List.length_eq_zero_iff, length_planRepair hmembers]
    refine List.sum_eq_zero fun n hn => ?_
    obtain ⟨⟨file, v, held⟩, hentry, rfl⟩ := List.mem_map.mp hn
    obtain ⟨hstay, henough⟩ := hwhole file v held (Directory.mem_entries.mp hentry)
    rw [Std.ExtTreeSet.isEmpty_eq_size_beq_zero, beq_iff_eq] at henough
    dsimp only
    rw [staying_of_subset hstay, Placement.shortfall]
    split <;> omega
  exact Prod.ext hdirectory (Prod.ext hpruned hordered)

theorem repair_of_whole (hmembers : members.Nodup) (hwhole : c.Whole members)
    (network : StoreNetwork Id) : c.repair network members = (c, {}) := by
  rw [repair_eq, settled, planRepair_of_whole hmembers hwhole]
  rfl

/-- A pass in which all copies are made leaves nothing to repair. -/
theorem whole_settled (hmembers : members.Nodup)
    (hcopied : ∀ o ∈ (c.planRepair members).2.2, Copied (answer o)) :
    (c.settled members answer).1.Whole members := by
  intro file v holders hv
  have hlisted : ((c.settled members answer).1.directory.holders? file v).isSome = _ :=
    isSome_holders?_settled
  rw [hv, Option.isSome_some] at hlisted
  obtain ⟨held, hheld⟩ := Option.isSome_iff_exists.mp hlisted.symm
  obtain ⟨_, hsettled, hrepaired⟩ := exists_repaired hmembers hheld
  cases hv.symm.trans hsettled
  refine ⟨hrepaired.among, ?_⟩
  rw [placement_settled]
  by_cases hlacks : (staying members held).isEmpty = false ∧
      (staying members held).size < c.placement.factor
  · exact .inr (Nat.le_of_eq
      (hrepaired.exactly hlacks.1 hlacks.2 fun o ho _ _ => hcopied o ho).symm)
  · rw [not_and_or, Bool.not_eq_false, Nat.not_lt] at hlacks
    rw [hrepaired.pruned hlacks]
    exact hlacks.imp_right (Nat.le_trans (Nat.min_le_left _ _))

/-- **What a repair pass does**, whatever the directory, whichever members are chosen as targets and
whatever they answer. Versions are repaired as `Repaired` says; none is lost or listed anew, and no
number is given. The report counts the holders that were dropped, the copies that were missing and
could be ordered, and the holders that are new. Each order is given once, and it does not matter in
which order they end. If all copies are made, another pass finds nothing to do. -/
theorem repair_pass (c : Coordinator) (hmembers : members.Nodup) (network : StoreNetwork Id) :
    let orders := (c.planRepair members).2.2
    let after := (c.repair network members).1
    let report := (c.repair network members).2
    let d := c.directory
    let d' := after.directory
    (∀ file v held, d.holders? file v = some held → ∃ holders,
      d'.holders? file v = some holders ∧ Repaired c members network.copy file v held holders) ∧
    (∀ file v, d.holders? file v = none → d'.holders? file v = none) ∧
    (∀ file, d'.highest? file = d.highest? file) ∧
    report.pruned = (d.holdings.filter (!d'.holdings.contains ·)).length ∧
    report.ordered = (d.entries.map fun (_, _, held) =>
      c.placement.shortfall members.length (staying members held).size).sum ∧
    report.added = (d'.holdings.filter (!d.holdings.contains ·)).length ∧
    (orders.Nodup ∧ report.ordered = orders.length ∧
      ∀ completed : List CopyOrder, completed.Perm orders →
        (c.planRepair members).1.settle (completed.map fun o => (o, network.copy o)) =
          (after, report.added)) ∧
    ((∀ o ∈ orders, Copied (network.copy o)) →
      ∀ later : StoreNetwork Id, after.repair later members = (after, {})) := by
  rw [repair_eq]
  refine ⟨fun file v held hv => exists_repaired hmembers hv, fun file v hv => ?_, fun file => ?_,
    pruned_eq, length_planRepair hmembers, added_eq,
    ⟨nodup_planRepair hmembers, rfl, fun completed hcompleted => settle_perm (hcompleted.map _)⟩,
    fun hcopied later => repair_of_whole hmembers (whole_settled hmembers hcopied) later⟩
  · rw [← Option.isNone_iff_eq_none, ← Option.not_isSome, isSome_holders?_settled, hv]
    rfl
  · rw [settled, ((c.planRepair members).1.settle_settles _).highest, planRepair_directory,
      Directory.highest?_prune]

/-- One of two holders has left, and was the only one of another version. The first version gets a
new holder, the second stays without. -/
theorem repair_pass_of_departed :
    let a : Member := ⟨"a", 1, 1⟩
    let b : Member := ⟨"b", 1, 1⟩
    let gone : Member := ⟨"c", 1, 1⟩
    let c : Coordinator :=
      { placement := { factor := 2 }
        directory := .rebuild [(a, .ofList ["a_1.txt"]), (gone, .ofList ["a_1.txt", "a_2.txt"])] }
    let network : StoreNetwork Id := ⟨fun _ => none, fun _ => some .fileExists⟩
    let after := (c.repair network [a, b]).1
    [a, b].Nodup ∧ (c.repair network [a, b]).2 = { pruned := 2, ordered := 1, added := 1 } ∧
      (∃ holders, after.directory.holders? "a.txt" 1 = some holders ∧ holders.size = 2) ∧
      after.directory.holders? "a.txt" 2 = some ∅ ∧
      ∀ later : StoreNetwork Id, after.repair later [a, b] = (after, {}) := by
  intro a b gone c network after
  have hmembers : [a, b].Nodup := by decide
  obtain ⟨hrepaired, -, -, -, -, -, -, hagain⟩ := repair_pass c hmembers network
  have hcopied : ∀ o ∈ (c.planRepair [a, b]).2.2, Copied (network.copy o) := fun _ _ => .inr rfl
  obtain ⟨holders, hholders, hversion⟩ :=
    hrepaired "a.txt" 1 (.ofList [a, gone]) (by decide +kernel)
  have hexactly := hversion.exactly (by decide +kernel) (by decide +kernel) fun o ho _ _ =>
    hcopied o ho
  exact ⟨hmembers, by decide +kernel, ⟨holders, hholders, hexactly⟩, by decide +kernel,
    hagain hcopied⟩

end Coordinator

end ReplicaRing
