import Mathlib.Data.List.Induction
import ReplicaRing.Proofs.Directory.Versions

/-!
# What becomes of a version

To one version of a file, what happens to a directory comes down to four kinds of events: the
version is created with some holders, it is dropped, a member joins its holders, or the holders are
pruned. The chronicle of a version lists these events in order, recovery first. What the directory
lists at the end can be read off the chronicle: a version is there if it was created and not dropped
since, and its holders are those of its creation and those that joined while there was one, as far
as every later pruning kept them.
-/
namespace ReplicaRing

/-- What can happen to a version of a file. -/
inductive VersionEvent
  | created (holders : MemberSet)
  | dropped
  | joined (m : Member)
  | pruned (keep : Member → Bool)

namespace VersionEvent

variable {origin holders : MemberSet} {late chronicle : List VersionEvent} {e : VersionEvent}
  {m : Member}

/-- It is the same version before and after. -/
def continues : VersionEvent → Bool
  | created _ | dropped => false
  | joined _ | pruned _ => true

/-- The last creation of a version, which was not dropped since: its holders at first, and what
happened later. -/
def LastCreated (chronicle : List VersionEvent) (origin : MemberSet) (late : List VersionEvent) :
    Prop :=
  (∃ early, chronicle = early ++ created origin :: late) ∧ ∀ e ∈ late, e.continues

/-- A member that was among the holders at first, or joined them while there was one, and that every
later pruning kept. -/
inductive Held (origin : MemberSet) : List VersionEvent → Member → Prop
  | first {late : List VersionEvent} {m : Member} (there : m ∈ origin)
      (kept : ∀ keep, pruned keep ∈ late → keep m = true) : Held origin late m
  | later {mid last : List VersionEvent} {m k : Member} (beside : Held origin mid k)
      (kept : ∀ keep, pruned keep ∈ last → keep m = true) :
      Held origin (mid ++ joined m :: last) m

/-- What an event makes of the holders of a version, if it is listed. -/
def apply : VersionEvent → Option MemberSet → Option MemberSet
  | created holders, _ => some holders
  | dropped, _ => none
  | joined m, now => now.map fun holders => if holders.isEmpty then holders else holders.insert m
  | pruned keep, now => now.map (·.filter keep)

/-- What there is in the end of a version that was not there at first. -/
def outcome (chronicle : List VersionEvent) : Option MemberSet :=
  chronicle.foldl (fun now e => e.apply now) none

theorem not_lastCreated_nil : ¬ LastCreated [] origin late := fun ⟨⟨_, h⟩, _⟩ =>
  List.append_ne_nil_of_right_ne_nil _ (List.cons_ne_nil _ _) h.symm

/-- One event more is a creation, or continues what was created before. -/
theorem lastCreated_concat :
    LastCreated (chronicle ++ [e]) origin late ↔
      e = created origin ∧ late = [] ∨
        e.continues ∧ ∃ before, late = before ++ [e] ∧ LastCreated chronicle origin before := by
  constructor
  · rintro ⟨⟨early, h⟩, hlate⟩
    obtain rfl | ⟨before, last, rfl⟩ := late.eq_nil_or_concat
    · obtain ⟨-, he⟩ := List.append_inj' h rfl
      exact .inl ⟨List.singleton_inj.mp he, rfl⟩
    · rw [List.concat_eq_append] at h hlate ⊢
      rw [← List.cons_append, ← List.append_assoc] at h
      obtain ⟨rfl, he⟩ := List.append_inj' h rfl
      cases List.singleton_inj.mp he
      refine .inr ⟨hlate e (by simp), before, rfl, ⟨early, rfl⟩, fun e' he' => ?_⟩
      exact hlate e' (by simp [he'])
  · rintro (⟨rfl, rfl⟩ | ⟨hcontinues, before, rfl, ⟨early, rfl⟩, hbefore⟩)
    · exact ⟨⟨chronicle, rfl⟩, fun _ h => absurd h List.not_mem_nil⟩
    · refine ⟨⟨early, by simp⟩, fun e' he' => ?_⟩
      obtain he' | he' := List.mem_append.mp he'
      · exact hbefore e' he'
      · exact List.mem_singleton.mp he' ▸ hcontinues

theorem held_nil : Held origin [] m ↔ m ∈ origin := by
  constructor
  · generalize hlate : ([] : List VersionEvent) = late
    rintro (⟨there, -⟩ | -)
    · exact there
    · exact absurd hlate.symm (List.append_ne_nil_of_right_ne_nil _ (List.cons_ne_nil _ _))
  · exact fun hm => .first hm fun _ h => absurd h List.not_mem_nil

/-- Whoever is held after one event more was held before and is not pruned, or joins. -/
theorem held_concat :
    Held origin (late ++ [e]) m ↔
      Held origin late m ∧ (∀ keep, e = pruned keep → keep m = true) ∨
        e = joined m ∧ ∃ k, Held origin late k := by
  have hkept {late : List VersionEvent} :
      (∀ keep, pruned keep ∈ late ++ [e] → keep m = true) ↔
        (∀ keep, pruned keep ∈ late → keep m = true) ∧
          ∀ keep, e = pruned keep → keep m = true := by
    simp only [List.mem_append, List.mem_singleton, or_imp, forall_and, eq_comm]
  constructor
  · generalize hlater : late ++ [e] = later
    rintro (⟨there, kept⟩ | ⟨beside, kept⟩)
    · subst hlater
      exact .inl ⟨.first there (hkept.mp kept).1, (hkept.mp kept).2⟩
    · rename_i mid last k
      obtain rfl | ⟨last, e', rfl⟩ := last.eq_nil_or_concat
      · obtain ⟨rfl, he⟩ := List.append_inj' hlater rfl
        exact .inr ⟨List.singleton_inj.mp he, k, beside⟩
      · rw [List.concat_eq_append] at hlater kept
        rw [← List.cons_append, ← List.append_assoc] at hlater
        obtain ⟨rfl, he⟩ := List.append_inj' hlater rfl
        cases List.singleton_inj.mp he
        exact .inl ⟨.later beside (hkept.mp kept).1, (hkept.mp kept).2⟩
  · rintro (⟨held, hnew⟩ | ⟨rfl, k, held⟩)
    · cases held with
      | first there kept => exact .first there (hkept.mpr ⟨kept, hnew⟩)
      | later beside kept =>
        rw [List.append_assoc, List.cons_append]
        exact .later beside (hkept.mpr ⟨kept, hnew⟩)
    · exact .later held fun _ h => absurd h List.not_mem_nil

theorem outcome_concat : outcome (chronicle ++ [e]) = e.apply (outcome chronicle) :=
  List.foldl_append

/-- What was created last is there, with those who are still held. -/
theorem outcome_of_lastCreated (h : LastCreated chronicle origin late) :
    ∃ holders, outcome chronicle = some holders ∧ ∀ m, m ∈ holders ↔ Held origin late m := by
  induction chronicle using List.reverseRecOn generalizing late with
  | nil => exact absurd h not_lastCreated_nil
  | append_singleton chronicle e ih =>
    rw [outcome_concat]
    obtain ⟨rfl, rfl⟩ | ⟨hcontinues, before, rfl, hbefore⟩ := lastCreated_concat.mp h
    · exact ⟨origin, rfl, fun m => held_nil.symm⟩
    · obtain ⟨holders, hholders, hmem⟩ := ih hbefore
      rw [hholders]
      cases e with
      | created _ => cases hcontinues
      | dropped => cases hcontinues
      | joined n =>
        refine ⟨_, rfl, fun m => ?_⟩
        rw [held_concat, ← hmem]
        simp only [← hmem, reduceCtorEq, false_imp_iff, implies_true, and_true, joined.injEq]
        split
        · rename_i hempty
          rw [Std.ExtTreeSet.isEmpty_iff] at hempty
          subst hempty
          simp only [Std.ExtTreeSet.not_mem_empty, exists_false, and_false, or_false]
        · rename_i hheld
          rw [mem_insert_iff, and_iff_left (exists_mem_of_isEmpty (Bool.eq_false_iff.mpr hheld)),
            or_comm]
      | pruned keep =>
        refine ⟨_, rfl, fun m => ?_⟩
        rw [mem_filter_iff, held_concat, ← hmem]
        simp only [pruned.injEq, forall_eq', reduceCtorEq, false_and, or_false]

/-- What is there has been created, and not dropped since. -/
theorem exists_lastCreated (h : (outcome chronicle).isSome) :
    ∃ origin late, LastCreated chronicle origin late := by
  induction chronicle using List.reverseRecOn with
  | nil => cases h
  | append_singleton chronicle e ih =>
    rw [outcome_concat] at h
    have hcontinues (hcontinues : e.continues) (hbefore : (outcome chronicle).isSome) :
        ∃ origin late, LastCreated (chronicle ++ [e]) origin late := by
      obtain ⟨origin, late, hlast⟩ := ih hbefore
      exact ⟨origin, late ++ [e], lastCreated_concat.mpr (.inr ⟨hcontinues, late, rfl, hlast⟩)⟩
    cases e with
    | created holders => exact ⟨holders, [], lastCreated_concat.mpr (.inl ⟨rfl, rfl⟩)⟩
    | dropped => cases h
    | joined m => exact hcontinues rfl (Option.isSome_map.symm.trans h)
    | pruned keep => exact hcontinues rfl (Option.isSome_map.symm.trans h)

end VersionEvent

namespace Directory

open VersionEvent

variable {d : Directory} {file : String} {v : UInt64} {m : Member} {op : Operation}
  {ops : List Operation} {catalogs : List (Member × NameSet)}

/-- What an operation is for a version of a file. -/
def event? (d : Directory) (file : String) (v : UInt64) : Operation → Option VersionEvent
  | .reserve f => if f = file ∧ (d.reserve f).2 = v then some (.created ∅) else none
  | .confirm f w holders =>
    if f = file ∧ w = v then some (if holders.isEmpty then .dropped else .created holders) else none
  | .abandon f w => if f = file ∧ w = v then some .dropped else none
  | .addHolder f w m => if f = file ∧ w = v then some (.joined m) else none
  | .prune keep => some (.pruned keep)
  | .remove f => if f = file then some .dropped else none

/-- What a run is for a version of a file. -/
def events (d : Directory) (file : String) (v : UInt64) : List Operation → List VersionEvent
  | [] => []
  | op :: ops => (d.event? file v op).toList ++ (d.apply op).events file v ops

/-- The members whose catalogs have a version of a file. -/
def listers (catalogs : List (Member × NameSet)) (file : String) (v : UInt64) : MemberSet :=
  .ofList ((catalogs.filter fun (_, names) =>
    names.toList.any fun name => StoredName.parse? name = some (file, v)).map (·.1)) compare

/-- All that happens to a version of a file, from the recovery of the directory on. -/
def chronicle (catalogs : List (Member × NameSet)) (file : String) (v : UInt64)
    (ops : List Operation) : List VersionEvent :=
  (if (listers catalogs file v).isEmpty then [] else [created (listers catalogs file v)]) ++
    (rebuild catalogs).events file v ops

/-- Whether an operation says who holds a version. -/
def Operation.Confirms (file : String) (v : UInt64) : Operation → Prop
  | confirm f w holders => f = file ∧ w = v ∧ holders.isEmpty = false
  | _ => False

/-- An operation does to a version what its event says, and nothing if it has none. -/
theorem holders?_apply (d : Directory) (file : String) (v : UInt64) (op : Operation) :
    (d.apply op).holders? file v =
      (d.event? file v op).elim (d.holders? file v) (·.apply (d.holders? file v)) := by
  cases op with
  | reserve f => rw [apply, holders?_reserve, event?]; split <;> rfl
  | confirm f w holders =>
    rw [apply, holders?_confirm, event?]
    split
    · cases holders.isEmpty <;> rfl
    · rfl
  | abandon f w => rw [apply, holders?_abandon, event?]; split <;> rfl
  | addHolder f w m => rw [apply, holders?_addHolder, event?]; split <;> rfl
  | prune keep => exact holders?_prune
  | remove f => rw [apply, holders?_remove, event?]; split <;> rfl

theorem holders?_run (d : Directory) (file : String) (v : UInt64) (ops : List Operation) :
    (d.run ops).holders? file v =
      (d.events file v ops).foldl (fun now e => e.apply now) (d.holders? file v) := by
  induction ops generalizing d with
  | nil => rfl
  | cons op ops ih =>
    rw [run_cons, ih, holders?_apply, events, List.foldl_append]
    cases d.event? file v op <;> rfl

theorem mem_listers : m ∈ listers catalogs file v ↔ Listed catalogs file v m := by
  simp only [listers, Listed, Std.ExtTreeSet.mem_ofList, List.contains_iff_mem, List.mem_map,
    List.mem_filter, List.any_eq_true, Std.ExtTreeSet.mem_toList, decide_eq_true_eq, Prod.exists,
    exists_and_right, exists_eq_right]

/-- A version is recovered with those who have it in their catalogs, if there is one. -/
theorem holders?_rebuild (catalogs : List (Member × NameSet)) (file : String) (v : UInt64) :
    (rebuild catalogs).holders? file v =
      if (listers catalogs file v).isEmpty then none else some (listers catalogs file v) := by
  have hrecords := records_rebuild catalogs
  have hholds (m : Member) :
      (rebuild catalogs).Holds file v m ↔ m ∈ listers catalogs file v :=
    (hrecords.holds file v m).trans mem_listers.symm
  cases hv : (rebuild catalogs).holders? file v with
  | none =>
    refine (if_pos ?_).symm
    by_contra hheld
    obtain ⟨m, hm⟩ := exists_mem_of_isEmpty (Bool.eq_false_iff.mpr hheld)
    obtain ⟨holders, hsome, -⟩ := holds_iff_holders?.mp ((hholds m).mpr hm)
    cases hv.symm.trans hsome
  | some holders =>
    have hsame : holders = listers catalogs file v := by
      refine Std.ExtTreeSet.ext_mem fun m => ?_
      rw [← hholds, holds_iff_holders?, hv]
      simp only [Option.some.injEq, exists_eq_left']
    obtain ⟨r, hr, hversion⟩ := Option.bind_eq_some_iff.mp (holders?_eq _ file v ▸ hv)
    obtain ⟨m, hm⟩ := hrecords.confirmed file r hr v holders hversion
    rw [← hsame, isEmpty_of_mem hm, if_neg Bool.false_ne_true]

/-- What a directory lists is what its chronicle comes to. -/
theorem holders?_eq_outcome (catalogs : List (Member × NameSet)) (file : String) (v : UInt64)
    (ops : List Operation) :
    ((rebuild catalogs).run ops).holders? file v = outcome (chronicle catalogs file v ops) := by
  rw [holders?_run, holders?_rebuild, outcome, chronicle, List.foldl_append]
  split <;> rfl

/-- Only a confirmation gives a holder to a version that has none. -/
theorem exists_holds_of_apply (hop : ¬ op.Confirms file v)
    (h : ∃ m, (d.apply op).Holds file v m) : ∃ m, d.Holds file v m := by
  obtain ⟨m, hm⟩ := h
  obtain hm' | hadds := holds_of_apply op hm
  · exact ⟨m, hm'⟩
  · cases op with
    | confirm f w holders =>
      obtain ⟨hf, hv, hmem⟩ := hadds
      exact absurd ⟨hf, hv, isEmpty_of_mem hmem⟩ hop
    | addHolder f w n => exact exists_holds_of_addHolder hm
    | _ => cases hadds

theorem exists_holds_of_run (hops : ∀ op ∈ ops, ¬ op.Confirms file v)
    (h : ∃ m, (d.run ops).Holds file v m) : ∃ m, d.Holds file v m := by
  induction ops generalizing d with
  | nil => exact h
  | cons op ops ih =>
    rw [List.forall_mem_cons] at hops
    exact exists_holds_of_apply hops.1 (ih hops.2 h)

/-- **What a directory lists is what has happened.** A version of a file is listed just if it was
created, by recovery, reservation or confirmation, and was not dropped since. Its holders are those
of its last creation and those that joined while it had one, as far as every later pruning kept
them. A version without holders gets none again but by a confirmation. The latest version is the
largest one that has holders, with its holders in ascending order, and there is none just if no
version has holders. An operation that is nothing to a version leaves it as it is. -/
theorem directory_follows_history (catalogs : List (Member × NameSet)) (ops : List Operation)
    (file : String) :
    let d := (rebuild catalogs).run ops
    (∀ v, (d.holders? file v).isSome ↔
      ∃ origin late, LastCreated (chronicle catalogs file v ops) origin late) ∧
    (∀ v origin late, LastCreated (chronicle catalogs file v ops) origin late →
      ∃ holders, d.holders? file v = some holders ∧ ∀ m, m ∈ holders ↔ Held origin late m) ∧
    (∀ v first rest, ops = first ++ rest → (∀ op ∈ rest, ¬ op.Confirms file v) →
      (¬ ∃ m, ((rebuild catalogs).run first).Holds file v m) → ¬ ∃ m, d.Holds file v m) ∧
    (∀ v holders, d.latest? file = some (v, holders) ↔
      d.holders? file v = some holders ∧ holders.isEmpty = false ∧
        ∀ (w : UInt64) (found : MemberSet), d.holders? file w = some found →
          found.isEmpty = false → w ≤ v) ∧
    (∀ v holders, d.latest? file = some (v, holders) → holders.toList.Pairwise (· < ·)) ∧
    (d.latest? file = none ↔ ∀ v m, ¬ d.Holds file v m) ∧
    ∀ v op, d.event? file v op = none → (d.apply op).holders? file v = d.holders? file v := by
  intro d
  have houtcome (v : UInt64) : d.holders? file v = outcome (chronicle catalogs file v ops) :=
    holders?_eq_outcome catalogs file v ops
  refine ⟨fun v => ?_, fun v origin late hlast => ?_, fun v first rest hops hconfirms hnone => ?_,
    fun v holders => latest?_eq_some_iff, fun v holders _ => ?_, latest?_eq_none_iff,
    fun v op hnone => ?_⟩
  · rw [houtcome]
    refine ⟨exists_lastCreated, fun ⟨origin, late, hlast⟩ => ?_⟩
    obtain ⟨holders, hholders, -⟩ := outcome_of_lastCreated hlast
    rw [hholders, Option.isSome_some]
  · rw [houtcome]
    exact outcome_of_lastCreated hlast
  · intro hheld
    refine hnone (exists_holds_of_run hconfirms ?_)
    rwa [← run_append, ← hops]
  · exact Std.ExtTreeSet.ordered_toList
  · rw [holders?_apply, hnone, Option.elim_none]

/-- A recovered version loses its last holder. It stays, and nobody joins it or the one that is
reserved next. -/
theorem directory_follows_history_of_emptied :
    let m : Member := ⟨"a", 1, 1⟩
    let catalogs : List (Member × NameSet) := [(m, .ofList ["a_1.txt"])]
    let ops : List Operation := [.prune fun _ => false, .addHolder "a.txt" 1 m, .reserve "a.txt",
      .addHolder "a.txt" 2 m]
    let d := (rebuild catalogs).run ops
    (rebuild catalogs).Holds "a.txt" 1 m ∧
      (∃ origin late, LastCreated (chronicle catalogs "a.txt" 1 ops) origin late) ∧
      (¬ ∃ m, d.Holds "a.txt" 1 m) ∧ d.latest? "a.txt" = none ∧ ∀ v m, ¬ d.Holds "a.txt" v m := by
  intro m catalogs ops d
  obtain ⟨hlisted, -, hempty, -, -, hnone, -⟩ := directory_follows_history catalogs ops "a.txt"
  have hlatest : d.latest? "a.txt" = none := by decide +kernel
  have hpruned : ¬ ∃ m, ((rebuild catalogs).run (ops.take 1)).Holds "a.txt" 1 m := by
    rintro ⟨n, hn⟩
    exact latest?_eq_none_iff.mp (by decide +kernel) 1 n hn
  refine ⟨holds_iff_holders?.mpr ⟨.ofList [m], by decide +kernel, by decide +kernel⟩,
    (hlisted 1).mp (by decide +kernel), hempty 1 (ops.take 1) (ops.drop 1) rfl ?_ hpruned, hlatest,
    hnone.mp hlatest⟩
  intro op hop
  simp only [ops, List.drop_succ_cons, List.drop_zero, List.mem_cons, List.not_mem_nil,
    or_false] at hop
  obtain rfl | rfl | rfl := hop <;> exact id

end Directory

end ReplicaRing
