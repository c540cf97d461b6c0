import Mathlib.Data.List.DropRight
import Mathlib.Data.Set.Insert
import ReplicaRing.Proofs.Session.InitialRing

/-!
# What changes make of a ring

A ring begins with its owner alone or with a snapshot of another ring. From then on members come and
go and coordinators are recorded, as far as the ring accepts that. What it comes to can be read off
the changes that it accepted: the members are those at first, with every one that came and without
every one that went, and the coordinator is the last one on record, unless it went since.
-/
namespace ReplicaRing

namespace Ring

variable {r r' : Ring} {owner m k : Member} {s t : Snapshot}

theorem ext_members (howner : r.owner = r'.owner) (hmem : ∀ k, k ∈ r.members ↔ k ∈ r'.members)
    (hcoordinator : r.coordinator = r'.coordinator) : r = r' := by
  cases r
  cases r'
  cases howner
  cases hcoordinator
  cases Std.ExtTreeSet.ext_mem hmem
  rfl

/-! ### The ring at first -/

/-- The ring that `owner` begins with: alone, or with a snapshot. -/
def begun (owner : Member) : Option Snapshot → Ring
  | none => alone owner
  | some s => ofSnapshot owner s

theorem toList_alone (owner : Member) : (alone owner).toList = [owner] := by
  have hmem (k : Member) : k ∈ (alone owner).toList ↔ k = owner :=
    mem_toList.trans mem_alone
  refine List.perm_singleton.mp ((List.perm_ext_iff_of_nodup (nodup_toList _) (by simp)).mpr ?_)
  intro k
  rw [List.mem_singleton]
  exact hmem k

theorem mem_ofSnapshot :
    k ∈ (ofSnapshot owner s).members ↔
      k = owner ∨ k ∈ s.members ∧ k.endpoint ≠ owner.endpoint := by
  rw [(ofSnapshot_spec owner s).2.1, Member.sameEndpoint, beq_iff_eq, or_comm]
  by_cases hk : k = owner
  · simp only [hk, true_or]
  · simp only [hk, false_or, ne_eq, not_false_eq_true, and_true]

theorem ofSnapshot_coordinator :
    (ofSnapshot owner s).coordinator = some k ↔
      s.coordinator = some k ∧ k ∈ (ofSnapshot owner s).members := by
  rw [(ofSnapshot_spec owner s).2.2, Option.filter_eq_some_iff, decide_eq_true_eq]

/-- Order and repetition in a snapshot do not matter. -/
theorem ofSnapshot_congr (hmem : ∀ m, m ∈ s.members ↔ m ∈ t.members)
    (hcoordinator : s.coordinator = t.coordinator) : ofSnapshot owner s = ofSnapshot owner t := by
  have hmembers (k : Member) :
      k ∈ (ofSnapshot owner s).members ↔ k ∈ (ofSnapshot owner t).members := by
    rw [mem_ofSnapshot, mem_ofSnapshot, hmem]
  refine ext_members ?_ hmembers (Option.ext fun c => ?_)
  · rw [(ofSnapshot_spec owner s).1, (ofSnapshot_spec owner t).1]
  · rw [ofSnapshot_coordinator, ofSnapshot_coordinator, hcoordinator, hmembers]

/-! ### One change -/

/-- What is done to a ring. -/
inductive Change
  | add (m : Member)
  | remove (m : Member)
  | setCoordinator (m : Member)
deriving DecidableEq, Repr

/-- What is left of a ring, and whether it accepted the change. -/
def apply (r : Ring) : Change → Ring × Bool
  | .add m => r.add m
  | .remove m => r.remove m
  | .setCoordinator m => r.setCoordinator m

namespace Change

/-- A change of the members shows in other members, and a coordinator on record. -/
def Shows (before after : Ring) : Change → Prop
  | add _ | remove _ => after.members ≠ before.members
  | setCoordinator m => after.coordinator = some m

/-- What an accepted change makes of the members. -/
def onMembers (S : Set Member) : Change → Set Member
  | add m => insert m S
  | remove m => S \ {m}
  | setCoordinator _ => S

/-- The coordinator that a change records. -/
def recorded? : Change → Option Member
  | setCoordinator m => some m
  | add _ | remove _ => none

end Change

/-- The owner and the coordinator are among the members. -/
structure Coherent (r : Ring) : Prop where
  owner : r.owner ∈ r.members
  coordinator : ∀ c, r.coordinator = some c → c ∈ r.members

variable {c : Change}

theorem coherent_begun (owner : Member) (start : Option Snapshot) :
    (begun owner start).Coherent := by
  cases start with
  | none => exact ⟨mem_alone.mpr rfl, nofun⟩
  | some s =>
    refine ⟨?_, fun c hc => (ofSnapshot_coordinator.mp hc).2⟩
    rw [begun, (ofSnapshot_spec owner s).1, mem_ofSnapshot]
    exact .inl rfl

theorem begun_owner (owner : Member) (start : Option Snapshot) :
    (begun owner start).owner = owner := by
  cases start with
  | none => rfl
  | some s => exact (ofSnapshot_spec owner s).1

theorem apply_owner (r : Ring) (c : Change) : (r.apply c).1.owner = r.owner := by
  cases c with
  | add m => rfl
  | remove m => exact remove_owner r m
  | setCoordinator m => exact setCoordinator_owner r m

theorem Coherent.apply (h : r.Coherent) (c : Change) : (r.apply c).1.Coherent := by
  cases c with
  | add m => exact ⟨mem_add.mpr (.inr h.owner), fun c hc => mem_add.mpr (.inr (h.coordinator c hc))⟩
  | remove m =>
    by_cases hm : m = r.owner
    · rw [Ring.apply, remove, if_pos hm]
      exact h
    · refine ⟨?_, fun c hc => ?_⟩
      · rw [apply_owner]
        exact (mem_remove hm).mpr ⟨Ne.symm hm, h.owner⟩
      · rw [Ring.apply, remove_coordinator hm] at hc
        split at hc
        · cases hc
        · rename_i hother
          exact (mem_remove hm).mpr ⟨fun heq => hother (heq ▸ hc), h.coordinator c hc⟩
  | setCoordinator m =>
    by_cases hm : m ∈ r.members
    · rw [Ring.apply, setCoordinator_of_mem hm]
      exact ⟨h.owner, fun c hc => Option.some.inj hc ▸ hm⟩
    · rw [Ring.apply, setCoordinator_of_not_mem hm]
      exact h

theorem add_accepted : (r.add m).2 = true ↔ m ∉ r.members := not_contains_iff

theorem remove_accepted : (r.remove m).2 = true ↔ m ≠ r.owner ∧ m ∈ r.members := by
  unfold remove
  split
  · rename_i hm
    simp only [Bool.false_eq_true, hm, ne_eq, not_true_eq_false, false_and]
  · rename_i hm
    exact (and_iff_right hm).symm

theorem setCoordinator_accepted : (r.setCoordinator m).2 = true ↔ m ∈ r.members := by
  by_cases hm : m ∈ r.members
  · simp only [setCoordinator_of_mem hm, hm]
  · simp only [setCoordinator_of_not_mem hm, hm, Bool.false_eq_true]

/-- A change that is not accepted leaves the ring as it is. -/
theorem Coherent.apply_of_refused (h : r.Coherent) (hc : (r.apply c).2 = false) :
    (r.apply c).1 = r := by
  rw [← Bool.not_eq_true] at hc
  cases c with
  | add m =>
    have hm : m ∈ r.members := not_not.mp (mt add_accepted.mpr hc)
    refine ext_members rfl (fun k => mem_add.trans (or_iff_right_of_imp ?_)) rfl
    rintro rfl
    exact hm
  | remove m =>
    by_cases hm : m = r.owner
    · rw [Ring.apply, remove, if_pos hm]
    · have hmem : m ∉ r.members := fun hmem => hc (remove_accepted.mpr ⟨hm, hmem⟩)
      exact remove_of_not_mem hmem fun hco => hmem (h.coordinator m hco)
  | setCoordinator m =>
    rw [Ring.apply, setCoordinator_of_not_mem (mt setCoordinator_accepted.mpr hc)]

/-- A change is accepted just if it shows. -/
theorem Coherent.accepted_iff (h : r.Coherent) (c : Change) :
    (r.apply c).2 = true ↔ c.Shows r (r.apply c).1 := by
  constructor
  · intro hc
    cases c with
    | add m =>
      intro hsame
      exact add_accepted.mp hc (hsame ▸ mem_add.mpr (.inl rfl))
    | remove m =>
      intro hsame
      obtain ⟨hm, hmem⟩ := remove_accepted.mp hc
      exact ((mem_remove hm).mp (hsame ▸ hmem)).1 rfl
    | setCoordinator m =>
      rw [Ring.apply, setCoordinator_of_mem (setCoordinator_accepted.mp hc)]
      rfl
  · intro hshows
    by_contra hc
    have hsame := h.apply_of_refused (Bool.not_eq_true _ ▸ hc)
    cases c with
    | add m => exact hshows (congrArg members hsame)
    | remove m => exact hshows (congrArg members hsame)
    | setCoordinator m =>
      rw [Change.Shows, hsame] at hshows
      exact hc (setCoordinator_accepted.mpr (h.coordinator m hshows))

theorem members_of_accepted (hc : (r.apply c).2 = true) :
    {k | k ∈ (r.apply c).1.members} = c.onMembers {k | k ∈ r.members} := by
  ext k
  cases c with
  | add m => exact mem_add
  | remove m =>
    obtain ⟨hm, -⟩ := remove_accepted.mp hc
    exact (mem_remove hm).trans and_comm
  | setCoordinator m =>
    change k ∈ (r.setCoordinator m).1.members ↔ k ∈ r.members
    rw [setCoordinator_members]

/-! ### A history -/

def run (r : Ring) (changes : List Change) : Ring := changes.foldl (fun r c => (r.apply c).1) r

/-- The changes that a ring accepts, one after the other. -/
def accepted (r : Ring) : List Change → List Change
  | [] => []
  | c :: changes =>
    if (r.apply c).2 then c :: (r.apply c).1.accepted changes else (r.apply c).1.accepted changes

/-- The coordinator that was recorded last, `first` being on record at first. -/
def lastRecorded (first : Option Member) (done : List Change) : Option Member :=
  (done.filterMap Change.recorded?).getLast?.or first

/-- What was done since a coordinator was recorded last, or from the beginning. -/
def sinceRecorded (done : List Change) : List Change :=
  done.rtakeWhile fun c => c.recorded?.isNone

variable {changes : List Change}

theorem run_concat (r : Ring) (changes : List Change) (c : Change) :
    r.run (changes ++ [c]) = ((r.run changes).apply c).1 := List.foldl_append

theorem accepted_concat (r : Ring) (changes : List Change) (c : Change) :
    r.accepted (changes ++ [c]) =
      r.accepted changes ++ if ((r.run changes).apply c).2 then [c] else [] := by
  induction changes generalizing r with
  | nil => rfl
  | cons d changes ih =>
    simp only [List.cons_append, accepted, ih]
    split
    · rfl
    · rfl

theorem run_owner (r : Ring) (changes : List Change) : (r.run changes).owner = r.owner := by
  induction changes using List.reverseRecOn with
  | nil => rfl
  | append_singleton changes c ih => rw [run_concat, apply_owner, ih]

theorem Coherent.run (h : r.Coherent) (changes : List Change) : (r.run changes).Coherent := by
  induction changes using List.reverseRecOn with
  | nil => exact h
  | append_singleton changes c ih =>
    rw [run_concat]
    exact ih.apply c

theorem Coherent.members_run (h : r.Coherent) (changes : List Change) :
    {k | k ∈ (r.run changes).members} =
      (r.accepted changes).foldl Change.onMembers {k | k ∈ r.members} := by
  induction changes using List.reverseRecOn with
  | nil => rfl
  | append_singleton changes c ih =>
    rw [run_concat, accepted_concat, List.foldl_append, ← ih]
    cases hc : ((r.run changes).apply c).2 with
    | false =>
      rw [(h.run changes).apply_of_refused hc]
      rfl
    | true => exact members_of_accepted hc

theorem lastRecorded_concat (first : Option Member) (done : List Change) (c : Change) :
    lastRecorded first (done ++ [c]) = c.recorded?.or (lastRecorded first done) := by
  cases c with
  | setCoordinator m => simp [lastRecorded, Change.recorded?]
  | add m => simp [lastRecorded, Change.recorded?]
  | remove m => simp [lastRecorded, Change.recorded?]

theorem sinceRecorded_concat (done : List Change) (c : Change) :
    sinceRecorded (done ++ [c]) = if c.recorded?.isNone then sinceRecorded done ++ [c] else [] :=
  List.rtakeWhile_concat _ _ _

/-- The last one on record, unless it went since. -/
def standingCoordinator (first : Option Member) (done : List Change) : Option Member :=
  (lastRecorded first done).filter fun c => .remove c ∉ sinceRecorded done

theorem standingCoordinator_concat (first : Option Member) (done : List Change) (c : Change) :
    standingCoordinator first (done ++ [c]) =
      match c with
      | .add _ => standingCoordinator first done
      | .remove m =>
        if standingCoordinator first done = some m then none else standingCoordinator first done
      | .setCoordinator m => some m := by
  rw [standingCoordinator, standingCoordinator, lastRecorded_concat, sinceRecorded_concat]
  cases c with
  | setCoordinator m => rfl
  | add m => simp [Change.recorded?]
  | remove m =>
    cases lastRecorded first done with
    | none => simp [Change.recorded?]
    | some l =>
      by_cases hl : l = m
      · simp [Change.recorded?, hl, Option.filter_some]
      · simp [Change.recorded?, hl, Option.filter_some]

theorem Coherent.coordinator_run (h : r.Coherent) (changes : List Change) :
    (r.run changes).coordinator = standingCoordinator r.coordinator (r.accepted changes) := by
  induction changes using List.reverseRecOn with
  | nil =>
    change r.coordinator = r.coordinator.filter fun _ => true
    cases r.coordinator <;> rfl
  | append_singleton changes c ih =>
    rw [run_concat, accepted_concat]
    cases hc : ((r.run changes).apply c).2 with
    | false =>
      rw [(h.run changes).apply_of_refused hc, ih, if_neg Bool.false_ne_true, List.append_nil]
    | true =>
      rw [if_pos rfl, standingCoordinator_concat, ← ih]
      cases c with
      | add m => rfl
      | remove m => exact remove_coordinator (remove_accepted.mp hc).1
      | setCoordinator m =>
        exact congrArg (·.1.coordinator) (setCoordinator_of_mem (setCoordinator_accepted.mp hc))

/-- **A ring is what was accepted since it began.** Its members are listed in order, each once:
those at first, with all that came and without those that went. The owner is one of them. The
coordinator is the one recorded last, or else the one at first, unless it went since, and it is a
member. A change is accepted just if it shows, and else it leaves the ring as it is. Alone, the
owner knows nobody; from a snapshot it takes the members that are listed, in whatever order and
however often, but for others at its own endpoint, and the coordinator if it is among those. -/
theorem ring_follows_changes (owner : Member) :
    (∀ start changes,
      let first := begun owner start
      let r := first.run changes
      let done := first.accepted changes
      r.toList.Pairwise (· < ·) ∧
      {m | m ∈ r.toList} = done.foldl Change.onMembers {m | m ∈ first.toList} ∧
      r.owner = owner ∧ owner ∈ r.toList ∧
      r.coordinator = (lastRecorded first.coordinator done).filter
        (fun c => .remove c ∉ sinceRecorded done) ∧
      (∀ c, r.coordinator = some c → c ∈ r.toList) ∧
      ∀ change, ((r.apply change).2 = true ↔ change.Shows r (r.apply change).1) ∧
        ((r.apply change).2 = false → (r.apply change).1 = r)) ∧
    (alone owner).toList = [owner] ∧ (alone owner).coordinator = none ∧
    (∀ s m, m ∈ (ofSnapshot owner s).toList ↔
      m = owner ∨ m ∈ s.members ∧ m.endpoint ≠ owner.endpoint) ∧
    (∀ s c, (ofSnapshot owner s).coordinator = some c ↔
      s.coordinator = some c ∧ c ∈ (ofSnapshot owner s).toList) ∧
    ∀ s t : Snapshot, (∀ m, m ∈ s.members ↔ m ∈ t.members) → s.coordinator = t.coordinator →
      ofSnapshot owner s = ofSnapshot owner t := by
  simp only [mem_toList]
  refine ⟨fun start changes => ?_, toList_alone owner, rfl, fun s m => mem_ofSnapshot,
    fun s c => ofSnapshot_coordinator, fun s t => ofSnapshot_congr⟩
  have hfirst := coherent_begun owner start
  have hlast := hfirst.run changes
  have howner : ((begun owner start).run changes).owner = owner := by rw [run_owner, begun_owner]
  refine ⟨pairwise_toList _, hfirst.members_run changes, howner, ?_, hfirst.coordinator_run changes,
    hlast.coordinator, fun change => ⟨hlast.accepted_iff change, hlast.apply_of_refused⟩⟩
  have hmem := hlast.owner
  rwa [howner] at hmem

/-- An owner that was there before: the earlier incarnation is not taken from the snapshot, the
owner does not go, and a coordinator that goes and comes back is not on record any more. -/
theorem ring_follows_changes_of_return :
    let owner : Member := ⟨"a", 1, 2⟩
    let earlier : Member := ⟨"a", 1, 1⟩
    let other : Member := ⟨"b", 1, 1⟩
    let snapshot : Snapshot := ⟨[other, earlier, other], some other⟩
    let first := begun owner (some snapshot)
    let r := first.run [.remove owner, .remove other, .add other]
    first = ofSnapshot owner ⟨[earlier, other], some other⟩ ∧ first.coordinator = some other ∧
      earlier ∉ first.toList ∧ r.toList = [owner, other] ∧ owner ∈ r.toList ∧
      r.coordinator = none ∧ (r.apply (.remove owner)).1 = r := by
  intro owner earlier other snapshot first r
  obtain ⟨hrun, -, -, hmem, hcoordinator, hcongr⟩ := ring_follows_changes owner
  obtain ⟨-, -, -, howner, -, -, hchange⟩ := hrun (some snapshot)
    [.remove owner, .remove other, .add other]
  have hother : other ∈ first.toList := (hmem snapshot other).mpr (.inr (by decide))
  refine ⟨hcongr snapshot _ ?_ rfl, (hcoordinator _ _).mpr ⟨rfl, hother⟩, ?_, by decide +kernel,
    howner, by decide +kernel, (hchange (.remove owner)).2 (by decide +kernel)⟩
  · intro m
    simp only [snapshot, List.mem_cons, List.not_mem_nil, or_false]
    exact ⟨fun h => h.elim .inr id, .inr⟩
  · exact mt (hmem _ _).mp (by decide)

end Ring

end ReplicaRing
