import ReplicaRing.Proofs.Election.Conduct
import ReplicaRing.Session

/-!
# The ring that a member begins with

Whoever founds a group leads it. Whoever joins has the members of the snapshot and itself, without
other incarnations at its endpoint, and the coordinator of the snapshot if it is among them.
-/
namespace ReplicaRing

namespace Ring

variable {r : Ring} {owner m k : Member} {snapshot : Snapshot}

theorem mem_alone : k ∈ (alone owner).members ↔ k = owner := by
  rw [alone, mem_insert_iff, eq_comm]
  exact or_iff_left Std.ExtTreeSet.not_mem_empty

/-- The members that a snapshot brings. -/
theorem foldl_add_spec (r : Ring) (drop : Member → Prop) [DecidablePred drop]
    (members : List Member) :
    let ring := members.foldl (fun r m => if drop m then r else (r.add m).1) r
    ring.owner = r.owner ∧ ring.coordinator = r.coordinator ∧
      ∀ k, k ∈ ring.members ↔ (k ∈ members ∧ ¬ drop k) ∨ k ∈ r.members := by
  induction members generalizing r with
  | nil => simp
  | cons m members ih =>
    by_cases hm : drop m
    · obtain ⟨howner, hcoordinator, hmem⟩ := ih r
      refine ⟨?_, ?_, fun k => ?_⟩
      · rw [List.foldl_cons, if_pos hm]
        exact howner
      · rw [List.foldl_cons, if_pos hm]
        exact hcoordinator
      · rw [List.foldl_cons, if_pos hm, hmem, List.mem_cons]
        have hne : ¬ drop k → k ≠ m := fun hk heq => hk (heq ▸ hm)
        tauto
    · obtain ⟨howner, hcoordinator, hmem⟩ := ih (r.add m).1
      refine ⟨?_, ?_, fun k => ?_⟩
      · rw [List.foldl_cons, if_neg hm]
        exact howner
      · rw [List.foldl_cons, if_neg hm]
        exact hcoordinator
      · rw [List.foldl_cons, if_neg hm, hmem, mem_add, List.mem_cons]
        have heq : k = m → ¬ drop k := fun heq => heq ▸ hm
        tauto

/-- What a joiner takes from a snapshot. -/
theorem ofSnapshot_spec (owner : Member) (snapshot : Snapshot) :
    (ofSnapshot owner snapshot).owner = owner ∧
      (∀ k, k ∈ (ofSnapshot owner snapshot).members ↔
        (k ∈ snapshot.members ∧ ¬ (k.sameEndpoint owner ∧ k ≠ owner)) ∨ k = owner) ∧
      (ofSnapshot owner snapshot).coordinator =
        snapshot.coordinator.filter (· ∈ (ofSnapshot owner snapshot).members) := by
  obtain ⟨howner, hcoordinator, hmem⟩ :=
    foldl_add_spec (alone owner) (fun m => m.sameEndpoint owner ∧ m ≠ owner) snapshot.members
  simp only [mem_alone] at hmem
  unfold ofSnapshot
  cases hc : snapshot.coordinator with
  | none => exact ⟨howner, hmem, hcoordinator⟩
  | some c =>
    simp only [setCoordinator_owner, setCoordinator_members, setCoordinator_coordinator,
      Option.filter_some, decide_eq_true_eq]
    refine ⟨howner, hmem, ?_⟩
    rw [hcoordinator]
    rfl

end Ring

namespace Session

variable {identity k : Member}

theorem initialRing_owner (identity : Member) (snapshot : Option Snapshot) :
    (initialRing identity snapshot).owner = identity := by
  cases snapshot with
  | none => exact Ring.setCoordinator_owner _ _
  | some s => exact (Ring.ofSnapshot_spec identity s).1

theorem mem_founded : k ∈ (initialRing identity none).members ↔ k = identity := by
  rw [initialRing, Ring.setCoordinator_members, Ring.mem_alone]

theorem founded_coordinator (identity : Member) :
    (initialRing identity none).coordinator = some identity := by
  rw [initialRing, Ring.setCoordinator_coordinator, if_pos (Ring.mem_alone.mpr rfl)]

theorem owner_mem_initialRing (identity : Member) (snapshot : Option Snapshot) :
    identity ∈ (initialRing identity snapshot).members := by
  cases snapshot with
  | none => exact mem_founded.mpr rfl
  | some s => exact ((Ring.ofSnapshot_spec identity s).2.1 identity).mpr (.inr rfl)

theorem coordinator_mem_initialRing {snapshot : Option Snapshot} {c : Member}
    (h : (initialRing identity snapshot).coordinator = some c) :
    c ∈ (initialRing identity snapshot).members := by
  cases snapshot with
  | none =>
    rw [founded_coordinator] at h
    exact mem_founded.mpr (Option.some.inj h).symm
  | some s =>
    have hc := (Ring.ofSnapshot_spec identity s).2.2
    rw [initialRing] at h
    rw [h] at hc
    exact of_decide_eq_true (Option.filter_eq_some_iff.mp hc.symm).2

end Session

end ReplicaRing
