import ReplicaRing.Proofs.Ring.WayAround

/-!
# One cycle through all members

Members that agree on who is there each know only their own place, and still their successors link
up to one cycle: whoever follows them from member to member comes by everybody once and ends where
the journey began.
-/
namespace ReplicaRing.Ring

variable {S : MemberSet} {rings : Member → Ring} {x y : Member}

/-- The members that come by in so many steps from `m`, each the successor that the ring of the one
before names. -/
def journey (rings : Member → Ring) : Nat → Member → List Member
  | 0, _ => []
  | steps + 1, m =>
    match (rings m).successor? with
    | some n => n :: journey rings steps n
    | none => []

/-- Every member of `S` has a ring of its own, with just these members. -/
def Shared (S : MemberSet) (rings : Member → Ring) : Prop :=
  ∀ x ∈ S, (rings x).owner = x ∧ (rings x).members = S

namespace Shared

theorem owner_mem (h : Shared S rings) (hx : x ∈ S) : (rings x).owner ∈ (rings x).members := by
  rw [(h x hx).1, (h x hx).2]
  exact hx

theorem wayFrom (h : Shared S rings) (hx : x ∈ S) :
    (rings x).members.wayFrom (rings x).owner = S.wayFrom x := by
  rw [(h x hx).1, (h x hx).2]

theorem successors_eq (h : Shared S rings) (hx : x ∈ S) (n : Nat) :
    (rings x).successors n = (S.wayFrom x).take n := by
  rw [Ring.successors_eq (h.owner_mem hx), h.wayFrom hx]

theorem successor?_eq (h : Shared S rings) (hx : x ∈ S) :
    (rings x).successor? = (S.wayFrom x).head? := by
  rw [successor?_eq_head? (h.owner_mem hx), h.wayFrom hx]

theorem predecessor?_eq (h : Shared S rings) (hx : x ∈ S) :
    (rings x).predecessor? = (S.wayFrom x).getLast? := by
  rw [Ring.predecessor?_eq (h.owner_mem hx), h.wayFrom hx]

/-- A journey goes the way around and back to its beginning. -/
theorem journey_eq_take (h : Shared S rings) (hsize : 1 < S.size) {steps : Nat}
    (hsteps : steps ≤ S.size) (hx : x ∈ S) :
    journey rings steps x = (S.wayFrom x ++ [x]).take steps := by
  induction steps generalizing x with
  | zero => rfl
  | succ steps ih =>
    have hlength := MemberSet.length_wayFrom hx
    rw [journey, h.successor?_eq hx]
    cases hway : S.wayFrom x with
    | nil =>
      rw [hway, List.length_nil] at hlength
      omega
    | cons y rest =>
      rw [hway, List.length_cons] at hlength
      obtain ⟨hy, hnext⟩ := MemberSet.wayFrom_step.mp ⟨hx, hway⟩
      have hrest : steps ≤ (rest ++ [x]).length := by
        rw [List.length_append, List.length_singleton]
        omega
      simp only [List.head?_cons, List.cons_append, List.take_succ_cons, ih (by omega) hy, hnext,
        List.take_append_of_le_length hrest]

/-- The last on the way to `y` is the one from which `y` comes first. -/
theorem predecessor?_eq_some_iff (h : Shared S rings) (hx : x ∈ S) (hy : y ∈ S) :
    (rings y).predecessor? = some x ↔ (rings x).successor? = some y := by
  rw [h.predecessor?_eq hy, h.successor?_eq hx]
  constructor
  · intro hlast
    obtain ⟨rest, hway⟩ := List.getLast?_eq_some_iff.mp hlast
    rw [(MemberSet.wayFrom_step.mpr ⟨hy, hway⟩).2, List.head?_cons]
  · intro hfirst
    obtain ⟨rest, hway⟩ := List.head?_eq_some_iff.mp hfirst
    rw [(MemberSet.wayFrom_step.mp ⟨hx, hway⟩).2, List.getLast?_concat]

end Shared

/-- **The successors form one cycle.** Among at least two members, each with a ring of just these,
the journey along the successors comes by every member once in as many steps as there are members,
and the last step leads back to where it began. The members before that are, in this order, the
successors that the first one's ring lists. One member is the predecessor of another just if the
other is its successor. -/
theorem successors_form_cycle (hsize : 1 < S.size) (h : Shared S rings) :
    (∀ x ∈ S, journey rings S.size x = (rings x).successors (S.size - 1) ++ [x] ∧
      (journey rings S.size x).length = S.size ∧ (journey rings S.size x).Nodup ∧
      ∀ m, m ∈ journey rings S.size x ↔ m ∈ S) ∧
    ∀ x ∈ S, ∀ y ∈ S, (rings y).predecessor? = some x ↔ (rings x).successor? = some y := by
  refine ⟨fun x hx => ?_, fun x hx y hy => h.predecessor?_eq_some_iff hx hy⟩
  have hlength := MemberSet.length_wayFrom hx
  have hjourney : journey rings S.size x = S.wayFrom x ++ [x] := by
    rw [h.journey_eq_take hsize le_rfl hx, List.take_of_length_le]
    simp [hlength]
  have hperm : (journey rings S.size x).Perm S.toList := by
    rw [hjourney]
    exact (List.perm_append_singleton x _).trans (MemberSet.perm_wayFrom hx)
  refine ⟨?_, ?_, hperm.nodup_iff.mpr S.nodup_toList, fun m => ?_⟩
  · rw [hjourney, h.successors_eq hx, ← hlength, Nat.add_sub_cancel, List.take_length]
  · rw [hperm.length_eq, Std.ExtTreeSet.length_toList]
  · rw [hperm.mem_iff, Std.ExtTreeSet.mem_toList]

/-- Three members; the second knows a coordinator. -/
theorem successors_form_cycle_of_three :
    let a : Member := ⟨"a", 1, 1⟩
    let b : Member := ⟨"b", 1, 1⟩
    let c : Member := ⟨"b", 1, 2⟩
    let S : MemberSet := .ofList [c, a, b]
    let rings (m : Member) : Ring := ⟨S, m, if m = b then some c else none⟩
    1 < S.size ∧ Shared S rings ∧ journey rings 3 b = [c, a, b] ∧
      (journey rings S.size b).Nodup ∧ (rings b).predecessor? = some a := by
  intro a b c S rings
  have hsize : 1 < S.size := by decide +kernel
  have hshared : Shared S rings := fun m _ => ⟨rfl, rfl⟩
  obtain ⟨hjourney, hpredecessor⟩ := successors_form_cycle hsize hshared
  have ha : a ∈ S := by decide +kernel
  have hb : b ∈ S := by decide +kernel
  exact ⟨hsize, hshared, by decide +kernel, (hjourney b hb).2.2.1,
    (hpredecessor a ha b hb).mpr (by decide +kernel)⟩

end ReplicaRing.Ring
