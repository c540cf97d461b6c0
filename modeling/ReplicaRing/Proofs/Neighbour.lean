import ReplicaRing.Proofs.MemberOrder

/-!
# The successor of a ring's owner

The successor that a ring hands a token to is the member that follows its owner on the way around
its members. It exists as soon as the owner is not alone.
-/
namespace ReplicaRing

namespace Ring

variable {r : Ring} {m n : Member}

theorem find?_lt_eq_some {ms : List Member} (hms : ms.Pairwise (· < ·))
    (h : ms.find? (m < ·) = some n) : n ∈ ms ∧ m < n ∧ ∀ k ∈ ms, m < k → n ≤ k := by
  obtain ⟨hmn, before, after, rfl, hbefore⟩ := List.find?_eq_some_iff_append.mp h
  refine ⟨by simp, of_decide_eq_true hmn, ?_⟩
  intro k hk hmk
  rcases List.mem_append.mp hk with hk | hk
  · simpa [hmk] using hbefore k hk
  · rcases List.mem_cons.mp hk with rfl | hk
    · exact le_refl k
    · exact (List.rel_of_pairwise_cons (List.pairwise_append.mp hms).2.1 hk).le

theorem head?_eq_some {ms : List Member} (hms : ms.Pairwise (· < ·)) (h : ms.head? = some n) :
    n ∈ ms ∧ ∀ k ∈ ms, n ≤ k := by
  obtain ⟨tail, rfl⟩ := List.head?_eq_some_iff.mp h
  refine ⟨by simp, ?_⟩
  intro k hk
  rcases List.mem_cons.mp hk with rfl | hk
  · exact le_refl k
  · exact (List.rel_of_pairwise_cons hms hk).le

theorem mem_toList : m ∈ r.toList ↔ m ∈ r.members := Std.ExtTreeSet.mem_toList

theorem pairwise_toList (r : Ring) : r.toList.Pairwise (· < ·) := r.members.ordered_toList

/-- The next member is the least above, or else the lowest of all. -/
theorem next?_eq_some (h : r.next? m = some n) :
    n ∈ r.members ∧ ((m < n ∧ ∀ k ∈ r.members, m < k → n ≤ k) ∨
      ((∀ k ∈ r.members, k ≤ m) ∧ ∀ k ∈ r.members, n ≤ k)) := by
  simp only [next?, Option.or_eq_some_iff] at h
  rcases h with hfind | ⟨hnone, hhead⟩
  · obtain ⟨hn, hmn, hleast⟩ := find?_lt_eq_some r.pairwise_toList hfind
    exact ⟨mem_toList.mp hn, Or.inl ⟨hmn, fun k hk => hleast k (mem_toList.mpr hk)⟩⟩
  · obtain ⟨hn, hmin⟩ := head?_eq_some r.pairwise_toList hhead
    refine ⟨mem_toList.mp hn, Or.inr ⟨fun k hk => ?_, fun k hk => hmin k (mem_toList.mpr hk)⟩⟩
    have hmk := List.find?_eq_none.mp hnone k (mem_toList.mpr hk)
    exact not_lt.mp (by simpa using hmk)

theorem exists_next? (hm : m ∈ r.members) : ∃ n, r.next? m = some n := by
  have hne : r.toList ≠ [] := List.ne_nil_of_mem (mem_toList.mpr hm)
  cases hfind : r.toList.find? (m < ·) with
  | some n => exact ⟨n, by simp [next?, hfind]⟩
  | none => exact ⟨r.toList.head hne, by simp [next?, hfind, List.head?_eq_some_head hne]⟩

/-- A next member that is the member itself is the only one. -/
theorem eq_of_next?_self (h : r.next? m = some m) {k : Member} (hk : k ∈ r.members) : k = m := by
  obtain ⟨_, ⟨hlt, _⟩ | ⟨hmax, hmin⟩⟩ := next?_eq_some h
  · exact absurd hlt (lt_irrefl m)
  · exact le_antisymm (hmax k hk) (hmin k hk)

/-- With more than one member some member is not the owner. -/
theorem exists_ne (h : r.hasSuccessor = true) (m : Member) : ∃ k ∈ r.members, k ≠ m := by
  have hne := MemberSet.erase_ne_empty (of_decide_eq_true h : 1 < r.members.size) m
  obtain ⟨k, hk⟩ := Option.isSome_iff_exists.mp (Std.ExtTreeSet.isSome_max?_iff_ne_empty.mpr hne)
  obtain ⟨hkm, hk⟩ := MemberSet.mem_erase_iff.mp (MemberSet.max?_eq_some_iff.mp hk).1
  exact ⟨k, hk, hkm⟩

theorem eq_of_not_hasSuccessor (h : r.hasSuccessor = false) (hm : m ∈ r.members)
    (hn : n ∈ r.members) : m = n := by
  have hsize : r.members.finset.card ≤ 1 := by
    rw [MemberSet.card_finset]
    exact not_lt.mp (of_decide_eq_false h)
  exact Finset.card_le_one.mp hsize m (MemberSet.mem_finset.mpr hm) n (MemberSet.mem_finset.mpr hn)

/-- The successor is one step of the walk, and needs more than one member. -/
theorem successor?_eq (r : Ring) :
    r.successor? = if r.hasSuccessor then (r.next? r.owner).filter (· ≠ r.owner) else none := by
  have hmin : min 1 (r.size - 1) = if r.hasSuccessor then 1 else 0 := by
    by_cases h : 1 < r.size <;> simp [hasSuccessor, h] <;> omega
  rw [successor?, successors, hmin]
  by_cases h : r.hasSuccessor = true
  · simp only [h, if_true, walk]
    cases hn : r.next? r.owner with
    | none => rfl
    | some n => by_cases hown : n = r.owner <;> simp [hown, Option.filter]
  · simp [h, walk]

theorem follows_of_successor? (h : r.successor? = some n) : r.members.Follows r.owner n := by
  rw [successor?_eq] at h
  split at h
  · obtain ⟨hnext, hne⟩ := Option.filter_eq_some_iff.mp h
    obtain ⟨hn, hway⟩ := next?_eq_some hnext
    exact ⟨hn, of_decide_eq_true hne, hway⟩
  · cases h

theorem exists_successor? (ho : r.owner ∈ r.members) (h : r.hasSuccessor = true) :
    ∃ n, r.successor? = some n := by
  obtain ⟨n, hn⟩ := exists_next? ho
  refine ⟨n, ?_⟩
  rw [successor?_eq, if_pos h, hn, Option.filter_eq_some_iff]
  refine ⟨rfl, decide_eq_true ?_⟩
  rintro rfl
  obtain ⟨k, hk, hne⟩ := exists_ne h r.owner
  exact hne (eq_of_next?_self hn hk)

end Ring

end ReplicaRing
