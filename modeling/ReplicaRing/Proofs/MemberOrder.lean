import Mathlib.Data.Finset.Card
import Mathlib.Order.Std
import ReplicaRing.Proofs.Sets
import ReplicaRing.Ring

/-!
# The order of members and the way around a set of them

Members are linearly ordered, so a set of them has a highest one and, from every member, a next
one: the least of those above, or the lowest of all. `above` counts the members that a token still
has to pass before it reaches the highest one.
-/
namespace ReplicaRing

namespace Member

instance : LE Member := ⟨fun m n => (compare m n).isLE⟩

instance : Std.LawfulOrderOrd Member where
  isLE_compare _ _ := Iff.rfl
  isGE_compare m n := by
    change _ ↔ (compare n m).isLE
    rw [Std.OrientedOrd.eq_swap (a := n) (b := m)]
    cases compare m n <;> decide

instance : Std.LawfulOrderLT Member where
  lt_iff m n := by
    change compare m n = .lt ↔ (compare m n).isLE ∧ ¬ (compare n m).isLE
    rw [Std.OrientedOrd.eq_swap (a := n) (b := m)]
    cases compare m n <;> decide

instance : LinearOrder Member := .ofStd Member

end Member

namespace MemberSet

variable {S : MemberSet} {m n k top : Member}

theorem nodup_toList (S : MemberSet) : S.toList.Nodup := ReplicaRing.nodup_toList S

def finset (S : MemberSet) : Finset Member := ⟨S.toList, S.nodup_toList⟩

@[simp] theorem mem_finset : m ∈ S.finset ↔ m ∈ S := Std.ExtTreeSet.mem_toList

@[simp] theorem card_finset (S : MemberSet) : S.finset.card = S.size := Std.ExtTreeSet.length_toList

theorem mem_erase_iff : k ∈ S.erase m ↔ k ≠ m ∧ k ∈ S := by
  rw [ReplicaRing.mem_erase_iff, ne_comm]

theorem erase_ne_empty (h : 1 < S.size) (m : Member) : S.erase m ≠ ∅ := by
  intro hempty
  have hsize := Std.ExtTreeSet.size_le_size_erase (t := S) (k := m)
  rw [hempty, Std.ExtTreeSet.size_empty] at hsize
  omega

theorem max?_eq_some_iff : S.max? = some top ↔ top ∈ S ∧ ∀ m ∈ S, m ≤ top :=
  Std.ExtTreeSet.max?_eq_some_iff_mem_and_forall

/-- How many members stand above `m`. -/
def above (S : MemberSet) (m : Member) : Nat := (S.finset.filter (m < ·)).card

theorem above_lt_size (hm : m ∈ S) : S.above m < S.size := by
  rw [← card_finset, above]
  refine Finset.card_lt_card ⟨Finset.filter_subset _ _, fun h => ?_⟩
  have hmm := h (mem_finset.mpr hm)
  exact lt_irrefl m (Finset.mem_filter.mp hmm).2

theorem above_top (ht : S.max? = some top) : S.above top = 0 := by
  rw [above, Finset.card_eq_zero, Finset.filter_eq_empty_iff]
  intro k hk
  exact not_lt.mpr ((max?_eq_some_iff.mp ht).2 k (mem_finset.mp hk))

/-- `n` comes next after `m` on the way around `S`. -/
def Follows (S : MemberSet) (m n : Member) : Prop :=
  n ∈ S ∧ n ≠ m ∧
    ((m < n ∧ ∀ k ∈ S, m < k → n ≤ k) ∨ ((∀ k ∈ S, k ≤ m) ∧ ∀ k ∈ S, n ≤ k))

namespace Follows

theorem lt (h : Follows S m n) (hk : k ∈ S) (hmk : m < k) : m < n := by
  obtain ⟨_, _, ⟨hlt, _⟩ | ⟨hmax, _⟩⟩ := h
  · exact hlt
  · exact absurd hmk (not_lt.mpr (hmax k hk))

/-- Below the highest member, those that stand below the next one are `m` and those below it. -/
theorem lt_iff (h : Follows S m n) (ht : top ∈ S) (hm : m < top) (hk : k ∈ S) :
    k < n ↔ k ≤ m := by
  have hmn := h.lt ht hm
  obtain ⟨_, _, ⟨_, hleast⟩ | ⟨hmax, _⟩⟩ := h
  · refine ⟨fun hkn => ?_, fun hkm => lt_of_le_of_lt hkm hmn⟩
    by_contra hmk
    exact absurd hkn (not_lt.mpr (hleast k hk (not_le.mp hmk)))
  · exact absurd hm (not_lt.mpr (hmax top ht))

/-- After the highest member comes the lowest. -/
theorem le_of_top (h : Follows S top n) (ht : S.max? = some top) (hk : k ∈ S) : n ≤ k := by
  obtain ⟨hn, _, ⟨hlt, _⟩ | ⟨_, hmin⟩⟩ := h
  · exact absurd hlt (not_lt.mpr ((max?_eq_some_iff.mp ht).2 n hn))
  · exact hmin k hk

theorem above_succ (h : Follows S m n) (ht : top ∈ S) (hm : m < top) :
    S.above n + 1 = S.above m := by
  have hmn := h.lt ht hm
  have hins : S.finset.filter (m < ·) = insert n (S.finset.filter (n < ·)) := by
    ext k
    simp only [Finset.mem_filter, Finset.mem_insert, mem_finset]
    constructor
    · rintro ⟨hk, hmk⟩
      rcases lt_trichotomy k n with hkn | rfl | hnk
      · exact absurd hmk (not_lt.mpr ((h.lt_iff ht hm hk).mp hkn))
      · exact Or.inl rfl
      · exact Or.inr ⟨hk, hnk⟩
    · rintro (rfl | ⟨hk, hnk⟩)
      · exact ⟨h.1, hmn⟩
      · exact ⟨hk, hmn.trans hnk⟩
  rw [above, above, hins, Finset.card_insert_of_notMem]
  simp

theorem above_first (h : Follows S top n) (ht : S.max? = some top) :
    S.above n + 1 = S.size := by
  have hins : S.finset = insert n (S.finset.filter (n < ·)) := by
    ext k
    simp only [Finset.mem_filter, Finset.mem_insert, mem_finset]
    constructor
    · intro hk
      rcases (h.le_of_top ht hk).lt_or_eq with hnk | rfl
      · exact Or.inr ⟨hk, hnk⟩
      · exact Or.inl rfl
    · rintro (rfl | ⟨hk, _⟩)
      · exact h.1
      · exact hk
  rw [above, ← card_finset, hins, Finset.card_insert_of_notMem]
  · simp [Finset.filter_insert, Finset.filter_filter]
  · simp

end Follows

end MemberSet

end ReplicaRing
