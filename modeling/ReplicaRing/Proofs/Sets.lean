import ReplicaRing.Member

/-!
# Ordered sets by equality

The sets of the library compare what they hold. Where only equal elements compare as equal, a set is
described by its members.
-/
namespace ReplicaRing

variable {α : Type} {cmp : α → α → Ordering} [Std.TransCmp cmp] [Std.LawfulEqCmp cmp]
  {s : Std.ExtTreeSet α cmp} {x y : α} {f : α → Bool}

theorem mem_insert_iff : y ∈ s.insert x ↔ x = y ∨ y ∈ s := by
  rw [Std.ExtTreeSet.mem_insert, Std.LawfulEqCmp.compare_eq_iff_eq]

theorem mem_erase_iff : y ∈ s.erase x ↔ x ≠ y ∧ y ∈ s := by
  rw [Std.ExtTreeSet.mem_erase, Ne, Std.LawfulEqCmp.compare_eq_iff_eq]

theorem mem_insert_of_ne (h : y ≠ x) : y ∈ s.insert x ↔ y ∈ s :=
  mem_insert_iff.trans (or_iff_right (Ne.symm h))

theorem mem_erase_of_ne (h : y ≠ x) : y ∈ s.erase x ↔ y ∈ s :=
  mem_erase_iff.trans (and_iff_right (Ne.symm h))

theorem erase_of_not_mem (h : x ∉ s) : s.erase x = s :=
  Std.ExtTreeSet.ext_mem fun _ =>
    mem_erase_iff.trans (and_iff_right_of_imp fun hy heq => h (heq ▸ hy))

theorem mem_filter_iff : x ∈ s.filter f ↔ x ∈ s ∧ f x = true := by
  simp only [Std.ExtTreeSet.mem_filter, Std.ExtTreeSet.get_eq, exists_prop]

theorem nodup_toList (s : Std.ExtTreeSet α cmp) : s.toList.Nodup :=
  s.distinct_toList.imp fun hne heq => hne (Std.LawfulEqCmp.compare_eq_iff_eq.mpr heq)

end ReplicaRing
