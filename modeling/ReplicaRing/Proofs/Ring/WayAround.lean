import Mathlib.Data.List.Rotate
import ReplicaRing.Proofs.Ring.Changes

/-!
# The way around a ring

From one of its members a set is gone around by taking those above it in order and then those below
it. With the member itself in front, this is the listing of the set, begun elsewhere; that alone
says where the way leads from the next member on. A ring's successors are the beginning of the way
from its owner, and its predecessor is the end.
-/
namespace ReplicaRing

variable {m n : Member} {before after rest : List Member}

namespace MemberSet

variable {S : MemberSet}

/-- The way around from a member: those above it, then those below it, each in order. -/
def wayFrom (S : MemberSet) (m : Member) : List Member :=
  S.toList.filter (m < ·) ++ S.toList.filter (· < m)

/-- The listing is in order, so what stands behind a member is above it. -/
theorem filter_of_toList (h : S.toList = before ++ m :: after) :
    S.toList.filter (m < ·) = after ∧ S.toList.filter (· < m) = before := by
  have hordered : (before ++ m :: after).Pairwise (· < ·) := h ▸ S.ordered_toList
  obtain ⟨-, hafter, hbefore⟩ := List.pairwise_append.mp hordered
  have habove (k : Member) (hk : k ∈ after) : m < k := List.rel_of_pairwise_cons hafter hk
  have hbelow (k : Member) (hk : k ∈ before) : k < m := hbefore k hk m List.mem_cons_self
  have hkept : after.filter (m < ·) = after ∧ before.filter (· < m) = before :=
    ⟨List.filter_eq_self.mpr fun k hk => decide_eq_true (habove k hk),
      List.filter_eq_self.mpr fun k hk => decide_eq_true (hbelow k hk)⟩
  have hgone : before.filter (m < ·) = [] ∧ after.filter (· < m) = [] :=
    ⟨List.filter_eq_nil_iff.mpr fun k hk => by simpa using (hbelow k hk).le,
      List.filter_eq_nil_iff.mpr fun k hk => by simpa using (habove k hk).le⟩
  rw [h]
  constructor
  · rw [List.filter_append, List.filter_cons_of_neg (by simp), hgone.1, hkept.1, List.nil_append]
  · rw [List.filter_append, List.filter_cons_of_neg (by simp), hgone.2, hkept.2, List.append_nil]

theorem wayFrom_of_toList (h : S.toList = before ++ m :: after) :
    S.wayFrom m = after ++ before := by
  rw [wayFrom, (filter_of_toList h).1, (filter_of_toList h).2]

theorem exists_toList (hm : m ∈ S) : ∃ before after, S.toList = before ++ m :: after :=
  List.append_of_mem (Std.ExtTreeSet.mem_toList.mpr hm)

/-- A member with a list behind it is the set's listing, begun elsewhere, just if the list is the
way from that member. -/
theorem cons_isRotated_iff : (m :: rest) ~r S.toList ↔ m ∈ S ∧ S.wayFrom m = rest := by
  constructor
  · intro h
    refine ⟨Std.ExtTreeSet.mem_toList.mp (h.mem_iff.mp List.mem_cons_self), ?_⟩
    obtain ⟨i, hi, hturn⟩ := List.isRotated_iff_mod.mp h
    rw [List.rotate_eq_drop_append_take hi] at hturn
    cases i with
    | zero =>
      have hwhole : S.toList = [] ++ m :: rest := by rw [← hturn]; simp
      exact (wayFrom_of_toList hwhole).trans (List.append_nil _)
    | succ i => exact (wayFrom_of_toList hturn.symm).trans (List.take_append_drop i rest)
  · rintro ⟨hm, rfl⟩
    obtain ⟨before, after, h⟩ := exists_toList hm
    rw [wayFrom_of_toList h, h, ← List.cons_append]
    exact List.isRotated_append

theorem perm_wayFrom (hm : m ∈ S) : (m :: S.wayFrom m).Perm S.toList :=
  (cons_isRotated_iff.mpr ⟨hm, rfl⟩).perm

theorem length_wayFrom (hm : m ∈ S) : (S.wayFrom m).length + 1 = S.size :=
  (perm_wayFrom hm).length_eq.trans Std.ExtTreeSet.length_toList

theorem not_mem_wayFrom (hm : m ∈ S) : m ∉ S.wayFrom m :=
  (List.nodup_cons.mp ((perm_wayFrom hm).nodup_iff.mpr S.nodup_toList)).1

/-- One step on, the way ends where the step began. -/
theorem wayFrom_step :
    m ∈ S ∧ S.wayFrom m = n :: rest ↔ n ∈ S ∧ S.wayFrom n = rest ++ [m] := by
  rw [← cons_isRotated_iff, ← cons_isRotated_iff]
  have hturn : (m :: n :: rest) ~r (n :: (rest ++ [m])) :=
    (List.isRotated_concat m (n :: rest)).symm
  exact ⟨hturn.symm.trans, hturn.trans⟩

end MemberSet

namespace Ring

variable {r : Ring}

/-- The next member is the first on the way, or the member itself if there is nobody else. -/
theorem next?_eq (hm : m ∈ r.members) : r.next? m = (r.members.wayFrom m ++ [m]).head? := by
  obtain ⟨before, after, h⟩ := MemberSet.exists_toList hm
  rw [next?, toList, ← List.head?_filter, (MemberSet.filter_of_toList h).1,
    MemberSet.wayFrom_of_toList h, h]
  cases after with
  | nil => cases before <;> rfl
  | cons a after => rfl

/-- A walk follows the way as far as the owner. -/
theorem walk_eq_take (hm : m ∈ r.members)
    (hway : r.members.wayFrom m ++ [m] = before ++ r.owner :: after) (ho : r.owner ∉ before)
    (i : Nat) : r.walk i m = before.take i := by
  induction i generalizing m before after with
  | zero => rfl
  | succ i ih =>
    rw [walk, next?_eq hm, hway]
    cases before with
    | nil => simp
    | cons n before =>
      have hne : n ≠ r.owner := fun heq => ho (heq ▸ List.mem_cons_self)
      cases hfrom : r.members.wayFrom m with
      | nil => simp [hfrom] at hway
      | cons n' rest =>
        rw [hfrom, List.cons_append, List.cons_append, List.cons.injEq] at hway
        obtain ⟨rfl, hrest⟩ := hway
        -- The way from the next member is the rest of this one, and then the member itself.
        obtain ⟨hn, hnext⟩ := MemberSet.wayFrom_step.mp ⟨hm, hfrom⟩
        have hwayn : r.members.wayFrom n' ++ [n'] = before ++ r.owner :: (after ++ [n']) := by
          rw [hnext, hrest, List.append_assoc, List.cons_append]
        have hwalk := ih hn hwayn fun hmem => ho (List.mem_cons_of_mem _ hmem)
        simp [hne, hwalk]

theorem successors_eq (ho : r.owner ∈ r.members) (i : Nat) :
    r.successors i = (r.members.wayFrom r.owner).take i := by
  have hlength : (r.members.wayFrom r.owner).length + 1 = r.size := MemberSet.length_wayFrom ho
  rw [successors, walk_eq_take ho rfl (MemberSet.not_mem_wayFrom ho), ← hlength,
    Nat.add_sub_cancel, ← List.take_eq_take_min]

theorem successor?_eq_head? (ho : r.owner ∈ r.members) :
    r.successor? = (r.members.wayFrom r.owner).head? := by
  rw [successor?, successors_eq ho, List.head?_take, if_neg Nat.one_ne_zero]

/-- The predecessor is the last on the way. -/
theorem predecessor?_eq (ho : r.owner ∈ r.members) :
    r.predecessor? = (r.members.wayFrom r.owner).getLast? := by
  obtain ⟨before, after, h⟩ := MemberSet.exists_toList ho
  have hnot := MemberSet.not_mem_wayFrom ho
  rw [MemberSet.wayFrom_of_toList h] at hnot ⊢
  rw [predecessor?, toList, (MemberSet.filter_of_toList h).2, h]
  obtain rfl | ⟨below, last, rfl⟩ := before.eq_nil_or_concat
  · obtain rfl | ⟨above, last, rfl⟩ := after.eq_nil_or_concat
    · simp
    · have hne : last ≠ r.owner := fun heq => hnot (by simp [heq])
      simp [List.getLast?_cons, hne]
  · have hne : last ≠ r.owner := fun heq => hnot (by simp [heq])
    simp [← List.append_assoc, hne]

/-- **The neighbours of a ring's owner.** Whatever was done to a ring, its successors are taken from
the beginning of the others, those above the owner before those below, each in order: as many as
asked for, or all. So the owner is not among them and nobody is twice, and more of them begin with
the fewer. The successor is the first of the others, if there are any, and the predecessor the last;
the owner has none just if it is alone. -/
theorem neighbours_on_the_way (owner : Member) (start : Option Snapshot) (changes : List Change)
    (n : Nat) :
    let r := (begun owner start).run changes
    let others := r.toList.filter (owner < ·) ++ r.toList.filter (· < owner)
    r.toList.Pairwise (· < ·) ∧
    r.successors n = others.take (min n (r.size - 1)) ∧
    (r.successors n).length = min n (r.size - 1) ∧
    owner ∉ r.successors n ∧ (r.successors n).Nodup ∧
    r.successors n <+: r.successors (n + 1) ∧
    r.successor? = others.head? ∧ (r.hasSuccessor = true ↔ others ≠ []) ∧
    r.predecessor? = others.getLast? ∧ (r.predecessor? = none ↔ r.toList = [owner]) := by
  intro r others
  have ho : r.owner ∈ r.members := ((coherent_begun owner start).run changes).owner
  have howner : r.owner = owner := by rw [run_owner, begun_owner]
  have hothers : others = r.members.wayFrom r.owner := by rw [howner]; rfl
  have hlength : others.length + 1 = r.size := hothers ▸ MemberSet.length_wayFrom ho
  have hperm : (owner :: others).Perm r.toList := by
    rw [hothers, ← howner]
    exact MemberSet.perm_wayFrom ho
  obtain ⟨hnot, hnodup⟩ := List.nodup_cons.mp (hperm.nodup_iff.mpr r.members.nodup_toList)
  have hsuccessors (i : Nat) : r.successors i = others.take i := hothers ▸ successors_eq ho i
  have hpredecessor : r.predecessor? = others.getLast? := hothers ▸ predecessor?_eq ho
  have htaken : others.take n = others.take (min n (r.size - 1)) := by
    rw [← hlength, Nat.add_sub_cancel, ← List.take_eq_take_min]
  refine ⟨r.pairwise_toList, (hsuccessors n).trans htaken, ?_, ?_, ?_, ?_,
    hothers ▸ successor?_eq_head? ho, ?_, hpredecessor, ?_⟩
  · rw [hsuccessors, List.length_take]
    omega
  · rw [hsuccessors]
    exact fun hmem => hnot (List.mem_of_mem_take hmem)
  · rw [hsuccessors]
    exact hnodup.sublist (List.take_sublist _ _)
  · rw [hsuccessors, hsuccessors]
    exact List.take_prefix_take_left (Nat.le_succ n)
  · rw [hasSuccessor, decide_eq_true_eq, ← List.length_pos_iff]
    omega
  · rw [hpredecessor, List.getLast?_eq_none_iff]
    constructor
    · intro hnobody
      rw [hnobody] at hperm
      exact List.perm_singleton.mp hperm.symm
    · intro halone
      rw [halone, List.perm_singleton] at hperm
      exact (List.cons.inj hperm).2

example :
    let member (port : UInt16) : Member := ⟨"host", port, 1⟩
    let ring : Ring := ⟨.ofList [member 1, member 2, member 3, member 4], member 3, none⟩
    ring.successors 9 = [member 4, member 1, member 2] := by
  decide +kernel

end Ring

end ReplicaRing
