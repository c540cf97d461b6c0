import Mathlib.Algebra.Order.Group.Nat
import ReplicaRing.Proofs.Election.Truth

/-!
# How long tokens travel

In a steady circuit all live members have the same ring, namely themselves. Each token then has a
weight, the deliveries that can still come of it: a candidate goes on until the highest member,
which sends its own name around once more unless the candidate is itself; an outcome goes around
once. Every delivery lowers the sum of the weights, so a run has only so many of them.
-/
namespace ReplicaRing

namespace MemberSet.Follows

variable {S : MemberSet} {m n : Member}

theorem one_lt_size (h : S.Follows m n) (hm : m ∈ S) : 1 < S.size := by
  rw [← MemberSet.card_finset]
  exact Finset.one_lt_card.mpr
    ⟨n, MemberSet.mem_finset.mpr h.1, m, MemberSet.mem_finset.mpr hm, h.2.1⟩

end MemberSet.Follows

namespace Election.Circuit

variable {c c' c₁ : Circuit} {S : MemberSet} {old : Option Member} {top m n : Member} {s : Seat}
  {e e' : Elector} {heard : Option Token} {a : Action} {t : Token}
  {out : Multiset (Member × Token)} {mv : Move}

/-- The live members are `S` and have just `S` in their rings. Tokens go to them only if there are
several of them. -/
structure Steady (S : MemberSet) (c : Circuit) : Prop where
  live : ∀ m, c.IsLive m ↔ m ∈ S
  ring : ∀ s ∈ c.seats, s.live = true → s.elector.ring.members = S
  bound : ∀ p ∈ c.bound, p.1 ∈ S → 1 < S.size

namespace Steady

theorem congr (h : Steady S c) (hs : c'.seats = c.seats) (hb : ∀ p ∈ c'.bound, p ∈ c.bound) :
    Steady S c' where
  live m := (IsLive.congr hs).trans (h.live m)
  ring := by rw [hs]; exact h.ring
  bound p hp := h.bound p (hb p hp)

theorem takes (h : Steady S c) {p : Member × Token} (ht : c.Takes c' p) : Steady S c' :=
  h.congr ht.seats fun _ hp => ht.bound ▸ Multiset.mem_cons_of_mem hp

theorem name_mem (h : Steady S c) (hs : s ∈ c.seats) (hl : s.live = true) : s.name ∈ S :=
  (h.live s.name).mp ⟨s, hs, rfl, hl⟩

theorem live_of_mem (h : Steady S c) (hn : c.names.Nodup) (hs : s ∈ c.seats) (hm : s.name ∈ S) :
    s.live = true := by
  obtain ⟨x, hx, hname, hlive⟩ := (h.live s.name).mpr hm
  rw [← seat_unique hn hs hx hname]
  exact hlive

/-- Tokens go to the member that follows around `S`. -/
theorem follows_of_mem_out (h : Steady S c) (hstep : c.Stepped c' s s.elector heard e a e' out)
    {p : Member × Token} (hp : p ∈ out) : a.token? = some p.2 ∧ S.Follows s.name p.1 := by
  obtain ⟨ht, hf⟩ := hstep.dispatch.out_cases hp
  rw [hstep.conduct.members_eq, hstep.conduct.owner_eq, h.ring s hstep.mem hstep.live] at hf
  exact ⟨ht, hf⟩

theorem step (h : Steady S c) (hstep : c.Stepped c' s s.elector heard e a e' out) :
    Steady S c' where
  live m := (hstep.isLive_iff rfl).trans (h.live m)
  ring x hx hl := by
    rcases (hstep.acted.seats x).mp hx with rfl | ⟨hx, _⟩
    · rw [← h.ring s hstep.mem hstep.live, ← hstep.conduct.members_eq, ← hstep.dispatch.ring_eq]
    · exact h.ring x hx hl
  bound p hp := by
    rw [hstep.acted.bound] at hp
    rcases Multiset.mem_add.mp hp with hp | hp
    · exact h.bound p hp
    · have hf := (h.follows_of_mem_out hstep hp).2
      exact fun _ => hf.one_lt_size (h.name_mem hstep.mem hstep.live)

/-- Among several members every token is sent. -/
theorem sent (h : Steady S c) (hown : s.name ∈ s.elector.ring.members)
    (hstep : c.Stepped c' s s.elector heard e a e' out) (ht : a.token? = some t)
    (hsize : 1 < S.size) : ∃ n, S.Follows s.name n ∧ out = {(n, t)} := by
  have hring := h.ring s hstep.mem hstep.live
  cases hstep.dispatch with
  | quiet hnone => rw [hnone] at ht; cases ht
  | @sent t' n ht' hnext =>
    obtain rfl : t' = t := Option.some.inj (ht'.symm.trans ht)
    exact ⟨n, (h.follows_of_mem_out hstep (Multiset.mem_singleton_self _)).2, rfl⟩
  | undeliverable _ nobody =>
    have howner : e.ring.owner = s.name := hstep.conduct.owner_eq
    have hmembers : e.ring.members = S := hstep.conduct.members_eq.trans hring
    have hmem : e.ring.owner ∈ e.ring.members := by
      rw [howner, hmembers, ← hring]
      exact hown
    have hsucc : e.ring.hasSuccessor = true :=
      decide_eq_true (by rw [Ring.size, hmembers]; exact hsize)
    obtain ⟨n, hn⟩ := Ring.exists_successor? hmem hsucc
    have hmem := (Ring.follows_of_successor? hn).1
    rw [hmembers] at hmem
    exact absurd ((h.live n).mpr hmem) (nobody n hn)

/-- Nobody knows another coordinator than the highest member. -/
theorem known_cases (h : Steady S c) (ht : Truthful S old top c) (hs : s ∈ c.seats)
    (hl : s.live = true) : s.known = none ∨ (s.known = some top ∧ c.Crowned top) := by
  cases hk : s.known with
  | none => exact Or.inl rfl
  | some l =>
    rcases ht.known s hs l hk with hold | ⟨rfl, hcrown⟩
    · have hmem := ht.held s hs l hk
      rw [h.ring s hs hl] at hmem
      exact absurd hmem (ht.old_not_mem l hold)
    · exact Or.inr ⟨rfl, hcrown⟩

end Steady

/-! ### Weights -/

/-- What a token has still to do after it has reached the highest member. -/
def Token.again (S : MemberSet) (top : Member) : Token → Nat
  | .candidate m => if m = top then 0 else S.size
  | .elected _ => 0

/-- How many deliveries can come of a token on its way. -/
def weight (S : MemberSet) (top : Member) (p : Member × Token) : Nat :=
  S.above p.1 + 1 + Token.again S top p.2

instance (c : Circuit) (top : Member) : Decidable (c.Crowned top) :=
  inferInstanceAs (Decidable (∃ s ∈ c.seats, _))

/-- How many deliveries are still to come. The outcome goes around once. -/
def remaining (S : MemberSet) (top : Member) (c : Circuit) : Nat :=
  (c.bound.map (weight S top)).sum + if c.Crowned top then 0 else S.size

/-- The next receiver is nearer to the highest member, or the first after it. -/
theorem weight_follows (htop : S.max? = some top) (hm : m ∈ S) (hf : S.Follows m n) (t : Token) :
    weight S top (n, t) = (if m = top then S.size else S.above m) + Token.again S top t := by
  obtain ⟨hmem, hmax⟩ := MemberSet.max?_eq_some_iff.mp htop
  rw [weight]
  congr 1
  split
  · rename_i he
    subst he
    exact hf.above_first htop
  · rename_i hne
    exact hf.above_succ hmem (lt_of_le_of_ne (hmax m hm) hne)

theorem Takes.remaining_eq {p : Member × Token} (h : c.Takes c₁ p) :
    remaining S top c = weight S top p + remaining S top c₁ := by
  have hcrown : c₁.Crowned top ↔ c.Crowned top := by rw [Crowned, Crowned, h.seats]
  rw [remaining, remaining, h.bound, Multiset.map_cons, Multiset.sum_cons, add_assoc]
  simp only [hcrown]

section Step

variable (h : Truthful S old top c) (hst : Steady S c)
  (hheard : ∀ t, heard = some t → c.Credible old top s.name t)
  (hstep : c.Stepped c' s s.elector heard e a e' out)

include h hst hstep

/-- The tokens that a step sends weigh as much as the way that is left behind its member. -/
theorem sum_out_le :
    (out.map (weight S top)).sum ≤
      (a.token?.map fun t =>
        (if s.name = top then S.size else S.above s.name) + Token.again S top t).getD 0 := by
  have hname := hst.name_mem hstep.mem hstep.live
  cases hstep.dispatch with
  | quiet => simp
  | @sent t n ht hnext =>
    have hf := (hst.follows_of_mem_out hstep (Multiset.mem_singleton_self _)).2
    rw [ht, Multiset.map_singleton, Multiset.sum_singleton, weight_follows h.max hname hf]
    exact le_refl _
  | undeliverable => simp

omit hst in
include hheard in
theorem crown_le :
    (if c'.Crowned top then 0 else S.size) ≤ if c.Crowned top then 0 else S.size := by
  have hb := h.base hstep.mem
  have hmono := Truthful.crowned_step h hb hstep (h.report hstep.mem hb hheard hstep.conduct)
  by_cases hc : c.Crowned top
  · simp [hc, hmono hc]
  · rw [if_neg hc]
    split <;> omega

include hheard

/-- What a delivery sends on weighs less than what it took. -/
theorem remaining_lt_of_heard (hh : heard = some t) :
    remaining S top c' < weight S top (s.name, t) + remaining S top c := by
  subst hh
  have hname := hst.name_mem hstep.mem hstep.live
  have hle := h.le_top hname
  have hmem := hst.ring s hstep.mem hstep.live
  have hout := sum_out_le h hst hstep
  have hcrown := crown_le h hheard hstep
  have hcred := hheard t rfl
  rw [remaining, remaining, hstep.acted.bound, Multiset.map_add, Multiset.sum_add, weight]
  dsimp only
  have habove : s.name = top → S.above s.name = 0 := fun he => he ▸ MemberSet.above_top h.max
  suffices hsuff : (out.map (weight S top)).sum + (if c'.Crowned top then 0 else S.size) <
      S.above s.name + 1 + Token.again S top t + if c.Crowned top then 0 else S.size by omega
  cases hstep.conduct with
  | settled => simp [Action.token?] at hout; omega
  | rest => simp [Action.token?] at hout; omega
  | stand _ _ _ lower =>
    obtain ⟨m, rfl, _, hlow⟩ := lower t rfl
    have hne : m ≠ top := by
      rintro rfl
      rcases hlow with hlt | hnot
      · exact absurd hle hlt.not_ge
      · exact hnot (hmem ▸ h.top_mem)
    simp only [Action.token?, Option.map_some, Option.getD_some, Token.again, if_neg hne] at hout ⊢
    change _ ≤ _ + (if s.name = top then 0 else S.size) at hout
    by_cases he : s.name = top
    · simp only [he, if_true] at hout
      omega
    · simp only [he, if_false] at hout
      omega
  | @pass _ m _ _ heard_eq higher mem =>
    obtain rfl := Option.some.inj heard_eq
    have htop : m = top := h.eq_top_of_candidate (hmem ▸ mem) higher.le hcred
    have he : s.name ≠ top := fun he => (htop ▸ higher).ne he
    simp only [Action.token?, Option.map_some, Option.getD_some, if_neg he] at hout
    omega
  | win unknown heard_eq =>
    obtain rfl := Option.some.inj heard_eq
    have he : s.name = top := h.eq_top_of_candidate hname (le_refl _) hcred
    have hb := h.base hstep.mem
    have hr := h.report hstep.mem hb hheard hstep.conduct
    have hnot := Truthful.not_crowned_of_won h hb hstep hr he rfl
    have hnow := Truthful.crowned_of_won h hb hstep hr he rfl
    simp only [Action.token?, Option.map_some, Option.getD_some, he, if_true, Token.again,
      add_zero] at hout
    simp only [hnot, hnow, if_true, if_false]
    omega
  | winAlone _ heard_eq => cases heard_eq
  | @learn l unknown heard_eq mem ne =>
    obtain rfl := Option.some.inj heard_eq
    have htop : l = top := (h.eq_top_of_elected (hmem ▸ mem) hcred).1
    have he : s.name ≠ top := fun he => ne (htop.trans he.symm)
    simp only [Action.token?, Option.map_some, Option.getD_some, if_neg he] at hout
    omega
  | learnOwn => simp [Action.token?] at hout; omega

omit hheard

/-- Starting an election costs at most one way to the highest member and one round. -/
theorem remaining_le_of_asked (hh : heard = none) :
    remaining S top c' ≤
      (2 * S.size - 1) * (if a.token?.isSome then 1 else 0) + remaining S top c := by
  subst hh
  have hname := hst.name_mem hstep.mem hstep.live
  have hout := sum_out_le h hst hstep
  have hcrown := crown_le h (by simp) hstep
  have hlt := MemberSet.above_lt_size hname
  rw [remaining, remaining, hstep.acted.bound, Multiset.map_add, Multiset.sum_add]
  suffices hsuff : (out.map (weight S top)).sum ≤
      (2 * S.size - 1) * (if a.token?.isSome then 1 else 0) by omega
  refine hout.trans ?_
  cases hstep.conduct with
  | settled => simp [Action.token?]
  | rest => simp [Action.token?]
  | stand =>
    simp only [Action.token?, Option.map_some, Option.getD_some, Option.isSome_some, if_true,
      mul_one]
    change _ + (if s.name = top then 0 else S.size) ≤ _
    split <;> omega
  | pass _ _ heard_eq => cases heard_eq
  | win _ heard_eq => cases heard_eq
  | winAlone => simp [Action.token?]
  | learn _ heard_eq => cases heard_eq
  | learnOwn _ heard_eq => cases heard_eq

end Step

/-! ### Runs -/

theorem Fresh.isLive_iff (h : Fresh S c) : c.IsLive m ↔ m ∈ S := by
  rw [← Std.ExtTreeSet.mem_toList, ← h.names.mem_iff, mem_names]
  constructor
  · rintro ⟨s, hs, hname, _⟩
    exact ⟨s, hs, hname⟩
  · rintro ⟨s, hs, hname⟩
    exact ⟨s, hs, hname, h.live s hs⟩

theorem Fresh.steady (h : Fresh S c) : Steady S c where
  live _ := h.isLive_iff
  ring s hs _ := h.members s hs
  bound := by simp [bound, h.queue]


/-- Nobody is left to be removed. -/
theorem Steady.effect_none (hst : Steady S c) (h : Truthful S old top c) (he : c.Effect old c') :
    c.Effect none c' := by
  cases he with
  | idle => exact .idle
  | asked hstep => exact .asked hstep
  | @removed _ s _ _ _ _ m gone other _ hstep =>
    have hm : m ∉ s.elector.ring.members := by
      rw [hst.ring s hstep.mem hstep.live]
      exact h.old_not_mem m gone
    have hsame : (s.elector.ring.remove m).1 = s.elector.ring :=
      Ring.remove_of_not_mem hm fun hk => hm (h.held s hstep.mem m hk)
    rw [hsame] at hstep
    exact .asked hstep
  | delivered take hstep => exact .delivered take hstep
  | lost take gone => exact .lost take gone

theorem Steady.effect (hst : Steady S c) (h : Truthful S old top c) (he : c.Effect old c') :
    Steady S c' := by
  cases hst.effect_none h he with
  | idle => exact hst
  | asked hs => exact hst.step hs
  | removed gone => cases gone
  | delivered take hs => exact (hst.takes take).step hs
  | lost take => exact hst.takes take

theorem Steady.plain (hst : Steady S c) (h : Truthful S old top c) (hmv : mv.plain = true) :
    Truthful S old top (c.move mv) ∧ Steady S (c.move mv) :=
  ⟨h.effect (plain_effect h.orderly hmv), hst.effect h (plain_effect h.orderly hmv)⟩

theorem Steady.run_plain {moves : List Move} (hst : Steady S c) (h : Truthful S old top c)
    (hm : ∀ mv ∈ moves, mv.plain = true) :
    Truthful S old top (c.run moves) ∧ Steady S (c.run moves) := by
  refine Circuit.run_plain (P := fun c => Truthful S old top c ∧ Steady S c) old h.orderly hm
    (fun c₁ c₂ _ he hp => ?_) ⟨h, hst⟩
  exact ⟨hp.1.effect he, hp.2.effect hp.1 he⟩

theorem remaining_deliverAt_lt (h : Truthful S old top c) (hst : Steady S c) {place : Nat}
    (hp : place < c.queue.length) :
    remaining S top (c.deliverAt place) < remaining S top c := by
  obtain ⟨c₁, s, t, hs, htake, ⟨_, hlost⟩ | ⟨e, a, e', out, hstep⟩⟩ := deliverAt_effect h.orderly hp
  · rw [hlost.remaining_eq, weight]
    omega
  · rw [htake.remaining_eq]
    refine remaining_lt_of_heard (h.takes htake) (hst.takes htake) ?_ hstep rfl
    rintro t' ⟨⟩
    exact h.credible_of_takes htake

/-- The deliveries of a run are paid for by the tokens that were sent to start elections. -/
theorem deliveries_add_remaining_le {moves : List Move} (h : Truthful S old top c)
    (hst : Steady S c) (hm : ∀ mv ∈ moves, mv.plain = true) :
    c.deliveries moves + remaining S top (c.run moves) ≤
      (2 * S.size - 1) * c.launches moves + remaining S top c := by
  induction moves generalizing c with
  | nil => simp [deliveries, run]
  | cons mv moves ih =>
    have hmv := hm mv List.mem_cons_self
    obtain ⟨h', hst'⟩ := hst.plain h hmv
    have hrest := ih h' hst' fun mv' hmv' => hm mv' (List.mem_cons_of_mem _ hmv')
    have hlaunch : c.launches (mv :: moves) =
        (c.answer? mv).toList.countP (·.token?.isSome) + (c.move mv).launches moves :=
      List.countP_append
    have hone : (if c.delivers mv then 1 else 0) + remaining S top (c.move mv) ≤
        (2 * S.size - 1) * (c.answer? mv).toList.countP (·.token?.isSome) + remaining S top c := by
      cases mv with
      | initiate i =>
        rcases initiate_cases h.orderly i with ⟨hanswer, hsame⟩ | ⟨s, e', out, _, hanswer, hstep⟩
        · rw [hanswer, hsame]
          simp [delivers]
        · have hle := remaining_le_of_asked h hst hstep rfl
          rw [hanswer, Option.toList_some, List.countP_singleton]
          simpa [delivers] using hle
      | deliver place =>
        by_cases hp : place < c.queue.length
        · have hlt := remaining_deliverAt_lt h hst hp
          simp only [delivers, hp, decide_true, if_true, move]
          omega
        · simp [delivers, hp, move, deliverAt]
      | _ => cases hmv
    rw [deliveries, hlaunch, Nat.mul_add]
    change _ + remaining S top ((c.move mv).run moves) ≤ _
    omega

end Election.Circuit

end ReplicaRing
