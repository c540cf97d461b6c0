import ReplicaRing.Proofs.Election.Departure
import ReplicaRing.Proofs.Election.Recovery

/-!
# A member crashes with a token

Nobody knows a coordinator yet, a member crashes in the middle of the election, and the others
remove it. Whatever the last of them to do so finds, it starts over if it knows no coordinator, so
a lost candidate is always made good. A lost outcome is not: it goes from member to member in
ascending order, those that it has reached drop every candidate and do not repeat it, and so the
others never hear of it, however often they try.
-/
namespace ReplicaRing.Election

namespace Circuit

variable {c c' c₁ mid : Circuit} {S : MemberSet} {old : Option Member} {x top m : Member} {k : Nat}
  {s z : Seat} {e₀ e e' : Elector} {heard : Option Token} {a : Action} {t : Token}
  {out : Multiset (Member × Token)} {moves : List Move} {rounds : List (List Move)}

/-- All live members know one of them as the coordinator. -/
def Agreed (c : Circuit) : Prop :=
  ∃ l, c.IsLive l ∧ ∀ s ∈ c.seats, s.live = true → s.known = some l

/-- Some live members know the outcome and some do not, and it is on its way to none of these. -/
def OutcomeLost (c : Circuit) : Prop :=
  ∃ l, (∃ s ∈ c.seats, s.live = true ∧ s.known = some l) ∧
    (∃ z ∈ c.seats, z.live = true ∧ z.known = none) ∧
    ∀ z ∈ c.seats, z.live = true → z.known = none → (z.name, Token.elected l) ∉ c.bound

/-- The outcome goes through the members of `S` in ascending order. -/
structure Trail (S : MemberSet) (top : Member) (c : Circuit) : Prop where
  below : ∀ s ∈ c.seats, ∀ z ∈ c.seats, s.name ∈ S → z.name ∈ S → s.known = some top →
    s.name ≠ top → z.name < s.name → z.known = some top
  behind : ∀ m, (m, Token.elected top) ∈ c.bound →
    top < m ∨ ∀ z ∈ c.seats, z.name ∈ S → z.name < m → z.known = some top

/-- The highest member has won, or someone has still to remove `x`, or the election goes on. -/
def Underway (S : MemberSet) (x top : Member) (c : Circuit) : Prop :=
  c.Crowned top ∨ (∃ s ∈ c.seats, s.live = true ∧ x ∈ s.elector.ring.members) ∨
    (Steady S c ∧ Alive S top c)

/-- The highest member has won, but `m` does not know, and the outcome goes only to those who do. -/
structure Stuck (S : MemberSet) (top m : Member) (c : Circuit) : Prop where
  crowned : c.Crowned top
  stale : ∀ n, ∀ l ∈ S, (n, Token.elected l) ∈ c.bound →
    ∀ z ∈ c.seats, z.live = true → z.name = n → z.known ≠ none
  unknown : ∃ z ∈ c.seats, z.name = m ∧ z.live = true ∧ z.known = none

theorem Truthful.crowned_effect (h : Truthful S old top c) (he : c.Effect old c')
    (hc : c.Crowned top) : c'.Crowned top := by
  cases he with
  | idle => exact hc
  | asked hs =>
    have hb := h.base hs.mem
    exact h.crowned_step hb hs (h.report hs.mem hb (by simp) hs.conduct) hc
  | removed gone other _ hs =>
    have hb := h.base_remove hs.mem gone other
    exact h.crowned_step hb hs (h.report hs.mem hb (by simp) hs.conduct) hc
  | delivered take hs =>
    have h₁ := h.takes take
    have hb := h₁.base hs.mem
    refine h₁.crowned_step hb hs (h₁.report hs.mem hb ?_ hs.conduct) ?_
    · rintro t ⟨⟩
      exact h.credible_of_takes take
    · rw [Crowned, take.seats]
      exact hc
  | lost take =>
    rw [Crowned, take.seats]
    exact hc

/-! ### The outcome goes around in order -/

namespace Trail

theorem takes (ht : Trail S top c) {p : Member × Token} (take : c.Takes c₁ p) :
    Trail S top c₁ where
  below := by rw [take.seats]; exact ht.below
  behind m hm := by rw [take.seats]; exact ht.behind m (take.bound ▸ Multiset.mem_cons_of_mem hm)

theorem step (ht : Trail S top c) (h : Truthful S old top c) (hb : Base S old s e₀)
    (hheard : heard = some (.elected top) →
      top < s.name ∨ ∀ z ∈ c.seats, z.name ∈ S → z.name < s.name → z.known = some top)
    (hstep : c.Stepped c' s e₀ heard e a e' out) : Trail S top c' := by
  have hname := hstep.name_eq hb.owner
  have hown : e₀.ring.owner ∈ e₀.ring.members := hb.owner ▸ hb.own
  have hkept : s.known = some top → e.ring.coordinator = some top := fun hs =>
    hstep.conduct.keeps (hb.kept top hs h.old_ne_top)
  have hseat := hstep.acted.seats
  constructor
  · intro y hy z hz hyS hzS hyknown hne hlt
    rcases (hseat y).mp hy with rfl | ⟨hy, _⟩
    · rw [hname] at hyS hne hlt
      rw [hstep.known_eq] at hyknown
      rcases (hseat z).mp hz with rfl | ⟨hz, _⟩
      · exact absurd hlt (hname ▸ lt_irrefl _)
      · rcases hstep.conduct.knows hown hyknown with hknown | htop | htold
        · exact ht.below s hstep.mem z hz hyS hzS (hb.known top hknown) hne hlt
        · exact absurd (htop.trans hb.owner).symm hne
        · rcases hheard htold with hlow | hall
          · exact absurd (h.le_top hyS) hlow.not_ge
          · exact hall z hz hzS hlt
    · rcases (hseat z).mp hz with rfl | ⟨hz, _⟩
      · rw [hname] at hzS hlt
        rw [hstep.known_eq]
        exact hkept (ht.below y hy s hstep.mem hyS hzS hyknown hne hlt)
      · exact ht.below y hy z hz hyS hzS hyknown hne hlt
  · intro m hm
    rw [hstep.acted.bound] at hm
    rcases Multiset.mem_add.mp hm with hm | hm
    · refine (ht.behind m hm).imp id fun hall z hz hzS hlt => ?_
      rcases (hseat z).mp hz with rfl | ⟨hz, _⟩
      · rw [hname] at hzS hlt
        rw [hstep.known_eq]
        exact hkept (hall s hstep.mem hzS hlt)
      · exact hall z hz hzS hlt
    · obtain ⟨htoken, hfollows⟩ := hstep.dispatch.out_cases hm
      obtain ⟨hknown, hsource⟩ := hstep.conduct.tells hown htoken
      rw [hstep.conduct.members_eq, hstep.conduct.owner_eq, hb.owner] at hfollows
      have hmem : ∀ k ∈ S, k ∈ e₀.ring.members := fun k hk =>
        (hb.ring k fun hold => h.old_not_mem k hold hk).mpr hk
      -- The receiver is the next higher member, or the lowest, which has nobody below it.
      obtain ⟨_, _, ⟨hlt, hleast⟩ | ⟨_, hmin⟩⟩ := hfollows
      · rcases hsource with htop | htold
        · exact Or.inl (htop.trans hb.owner ▸ hlt)
        · refine (hheard htold).imp (fun hlow => hlow.trans hlt) fun hall z hz hzS hzm => ?_
          have hzs : z.name ≤ s.name := by
            by_contra hsz
            exact absurd hzm (hleast z.name (hmem _ hzS) (not_le.mp hsz)).not_gt
          rcases (hseat z).mp hz with rfl | ⟨hz, hzne⟩
          · rw [hstep.known_eq]
            exact hknown
          · exact hall z hz hzS (lt_of_le_of_ne hzs hzne)
      · exact Or.inr fun z _ hzS hzm => absurd hzm (hmin z.name (hmem _ hzS)).not_gt

theorem effect (ht : Trail S top c) (h : Truthful S old top c) (he : c.Effect old c') :
    Trail S top c' := by
  cases he with
  | idle => exact ht
  | asked hs => exact ht.step h (h.base hs.mem) (by simp) hs
  | removed gone other _ hs => exact ht.step h (h.base_remove hs.mem gone other) (by simp) hs
  | delivered take hs =>
    refine (ht.takes take).step (h.takes take) ((h.takes take).base hs.mem) ?_ hs
    rintro ⟨⟩
    rw [take.seats]
    exact ht.behind _ (take.bound ▸ Multiset.mem_cons_self _ _)
  | lost take => exact ht.takes take

theorem crash (ht : Trail S top c) (k : Nat) : Trail S top (c.crash k) := by
  have hbound : ∀ {p}, p ∈ (c.crash k).bound → p ∈ c.bound :=
    bound_subset (names_crash c k) fun _ hp => hp
  constructor
  · intro y hy z hz hyS hzS hyknown hne hlt
    obtain ⟨y', hy', hyy⟩ := mem_crash hy
    obtain ⟨z', hz', hzz⟩ := mem_crash hz
    simp only [Seat.name, Seat.known, ← hyy, ← hzz] at hyS hzS hyknown hne hlt ⊢
    exact ht.below y' hy' z' hz' hyS hzS hyknown hne hlt
  · intro m hm
    refine (ht.behind m (hbound hm)).imp id fun hall z hz hzS hlt => ?_
    obtain ⟨z', hz', hzz⟩ := mem_crash hz
    simp only [Seat.name, Seat.known, ← hzz] at hzS hlt ⊢
    exact hall z' hz' hzS hlt

end Trail

/-! ### The last removal starts over -/

/-- Who is left when all have removed `x` has just the others in its ring. -/
theorem Truthful.steady_of_dropped (h : Truthful S (some x) top c)
    (hlive : ∀ m, c.IsLive m ↔ m ∈ S) (hsize : 1 < S.size)
    (hdropped : ∀ s ∈ c.seats, s.live = true → x ∉ s.elector.ring.members) : Steady S c where
  live := hlive
  ring s hs hl := by
    apply Std.ExtTreeSet.ext_mem
    intro m
    by_cases hm : x = m
    · subst hm
      exact iff_of_false (hdropped s hs hl) (h.old_not_mem x rfl)
    · exact h.ring s hs m fun hx => hm (Option.some.inj hx)
  bound _ _ _ := hsize

/-- Before the highest member wins, nobody knows of an outcome. -/
theorem Truthful.quiet (h : Truthful S old top c) (hst : Steady S c) (hc : ¬ c.Crowned top) :
    Quiet S c where
  unknown _ hs hl := (hst.known_cases h hs hl).resolve_right fun hknown => hc hknown.2
  tokens _ _ hin hl := hc (h.eq_top_of_elected hl (h.tokens _ hin)).2

theorem Stepped.members_kept (hstep : c.Stepped c' s s.elector heard e a e' out)
    (hn : c.names.Nodup) (hz : z ∈ c.seats) :
    ∃ y ∈ c'.seats, y.live = z.live ∧ y.elector.ring.members = z.elector.ring.members := by
  by_cases hzs : z.name = s.name
  · rw [seat_unique hn hstep.mem hz hzs]
    refine ⟨{ s with elector := e' }, (hstep.acted.seats _).mpr (Or.inl rfl), rfl, ?_⟩
    exact hstep.dispatch.ring_eq ▸ hstep.conduct.members_eq
  · exact ⟨z, (hstep.acted.seats z).mpr (Or.inr ⟨hz, hzs⟩), rfl, rfl⟩

/-- **The last removal starts an election unless the highest member has won.** -/
theorem Underway.effect (hu : Underway S x top c) (h : Truthful S (some x) top c)
    (hlive : ∀ m, c.IsLive m ↔ m ∈ S) (hsize : 1 < S.size) (he : c.Effect (some x) c') :
    Underway S x top c' := by
  by_cases hcrown : c'.Crowned top
  · exact Or.inl hcrown
  by_cases hholder : ∃ y ∈ c'.seats, y.live = true ∧ x ∈ y.elector.ring.members
  · exact Or.inr (Or.inl hholder)
  refine Or.inr (Or.inr ?_)
  rcases hu with hc | ⟨z, hz, hl, hx⟩ | ⟨hst, ha⟩
  · exact absurd (h.crowned_effect he hc) hcrown
  · cases he with
    | idle => exact absurd ⟨z, hz, hl, hx⟩ hholder
    | asked hstep =>
      obtain ⟨y, hy, hylive, hymembers⟩ := hstep.members_kept h.orderly.nodup hz
      exact absurd ⟨y, hy, hylive.trans hl, hymembers ▸ hx⟩ hholder
    | @removed _ s _ _ _ _ _ gone other restarts hstep =>
      cases gone
      -- Nobody holds `x` afterwards, so the last who did is the one that acts.
      have hzs : z.name = s.name := by
        by_contra hne
        exact hholder ⟨z, (hstep.acted.seats z).mpr (Or.inr ⟨hz, hne⟩), hl, hx⟩
      rw [seat_unique h.orderly.nodup hstep.mem hz hzs] at hx
      -- Between its removal and its start all rings are alike, as at the start of an election.
      obtain ⟨c₁, hfirst, hsecond⟩ := hstep.split h.orderly.nodup (Ring.remove_owner _ _)
      have h₁ : Truthful S (some x) top c₁ :=
        h.step (h.base_remove hstep.mem rfl other) (by simp) hfirst
      have hlive₁ : ∀ m, c₁.IsLive m ↔ m ∈ S := fun m =>
        (hfirst.isLive_iff (Ring.remove_owner _ _)).trans (hlive m)
      have hdropped : ∀ y ∈ c₁.seats, y.live = true → x ∉ y.elector.ring.members := by
        intro y hy hyl hxy
        rcases (hfirst.acted.seats y).mp hy with rfl | ⟨hy, hne⟩
        · exact ((Ring.mem_remove other).mp hxy).1 rfl
        · exact hholder ⟨y, (hstep.acted.seats y).mpr (Or.inr ⟨hy, hne⟩), hyl, hxy⟩
      have hst₁ := h₁.steady_of_dropped hlive₁ hsize hdropped
      have hq₁ : Quiet S c₁ := h₁.quiet hst₁ fun hc =>
        hcrown (h₁.crowned_effect (.asked hsecond) hc)
      refine ⟨hst₁.step hsecond, ?_⟩
      rcases hq₁.asked h₁ hst₁ hsecond with ⟨hignore, _⟩ | halive
      · exact absurd hignore (restarts hx (hq₁.unknown _ hsecond.mem hsecond.live))
      · exact halive
    | delivered take hstep =>
      have hn := (h.takes take).orderly.nodup
      obtain ⟨y, hy, hylive, hymembers⟩ := hstep.members_kept hn (take.seats ▸ hz)
      exact absurd ⟨y, hy, hylive.trans hl, hymembers ▸ hx⟩ hholder
    | lost take => exact absurd ⟨z, take.seats ▸ hz, hl, hx⟩ hholder
  · exact ⟨hst.effect h he, ha.effect h hst he⟩

/-! ### The outcome is on its way or lost -/

/-- An outcome on its way to someone who does not know it reaches everyone. -/
theorem Trail.alive (ht : Trail S top c) (h : Truthful S old top c) (hst : Steady S c)
    (hc : c.Crowned top) (hkept : ¬ c.OutcomeLost) : Alive S top c := by
  by_cases hall : ∃ z ∈ c.seats, z.live = true ∧ z.known = none
  · have hone : ∃ z ∈ c.seats, z.live = true ∧ z.known = none ∧
        (z.name, Token.elected top) ∈ c.bound := by
      by_contra hno
      obtain ⟨s, hs, hname, hl⟩ := (hst.live top).mpr h.top_mem
      refine hkept ⟨top, ⟨s, hs, hl, h.known_of_crowned hs hname hc⟩, hall, ?_⟩
      exact fun z hz hzl hunknown hin => hno ⟨z, hz, hzl, hunknown, hin⟩
    obtain ⟨z, hz, hl, hunknown, hin⟩ := hone
    have hzS := hst.name_mem hz hl
    have hpassed : ∀ m ∈ S, (m, Token.elected top) ∈ c.bound → m ≤ z.name := by
      intro m hm hmin
      by_contra hzm
      rcases ht.behind m hmin with hlow | hbehind
      · exact absurd (h.le_top hm) hlow.not_ge
      · have hknown := hbehind z hz hzS (not_le.mp hzm)
        rw [hunknown] at hknown
        cases hknown
    refine Or.inr ⟨z.name, hzS, fun y hy hyl => ?_, fun _ => hin, hpassed⟩
    have hyS := hst.name_mem hy hyl
    constructor
    · intro hknown
      by_contra hnot
      obtain ⟨hge, hne⟩ := not_or.mp hnot
      rcases (not_lt.mp hge).lt_or_eq with hlt | heq
      · have hzknown := ht.below y hy z hz hyS hzS hknown hne hlt
        rw [hunknown] at hzknown
        cases hzknown
      · rw [seat_unique h.orderly.nodup hz hy heq.symm, hunknown] at hknown
        cases hknown
    · rintro (hlt | htop)
      · rcases ht.behind z.name hin with hlow | hbehind
        · exact absurd (h.le_top hzS) hlow.not_ge
        · exact hbehind y hy hyS hlt
      · exact h.known_of_crowned hy htop hc
  · refine Or.inr ⟨top, h.top_mem, fun y hy hyl => ?_, fun hne => absurd rfl hne,
      fun m hm _ => h.le_top hm⟩
    have hknown := (hst.known_cases h hy hyl).resolve_left fun hnone => hall ⟨y, hy, hyl, hnone⟩
    exact iff_of_true hknown.1 (h.le_top (hst.name_mem hy hyl)).lt_or_eq

/-- Otherwise someone will never know it. -/
theorem OutcomeLost.stuck (hlost : c.OutcomeLost) (h : Truthful S old top c) (hst : Steady S c) :
    ∃ m, Stuck S top m c := by
  obtain ⟨l, ⟨s, hs, hl, hknown⟩, ⟨z, hz, hzl, hunknown⟩, hnone⟩ := hlost
  rcases hst.known_cases h hs hl with hsnone | ⟨hstop, hcrown⟩
  · rw [hknown] at hsnone
    cases hsnone
  · obtain rfl : l = top := Option.some.inj (hknown.symm.trans hstop)
    refine ⟨z.name, hcrown, ?_, z, hz, rfl, hzl, hunknown⟩
    rintro n l' hl' hin y hy hyl rfl hyunknown
    obtain rfl := (h.eq_top_of_elected hl' (h.tokens _ hin)).1
    exact hnone y hy hyl hyunknown hin

namespace Stuck

theorem takes (hstuck : Stuck S top m c) {p : Member × Token} (take : c.Takes c₁ p) :
    Stuck S top m c₁ where
  crowned := by
    rw [Crowned, take.seats]
    exact hstuck.crowned
  stale n l hl hin := by
    rw [take.seats]
    exact hstuck.stale n l hl (take.bound ▸ Multiset.mem_cons_of_mem hin)
  unknown := by
    rw [take.seats]
    exact hstuck.unknown

/-- Nobody learns or tells the outcome. -/
theorem conduct (hstuck : Stuck S top m c) (h : Truthful S old top c) (hst : Steady S c)
    (hs : s ∈ c.seats) (hl : s.live = true)
    (hheard : ∀ t, heard = some t → c.Credible old top s.name t)
    (hstale : ∀ l ∈ S, heard = some (.elected l) → s.known ≠ none)
    (hcon : Conduct s.elector heard e a) :
    e.ring.coordinator = s.known ∧ ∀ l, a.token? ≠ some (.elected l) := by
  have hname := hst.name_mem hs hl
  have hring := hst.ring s hs hl
  have hlosers : s.elector.ring.coordinator = none → s.name ≠ top := by
    intro hunknown htop
    have hknown := h.known_of_crowned hs htop hstuck.crowned
    rw [Seat.known, hunknown] at hknown
    cases hknown
  cases hcon with
  | settled _ ring => exact ⟨congrArg Ring.coordinator ring, by simp [Action.token?]⟩
  | rest _ ring => exact ⟨congrArg Ring.coordinator ring, by simp [Action.token?]⟩
  | stand _ ring => exact ⟨congrArg Ring.coordinator ring, by simp [Action.token?]⟩
  | pass _ ring => exact ⟨congrArg Ring.coordinator ring, by simp [Action.token?]⟩
  | win unknown heard_eq =>
    have htop := h.eq_top_of_candidate hname (le_refl _) (hheard _ heard_eq)
    exact absurd htop (hlosers unknown)
  | winAlone unknown _ halone =>
    have htop := Ring.eq_of_not_hasSuccessor halone (h.own s hs) (hring ▸ h.top_mem)
    exact absurd htop (hlosers unknown)
  | learn unknown heard_eq mem => exact absurd unknown (hstale _ (hring ▸ mem) heard_eq)
  | learnOwn unknown heard_eq => exact absurd unknown (hstale _ hname heard_eq)

theorem step (hstuck : Stuck S top m c) (h : Truthful S old top c) (hst : Steady S c)
    (hheard : ∀ t, heard = some t → c.Credible old top s.name t)
    (hstale : ∀ l ∈ S, heard = some (.elected l) → s.known ≠ none)
    (hstep : c.Stepped c' s s.elector heard e a e' out) : Stuck S top m c' := by
  obtain ⟨hknown, hout⟩ := hstuck.conduct h hst hstep.mem hstep.live hheard hstale hstep.conduct
  have hb := h.base hstep.mem
  have hsame : Seat.known { s with elector := e' } = s.known := hstep.known_eq.trans hknown
  refine ⟨h.crowned_step hb hstep (h.report hstep.mem hb hheard hstep.conduct) hstuck.crowned,
    fun n l hl hin z hz hzl hname => ?_, ?_⟩
  · rw [hstep.acted.bound] at hin
    rcases Multiset.mem_add.mp hin with hin | hin
    · rcases (hstep.acted.seats z).mp hz with rfl | ⟨hz, _⟩
      · rw [hsame]
        exact hstuck.stale n l hl hin s hstep.mem hzl ((hstep.name_eq rfl).symm.trans hname)
      · exact hstuck.stale n l hl hin z hz hzl hname
    · exact absurd (hstep.dispatch.out_cases hin).1 (hout l)
  · obtain ⟨z, hz, hname, hl, hunknown⟩ := hstuck.unknown
    by_cases hzs : z.name = s.name
    · rw [seat_unique h.orderly.nodup hstep.mem hz hzs] at hunknown
      exact ⟨{ s with elector := e' }, (hstep.acted.seats _).mpr (Or.inl rfl),
        (hstep.name_eq rfl).trans (hzs.symm.trans hname), hstep.live, hsame.trans hunknown⟩
    · exact ⟨z, (hstep.acted.seats z).mpr (Or.inr ⟨hz, hzs⟩), hname, hl, hunknown⟩

/-- **Who was not told is never told.** -/
theorem effect (hstuck : Stuck S top m c) (h : Truthful S old top c) (hst : Steady S c)
    (he : c.Effect old c') : Stuck S top m c' := by
  cases hst.effect_none h he with
  | idle => exact hstuck
  | asked hstep => exact hstuck.step h hst (by simp) (by simp) hstep
  | removed gone => cases gone
  | @delivered c₁ _ s t _ _ _ _ take hstep =>
    refine (hstuck.takes take).step (h.takes take) (hst.takes take) ?_ ?_ hstep
    · rintro _ ⟨⟩
      exact h.credible_of_takes take
    · rintro l hl ⟨⟩
      exact hstuck.stale _ l hl (take.bound ▸ Multiset.mem_cons_self _ _) s
        (take.seats ▸ hstep.mem) hstep.live rfl
  | lost take => exact hstuck.takes take

end Stuck

/-! ### From the crash to the end -/

/-- What the survivors of the crash come to when all have removed `x`. -/
structure Survived (S : MemberSet) (x top : Member) (c : Circuit) : Prop where
  truthful : Truthful S (some x) top c
  steady : Steady S c
  trail : Trail S top c
  won : c.Crowned top ∨ Alive S top c

theorem Fresh.trail {S₀ : MemberSet} (hc : Fresh S₀ c) : Trail S top c where
  below s hs z hz _ _ hknown := by
    rw [hc.unknown s hs] at hknown
    cases hknown
  behind := by simp [bound_eq_zero hc.queue]

theorem survived (hsize : 3 ≤ S.size) (hc : Fresh S c) (hk : c.names[k]? = some x)
    {before removals : List Move} (hbefore : ∀ mv ∈ before, mv.plain = true)
    (hremovals : ∀ mv ∈ removals, mv.plain = true ∨ ∃ i, i ≠ k ∧ mv.RemovesAt i x)
    (hall : ∀ i < c.names.length, i ≠ k → ∃ mv ∈ removals, mv.RemovesAt i x) :
    ∃ top, Survived (S.erase x) x top (c.run (before ++ .crash k :: removals)) ∧
      (c.run (before ++ .crash k :: removals)).names = c.names := by
  have hsize' : 1 < (S.erase x).size := by
    have hle := Std.ExtTreeSet.size_le_size_erase (t := S) (k := x)
    omega
  have hne : S.erase x ≠ ∅ := MemberSet.erase_ne_empty (by omega) x
  obtain ⟨top, htop⟩ :=
    Option.isSome_iff_exists.mp (Std.ExtTreeSet.isSome_max?_iff_ne_empty.mpr hne)
  have hx : x ∉ S.erase x := fun hx => (MemberSet.mem_erase_iff.mp hx).1 rfl
  have hstart : Truthful (S.erase x) (some x) top c := by
    refine hc.truthful htop (by rintro y ⟨⟩; exact hx) fun m hm => ?_
    rw [MemberSet.mem_erase_iff]
    exact (and_iff_right fun hmx => hm (congrArg some hmx.symm)).symm
  obtain ⟨h₁, ht₁, hnames₁, hlive₁⟩ := run_plain (P := fun c₁ =>
      Truthful (S.erase x) (some x) top c₁ ∧ Trail (S.erase x) top c₁ ∧ c₁.names = c.names ∧
        ∀ m, c₁.IsLive m ↔ m ∈ S) (some x) hstart.orderly hbefore
    (fun _ _ _ he hp => ⟨hp.1.effect he, hp.2.1.effect hp.1 he, he.names_eq.trans hp.2.2.1,
      fun m => he.isLive_iff.trans (hp.2.2.2 m)⟩)
    ⟨hstart, hc.trail, rfl, fun _ => hc.isLive_iff⟩
  have hmembers₁ : ∀ s ∈ (c.run before).seats, s.elector.ring.members = S := by
    have hfull : S ≠ ∅ := by
      intro hempty
      rw [hempty, Std.ExtTreeSet.size_empty] at hsize
      omega
    obtain ⟨full, hmax⟩ :=
      Option.isSome_iff_exists.mp (Std.ExtTreeSet.isSome_max?_iff_ne_empty.mpr hfull)
    have hfresh : Truthful S none full c := hc.truthful hmax (by simp) (by simp)
    have hrun := (hc.steady.run_plain hfresh hbefore).1
    exact fun s hs => Std.ExtTreeSet.ext_mem fun m => hrun.ring s hs m (by simp)
  -- The crash takes `x` out of the live members, and nothing else.
  have h₂ := h₁.crash k
  have hnames₂ : ((c.run before).crash k).names = c.names := (names_crash _ k).trans hnames₁
  have hk₂ : ((c.run before).crash k).names[k]? = some x := hnames₂ ▸ hk
  have hlive₂ : ∀ m, ((c.run before).crash k).IsLive m ↔ m ∈ S.erase x := by
    intro m
    rw [isLive_crash h₁.orderly.nodup (hnames₁ ▸ hk), hlive₁, MemberSet.mem_erase_iff, and_comm]
  have hu₂ : Underway (S.erase x) x top ((c.run before).crash k) := by
    obtain ⟨s, hs, hname, hl⟩ := (hlive₂ top).mpr (MemberSet.max?_eq_some_iff.mp htop).1
    obtain ⟨y, hy, hys⟩ := mem_crash hs
    refine Or.inr (Or.inl ⟨s, hs, hl, ?_⟩)
    rw [← hys, hmembers₁ y hy]
    exact hc.names.mem_iff.mp (List.mem_of_getElem? hk) |> Std.ExtTreeSet.mem_toList.mp
  have hparting := parting_of_ne h₂.orderly hk₂ hremovals
  have hrun : c.run (before ++ .crash k :: removals) = ((c.run before).crash k).run removals := by
    rw [run_append]
    rfl
  rw [hrun]
  obtain ⟨h, ht, hlive, hu, hnames⟩ := run_parting (P := fun c₁ =>
      Truthful (S.erase x) (some x) top c₁ ∧ Trail (S.erase x) top c₁ ∧
        (∀ m, c₁.IsLive m ↔ m ∈ S.erase x) ∧ Underway (S.erase x) x top c₁ ∧
        c₁.names = c.names) x h₂.orderly hparting
    (fun _ _ _ he hp => by
      obtain ⟨h, ht, hlive, hu, hnames⟩ := hp
      exact ⟨h.effect he, ht.effect h he, fun m => he.isLive_iff.trans (hlive m),
        hu.effect h hlive hsize' he, he.names_eq.trans hnames⟩)
    ⟨h₂, ht₁.crash k, hlive₂, hu₂, hnames₂⟩
  have hdropped : ∀ s ∈ (((c.run before).crash k).run removals).seats, s.live = true →
      x ∉ s.elector.ring.members := by
    intro s hs hl
    refine all_dropped h₂.orderly hk₂ ?_ hparting (hnames₂.symm ▸ hall) hs hl
    rw [hlive₂]
    exact hx
  have hst := h.steady_of_dropped hlive hsize' hdropped
  refine ⟨top, ⟨h, hst, ht, ?_⟩, hnames⟩
  rcases hu with hcrown | ⟨s, hs, hl, hxs⟩ | ⟨_, ha⟩
  · exact Or.inl hcrown
  · exact absurd hxs (hdropped s hs hl)
  · exact Or.inr ha

/-- When no token is left, the survivors agree unless the outcome was lost, whatever they try. -/
theorem Survived.agreed_iff (hs : Survived S x top mid) {rest : List Move}
    (hrest : ∀ mv ∈ rest, mid.Parting x mv) (hqueue : (mid.run rest).queue = [])
    (hrounds : (mid.run rest).Rounds rounds) :
    ((mid.run rest).run rounds.flatten).Agreed ↔ ¬ mid.OutcomeLost := by
  have hpair : ∀ {c c' : Circuit}, c.Effect (some x) c' →
      Truthful S (some x) top c ∧ Steady S c → Truthful S (some x) top c' ∧ Steady S c' :=
    fun he hp => ⟨hp.1.effect he, hp.2.effect hp.1 he⟩
  have hend := hrounds.queue hqueue
  by_cases hlost : mid.OutcomeLost
  · refine iff_of_false ?_ (not_not.mpr hlost)
    obtain ⟨m, hstuck⟩ := hlost.stuck hs.truthful hs.steady
    obtain ⟨hp, hstuck⟩ := run_parting (P := fun c => (Truthful S (some x) top c ∧ Steady S c) ∧
      Stuck S top m c) x hs.truthful.orderly hrest
      (fun _ _ _ he hp => ⟨hpair he hp.1, hp.2.effect hp.1.1 hp.1.2 he⟩)
      ⟨⟨hs.truthful, hs.steady⟩, hstuck⟩
    obtain ⟨_, hstuck⟩ := run_plain (P := fun c => (Truthful S (some x) top c ∧ Steady S c) ∧
      Stuck S top m c) (some x) hp.1.orderly hrounds.plain
      (fun _ _ _ he hp => ⟨hpair he hp.1, hp.2.effect hp.1.1 hp.1.2 he⟩) ⟨hp, hstuck⟩
    obtain ⟨z, hz, _, hl, hunknown⟩ := hstuck.unknown
    rintro ⟨l, _, hall⟩
    rw [hall z hz hl] at hunknown
    cases hunknown
  · refine iff_of_true ?_ hlost
    have halive : Alive S top mid := hs.won.elim
      (fun hc => hs.trail.alive hs.truthful hs.steady hc hlost) id
    obtain ⟨hp, halive⟩ := run_parting (P := fun c => (Truthful S (some x) top c ∧ Steady S c) ∧
      Alive S top c) x hs.truthful.orderly hrest
      (fun _ _ _ he hp => ⟨hpair he hp.1, hp.2.effect hp.1.1 hp.1.2 he⟩)
      ⟨⟨hs.truthful, hs.steady⟩, halive⟩
    obtain ⟨h, hst⟩ := hp.2.run_plain hp.1 hrounds.plain
    have halive := halive.run_plain hp.1 hp.2 hrounds.plain
    exact ⟨top, (hst.live top).mpr h.top_mem, fun s hs hl =>
      halive.known_of_queue h hst hend hs hl⟩

/-- **After a crash the election recovers, unless the outcome was lost half way around.** Members
start elections and tokens arrive in whatever order; `x` crashes at some point, and all others
remove it. From there it depends on one thing only. If no outcome is lost, then as soon as no token
is left all survivors know the same survivor, and further rounds of attempts change nothing. If
it is lost, they never agree, in however many rounds. -/
theorem agreed_iff_outcome_kept (hsize : 3 ≤ S.size) (hc : Fresh S c) (hk : c.names[k]? = some x)
    (before removals rest : List Move) (hbefore : ∀ mv ∈ before, mv.plain = true)
    (hremovals : ∀ mv ∈ removals, mv.plain = true ∨ ∃ i, i ≠ k ∧ mv.RemovesAt i x)
    (hall : ∀ i < c.names.length, i ≠ k → ∃ mv ∈ removals, mv.RemovesAt i x)
    (hmid : c.run (before ++ .crash k :: removals) = mid)
    (hrest : ∀ mv ∈ rest, mv.plain = true ∨ ∃ i, i ≠ k ∧ mv.RemovesAt i x)
    (hend : mid.run rest = c') (hqueue : c'.queue = []) :
    (∀ m, c'.IsLive m ↔ m ∈ S.erase x) ∧
      (∀ rounds, c'.Rounds rounds → ((c'.run rounds.flatten).Agreed ↔ ¬ mid.OutcomeLost)) ∧
      ∀ n, ∃ rounds, c'.Rounds rounds ∧ rounds.length = n := by
  obtain ⟨top, hs, hnames⟩ := survived hsize hc hk hbefore hremovals hall
  rw [hmid] at hs hnames
  subst hend
  have hparting := parting_of_ne hs.truthful.orderly (hnames.symm ▸ hk) hrest
  obtain ⟨h, hst⟩ := run_parting (P := fun c => Truthful (S.erase x) (some x) top c ∧
    Steady (S.erase x) c) x hs.truthful.orderly hparting
    (fun _ _ _ he hp => ⟨hp.1.effect he, hp.2.effect hp.1 he⟩) ⟨hs.truthful, hs.steady⟩
  exact ⟨hst.live, fun rounds hrounds => hs.agreed_iff hparting hqueue hrounds,
    fun n => exists_rounds h hst n⟩

/-- Of three members the lowest crashes with the outcome. The middle one never hears of it. -/
theorem outcome_lost_among_three :
    let members : List Member := [⟨"10.0.0.1", 10, 1⟩, ⟨"10.0.0.1", 20, 1⟩, ⟨"10.0.0.1", 30, 1⟩]
    let before : List Move := [.initiate 2, .deliver 0, .deliver 0, .deliver 0]
    let removals : List Move := [.deliver 0, .suspect 1 ⟨"10.0.0.1", 10, 1⟩,
      .suspect 2 ⟨"10.0.0.1", 10, 1⟩]
    let c := (ofMembers members).run (before ++ .crash 0 :: removals)
    (∀ n, ∃ rounds, (c.run [.deliver 0]).Rounds rounds ∧ rounds.length = n) ∧
      ∀ rounds, (c.run [.deliver 0]).Rounds rounds →
        ¬ ((c.run [.deliver 0]).run rounds.flatten).Agreed := by
  intro members before removals c
  have hms : members.Nodup := by decide
  have hremovals : ∀ mv ∈ removals,
      mv.plain = true ∨ ∃ i, i ≠ 0 ∧ mv.RemovesAt i ⟨"10.0.0.1", 10, 1⟩ := by
    simp only [removals, List.forall_mem_cons]
    exact ⟨Or.inl rfl, Or.inr ⟨1, by decide, by decide⟩, Or.inr ⟨2, by decide, by decide⟩, by simp⟩
  have hlost : c.OutcomeLost := ⟨⟨"10.0.0.1", 30, 1⟩, by decide, by decide, by decide⟩
  obtain ⟨_, hiff, hrounds⟩ := agreed_iff_outcome_kept (by decide) (ofMembers_fresh hms)
    (rfl : (ofMembers members).names[0]? = some ⟨"10.0.0.1", 10, 1⟩) before removals [.deliver 0]
    (by decide) hremovals (by decide) rfl (by simp [Move.plain]) rfl (by decide)
  exact ⟨hrounds, fun rounds hround hagreed => (hiff rounds hround).mp hagreed hlost⟩

end Circuit

end ReplicaRing.Election
