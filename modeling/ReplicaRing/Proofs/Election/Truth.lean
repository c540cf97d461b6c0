import ReplicaRing.Proofs.Election.Effect

/-!
# What is said in an election is true

The safety invariant. Rings are sorted, so a member hands its own name to a higher one unless it is
the highest: a candidate on its way either still goes to a higher member or is the highest. Hence
only the highest can hear itself, and outcomes name nobody else. One member `old` may be gone, or
about to go; what is said of it does not count. The invariant holds whatever is lost or repeated.
-/
namespace ReplicaRing.Election

namespace Circuit

variable {c c' c₁ : Circuit} {S : MemberSet} {old : Option Member} {top m n : Member} {s : Seat}
  {e₀ e e' : Elector} {heard : Option Token} {a : Action} {out : Multiset (Member × Token)}

/-- The highest member has taken the role. -/
def Crowned (c : Circuit) (top : Member) : Prop :=
  ∃ s ∈ c.seats, s.name = top ∧ s.known = some top

/-- A candidate goes to a higher member or is the highest, and an outcome names the highest, which
has taken the role. -/
def Credible (c : Circuit) (old : Option Member) (top receiver : Member) : Token → Prop
  | .candidate m => m = top ∨ old = some m ∨ m < receiver
  | .elected l => old = some l ∨ (l = top ∧ c.Crowned top)

/-- `S` are the members apart from `old`, and `top` is the highest of them. -/
structure Truthful (S : MemberSet) (old : Option Member) (top : Member) (c : Circuit) : Prop where
  orderly : c.Orderly
  max : S.max? = some top
  old_not_mem : ∀ x, old = some x → x ∉ S
  name : ∀ s ∈ c.seats, s.name ∈ S ∨ old = some s.name
  own : ∀ s ∈ c.seats, s.name ∈ s.elector.ring.members
  ring : ∀ s ∈ c.seats, ∀ m, old ≠ some m → (m ∈ s.elector.ring.members ↔ m ∈ S)
  held : ∀ s ∈ c.seats, ∀ l, s.known = some l → l ∈ s.elector.ring.members
  known : ∀ s ∈ c.seats, ∀ l, s.known = some l → old = some l ∨ (l = top ∧ c.Crowned top)
  tokens : ∀ p ∈ c.bound, c.Credible old top p.1 p.2
  winners : ∀ w ∈ c.winners, w = top ∨ old = some w
  wins : (c.Crowned top → c.winners.count top = 1) ∧ (¬ c.Crowned top → top ∉ c.winners)

/-- Where the step of the member at `s` starts: its elector, or its elector without `old`. -/
structure Base (S : MemberSet) (old : Option Member) (s : Seat) (e₀ : Elector) : Prop where
  owner : e₀.ring.owner = s.name
  own : s.name ∈ e₀.ring.members
  ring : ∀ m, old ≠ some m → (m ∈ e₀.ring.members ↔ m ∈ S)
  held : ∀ l, e₀.ring.coordinator = some l → l ∈ e₀.ring.members
  known : ∀ l, e₀.ring.coordinator = some l → s.known = some l
  kept : ∀ l, s.known = some l → old ≠ some l → e₀.ring.coordinator = some l

/-- What a step comes to when everything heard is credible. -/
inductive Report (c : Circuit) (old : Option Member) (top : Member) (s : Seat) (e₀ : Elector) :
    Elector → Action → Prop
  /-- Nothing new is known; a candidate may go on. -/
  | silent {e : Elector} {a : Action} (coordinator : e.ring.coordinator = e₀.ring.coordinator)
      (won : a.isWon = false)
      (tokens : ∀ t, a.token? = some t →
        ∃ m, t = .candidate m ∧ (m = s.name ∨ m = top ∨ old = some m)) : Report c old top s e₀ e a
  /-- The member takes the role. -/
  | won {e : Elector} {a : Action} (unknown : e₀.ring.coordinator = none)
      (coordinator : e.ring.coordinator = some s.name)
      (entitled : s.name = top ∨ old = some s.name) (won : a.isWon = true)
      (tokens : ∀ t, a.token? = some t → t = .elected s.name) : Report c old top s e₀ e a
  /-- The outcome is new to the member. -/
  | told {e : Elector} {a : Action} {l : Member} (unknown : e₀.ring.coordinator = none)
      (coordinator : e.ring.coordinator = some l) (mem : l ∈ e₀.ring.members)
      (credible : old = some l ∨ (l = top ∧ c.Crowned top))
      (won : a.isWon = false) (tokens : ∀ t, a.token? = some t → t = .elected l) :
      Report c old top s e₀ e a

namespace Truthful

theorem le_top (h : Truthful S old top c) (hm : m ∈ S) : m ≤ top :=
  (MemberSet.max?_eq_some_iff.mp h.max).2 m hm

theorem top_mem (h : Truthful S old top c) : top ∈ S := (MemberSet.max?_eq_some_iff.mp h.max).1

theorem old_ne_top (h : Truthful S old top c) : old ≠ some top := fun he =>
  h.old_not_mem top he h.top_mem

/-- A candidate that goes no higher is the highest. -/
theorem eq_top_of_candidate (h : Truthful S old top c) (hm : m ∈ S) (hle : n ≤ m)
    (hcred : c.Credible old top n (.candidate m)) : m = top := by
  rcases hcred with htop | hold | hlt
  · exact htop
  · exact absurd hm (h.old_not_mem m hold)
  · exact absurd hle hlt.not_ge

theorem eq_top_of_elected {l : Member} (h : Truthful S old top c) (hl : l ∈ S)
    (hcred : c.Credible old top n (.elected l)) : l = top ∧ c.Crowned top := by
  rcases hcred with hold | htop
  · exact absurd hl (h.old_not_mem l hold)
  · exact htop

/-- The seat of the highest member is the one that can be crowned. -/
theorem known_of_crowned (h : Truthful S old top c) (hs : s ∈ c.seats) (hname : s.name = top)
    (hc : c.Crowned top) : s.known = some top := by
  obtain ⟨x, hx, hxname, hxknown⟩ := hc
  rw [← seat_unique h.orderly.nodup hs hx (hxname.trans hname.symm)]
  exact hxknown

/-- Where all winners are the highest member, it has won once if it has the role, else never. -/
theorem winners_of_crowned (h : Truthful S old top c) (hw : ∀ w ∈ c.winners, w = top)
    (hc : c.Crowned top) : c.winners = [top] := by
  have hrep := List.eq_replicate_of_mem hw
  have hcount := h.wins.1 hc
  rw [hrep, List.count_replicate_self] at hcount
  rw [hrep, hcount]
  rfl

theorem winners_of_not_crowned (h : Truthful S old top c) (hw : ∀ w ∈ c.winners, w = top)
    (hc : ¬ c.Crowned top) : c.winners = [] :=
  List.eq_nil_iff_forall_not_mem.mpr fun w hmem => h.wins.2 hc (hw w hmem ▸ hmem)

theorem base (h : Truthful S old top c) (hs : s ∈ c.seats) : Base S old s s.elector where
  owner := rfl
  own := h.own s hs
  ring := h.ring s hs
  held := h.held s hs
  known _ := id
  kept _ hl _ := hl

theorem base_remove (h : Truthful S old top c) (hs : s ∈ c.seats) (hold : old = some m)
    (hne : m ≠ s.name) :
    Base S old s { s.elector with ring := (s.elector.ring.remove m).1 } where
  owner := Ring.remove_owner _ _
  own := (Ring.mem_remove hne).mpr ⟨hne.symm, h.own s hs⟩
  ring k hk := by
    have hkm : k ≠ m := by
      rintro rfl
      exact hk hold
    rw [Ring.mem_remove hne, ← h.ring s hs k hk]
    exact and_iff_right hkm
  held l hl := by
    dsimp only at hl
    rw [Ring.remove_coordinator hne] at hl
    split at hl
    · cases hl
    · rename_i hlm
      refine (Ring.mem_remove hne).mpr ⟨?_, h.held s hs l hl⟩
      rintro rfl
      exact hlm hl
  known l hl := by
    dsimp only at hl
    rw [Ring.remove_coordinator hne] at hl
    split at hl
    · cases hl
    · exact hl
  kept l hl hol := by
    dsimp only
    rw [Ring.remove_coordinator hne, if_neg]
    · exact hl
    · intro hm
      rw [Option.some.inj (hl.symm.trans hm)] at hol
      exact hol hold

/-- A member that hears its own name as candidate, or is alone, is entitled to win. -/
theorem report (h : Truthful S old top c) (hs : s ∈ c.seats) (hb : Base S old s e₀)
    (hheard : ∀ t, heard = some t → c.Credible old top s.name t) (hcon : Conduct e₀ heard e a) :
    c.Report old top s e₀ e a := by
  have hlead : e₀.lead.ring = { e₀.ring with coordinator := some s.name } := by
    rw [Elector.lead_ring (hb.owner ▸ hb.own), hb.owner]
  cases hcon with
  | settled _ ring => exact .silent (by rw [ring]) rfl (by simp [Action.token?])
  | rest _ ring => exact .silent (by rw [ring]) rfl (by simp [Action.token?])
  | stand _ ring =>
    refine .silent (by rw [ring]) rfl ?_
    rintro t ⟨⟩
    exact ⟨_, rfl, Or.inl hb.owner⟩
  | @pass e' m _ ring heard_eq higher =>
    refine .silent (by rw [ring]) rfl ?_
    rintro t ⟨⟩
    rcases hheard _ heard_eq with htop | hold | hlt
    · exact ⟨m, rfl, Or.inr (Or.inl htop)⟩
    · exact ⟨m, rfl, Or.inr (Or.inr hold)⟩
    · exact absurd (hb.owner ▸ higher) hlt.not_gt
  | win unknown heard_eq =>
    refine .won unknown (by rw [hlead]) ?_ rfl ?_
    · rcases hheard _ heard_eq with htop | hold | hlt
      · exact Or.inl (hb.owner ▸ htop)
      · exact Or.inr (hb.owner ▸ hold)
      · exact absurd (hb.owner ▸ hlt) (lt_irrefl _)
    · rintro t ⟨⟩
      rw [hb.owner]
  | winAlone unknown _ alone =>
    refine .won unknown (by rw [hlead]) (Or.inl ?_) rfl (by simp [Action.token?])
    have htop := (hb.ring top h.old_ne_top).mpr h.top_mem
    exact Ring.eq_of_not_hasSuccessor alone hb.own htop
  | @learn l unknown heard_eq mem =>
    refine .told unknown rfl mem (hheard _ heard_eq) rfl ?_
    rintro t ⟨⟩
    rfl
  | learnOwn unknown heard_eq =>
    refine .won unknown (by rw [hlead]) ?_ rfl (by simp [Action.token?])
    rcases hheard _ heard_eq with hold | ⟨htop, hcrown⟩
    · exact Or.inr (hb.owner ▸ hold)
    · -- The highest member has taken the role already, so it would know.
      rw [hb.owner] at htop
      have hknown := hb.kept top (h.known_of_crowned hs htop hcrown) h.old_ne_top
      rw [unknown] at hknown
      cases hknown

section Step

variable (h : Truthful S old top c) (hb : Base S old s e₀)
  (hstep : c.Stepped c' s e₀ heard e a e' out) (hr : c.Report old top s e₀ e a)

include hb hstep in
theorem owner_step : e'.ring.owner = s.name := hstep.name_eq hb.owner

include hstep in
theorem members_step : e'.ring.members = e₀.ring.members := by
  rw [hstep.dispatch.ring_eq, hstep.conduct.members_eq]

include h hb hstep hr

/-- The role is never given up. -/
theorem crowned_step (hc : c.Crowned top) : c'.Crowned top := by
  obtain ⟨x, hx, hname, hknown⟩ := hc
  by_cases hxs : x.name = s.name
  · rw [seat_unique h.orderly.nodup hstep.mem hx hxs] at hknown hname
    have hold := hb.kept top hknown h.old_ne_top
    refine ⟨{ s with elector := e' }, (hstep.acted.seats _).mpr (Or.inl rfl), ?_, ?_⟩
    · exact (owner_step hb hstep).trans hname
    · change e'.ring.coordinator = some top
      rw [hstep.dispatch.ring_eq]
      cases hr with
      | silent coordinator => rw [coordinator, hold]
      | won unknown => rw [unknown] at hold; cases hold
      | told unknown => rw [unknown] at hold; cases hold
  · exact ⟨x, (hstep.acted.seats _).mpr (Or.inr ⟨hx, hxs⟩), hname, hknown⟩

/-- The role is taken in no other way than by winning. -/
theorem crowned_of_step (hc : c'.Crowned top) : c.Crowned top ∨ s.name = top ∧ a.isWon = true := by
  obtain ⟨x, hx, hname, hknown⟩ := hc
  rcases (hstep.acted.seats x).mp hx with rfl | ⟨hx, _⟩
  · replace hname : s.name = top := (owner_step hb hstep).symm.trans hname
    change e'.ring.coordinator = some top at hknown
    rw [hstep.dispatch.ring_eq] at hknown
    cases hr with
    | silent coordinator =>
      rw [coordinator] at hknown
      exact Or.inl ⟨s, hstep.mem, hname, hb.known top hknown⟩
    | won _ _ _ won => exact Or.inr ⟨hname, won⟩
    | @told l _ coordinator _ credible =>
      rw [coordinator] at hknown
      rcases credible with hold | ⟨_, hcrown⟩
      · exact absurd (Option.some.inj hknown ▸ hold) h.old_ne_top
      · exact Or.inl hcrown
  · exact Or.inl ⟨x, hx, hname, hknown⟩

theorem not_crowned_of_won (hname : s.name = top) (hwon : a.isWon = true) : ¬ c.Crowned top := by
  intro hc
  have hknown := hb.kept top (h.known_of_crowned hstep.mem hname hc) h.old_ne_top
  cases hr with
  | silent _ won => rw [won] at hwon; cases hwon
  | won unknown => rw [unknown] at hknown; cases hknown
  | told _ _ _ _ won => rw [won] at hwon; cases hwon

theorem known_step (l : Member) (hl : e'.ring.coordinator = some l) :
    l ∈ e₀.ring.members ∧ (old = some l ∨ (l = top ∧ c'.Crowned top)) := by
  have hcrown := crowned_step h hb hstep hr
  rw [hstep.dispatch.ring_eq] at hl
  cases hr with
  | silent coordinator =>
    rw [coordinator] at hl
    exact ⟨hb.held l hl, (h.known s hstep.mem l (hb.known l hl)).imp id (And.imp id hcrown)⟩
  | won _ coordinator entitled =>
    obtain rfl : s.name = l := Option.some.inj (coordinator.symm.trans hl)
    refine ⟨hb.own, entitled.symm.imp id fun htop => ⟨htop, ?_⟩⟩
    refine ⟨{ s with elector := e' }, (hstep.acted.seats _).mpr (Or.inl rfl), ?_, ?_⟩
    · exact (owner_step hb hstep).trans htop
    · change e'.ring.coordinator = some top
      rw [hstep.dispatch.ring_eq, hl, htop]
  | @told l' _ coordinator mem credible =>
    obtain rfl : l' = l := Option.some.inj (coordinator.symm.trans hl)
    exact ⟨mem, credible.imp id (And.imp id hcrown)⟩

theorem crowned_of_won (hname : s.name = top) (hwon : a.isWon = true) : c'.Crowned top := by
  have hknown := known_step h hb hstep hr
  rw [hstep.dispatch.ring_eq] at hknown
  cases hr with
  | silent _ won => rw [won] at hwon; cases hwon
  | won _ coordinator =>
    rcases (hknown _ coordinator).2 with hold | ⟨_, hcrown⟩
    · exact absurd (hname ▸ hold) h.old_ne_top
    · exact hcrown
  | told _ _ _ _ won => rw [won] at hwon; cases hwon

/-- Candidates go to a higher member, unless they are the highest. -/
theorem tokens_step (p : Member × Token) (hp : p ∈ out) : c'.Credible old top p.1 p.2 := by
  obtain ⟨ht, hfollows⟩ := hstep.dispatch.out_cases hp
  rw [hstep.conduct.members_eq, hstep.conduct.owner_eq, hb.owner] at hfollows
  have hknown := known_step h hb hstep hr
  rw [hstep.dispatch.ring_eq] at hknown
  cases hr with
  | silent _ _ tokens =>
    obtain ⟨m, hm, hcase⟩ := tokens _ ht
    rw [hm]
    rcases hcase with rfl | htop | hold
    · rcases h.name s hstep.mem with hS | hold
      · rcases (h.le_top hS).lt_or_eq with hlt | htop
        · have hmem := (hb.ring top h.old_ne_top).mpr h.top_mem
          exact Or.inr (Or.inr (hfollows.lt hmem hlt))
        · exact Or.inl htop
      · exact Or.inr (Or.inl hold)
    · exact Or.inl htop
    · exact Or.inr (Or.inl hold)
  | won _ coordinator _ _ tokens =>
    rw [tokens _ ht]
    exact (hknown _ coordinator).2
  | told _ coordinator _ _ _ tokens =>
    rw [tokens _ ht]
    exact (hknown _ coordinator).2

theorem winners_step :
    (∀ w ∈ c'.winners, w = top ∨ old = some w) ∧
      (c'.Crowned top → c'.winners.count top = 1) ∧ (¬ c'.Crowned top → top ∉ c'.winners) := by
  have hmono := crowned_step h hb hstep hr
  have hback := crowned_of_step h hb hstep hr
  have hfirst := not_crowned_of_won h hb hstep hr
  have hentitled : a.isWon = true → s.name = top ∨ old = some s.name := by
    intro hwon
    cases hr with
    | silent _ won => rw [won] at hwon; cases hwon
    | won _ _ entitled => exact entitled
    | told _ _ _ _ won => rw [won] at hwon; cases hwon
  rw [hstep.acted.winners]
  cases hwon : a.isWon with
  | false =>
    simp only [Bool.false_eq_true, ↓reduceIte, List.append_nil]
    refine ⟨h.winners, fun hc => h.wins.1 ?_, fun hc => h.wins.2 (fun hc' => hc (hmono hc'))⟩
    rcases hback hc with hc | ⟨_, hw⟩
    · exact hc
    · rw [hwon] at hw; cases hw
  | true =>
    simp only [↓reduceIte]
    refine ⟨?_, fun hc => ?_, fun hc => ?_⟩
    · intro w hw
      rcases List.mem_append.mp hw with hw | hw
      · exact h.winners w hw
      · rw [List.mem_singleton.mp hw]
        exact hentitled hwon
    · rw [List.count_append]
      by_cases hname : s.name = top
      · have hnone := List.count_eq_zero.mpr (h.wins.2 (hfirst hname hwon))
        rw [hnone, hname, List.count_singleton_self]
      · have hold : c.Crowned top := (hback hc).resolve_right fun hw => hname hw.1
        rw [h.wins.1 hold, List.count_eq_zero.mpr (by simpa using Ne.symm hname)]
    · have hnone := h.wins.2 fun hc' => hc (hmono hc')
      have hname : s.name ≠ top := fun hname => hc (crowned_of_won h hb hstep hr hname hwon)
      simpa [hnone] using Ne.symm hname

end Step

/-- **One member's step keeps the invariant**, whatever it heard that was credible. -/
theorem step (h : Truthful S old top c) (hb : Base S old s e₀)
    (hheard : ∀ t, heard = some t → c.Credible old top s.name t)
    (hstep : c.Stepped c' s e₀ heard e a e' out) : Truthful S old top c' := by
  have hr := h.report hstep.mem hb hheard hstep.conduct
  have hmono := crowned_step h hb hstep hr
  have hwinners := winners_step h hb hstep hr
  have hname : Seat.name { s with elector := e' } = s.name := owner_step hb hstep
  have hmembers : e'.ring.members = e₀.ring.members := members_step hstep
  exact
    { orderly := h.orderly.of_acted hstep.acted
      max := h.max
      old_not_mem := h.old_not_mem
      name := fun x hx => by
        rcases (hstep.acted.seats x).mp hx with rfl | ⟨hx, _⟩
        · rw [hname]
          exact h.name s hstep.mem
        · exact h.name x hx
      own := fun x hx => by
        rcases (hstep.acted.seats x).mp hx with rfl | ⟨hx, _⟩
        · rw [hname]
          exact hmembers ▸ hb.own
        · exact h.own x hx
      ring := fun x hx => by
        rcases (hstep.acted.seats x).mp hx with rfl | ⟨hx, _⟩
        · exact hmembers ▸ hb.ring
        · exact h.ring x hx
      held := fun x hx => by
        rcases (hstep.acted.seats x).mp hx with rfl | ⟨hx, _⟩
        · exact fun l hl => hmembers ▸ (known_step h hb hstep hr l hl).1
        · exact h.held x hx
      known := fun x hx => by
        rcases (hstep.acted.seats x).mp hx with rfl | ⟨hx, _⟩
        · exact fun l hl => (known_step h hb hstep hr l hl).2
        · exact fun l hl => (h.known x hx l hl).imp id (And.imp id hmono)
      tokens := fun p hp => by
        rw [hstep.acted.bound] at hp
        rcases Multiset.mem_add.mp hp with hp | hp
        · have hold := h.tokens p hp
          cases hp2 : p.2 with
          | candidate m => rw [hp2] at hold; exact hold
          | elected l => rw [hp2] at hold; exact hold.imp id (And.imp id hmono)
        · exact tokens_step h hb hstep hr p hp
      winners := hwinners.1
      wins := hwinners.2 }

/-- Tokens may vanish and members fall silent. -/
theorem of_electors (h : Truthful S old top c) (hc : c'.Orderly)
    (he : c'.seats.map (·.elector) = c.seats.map (·.elector)) (hw : c'.winners = c.winners)
    (hb : ∀ p ∈ c'.bound, p ∈ c.bound) : Truthful S old top c' := by
  have hback : ∀ x ∈ c'.seats, ∃ y ∈ c.seats, y.elector = x.elector := fun x hx =>
    List.mem_map.mp (he ▸ List.mem_map_of_mem hx)
  have hforth : ∀ y ∈ c.seats, ∃ x ∈ c'.seats, x.elector = y.elector := fun y hy =>
    List.mem_map.mp (he ▸ List.mem_map_of_mem hy)
  have hcrown : c'.Crowned top ↔ c.Crowned top := by
    constructor
    · rintro ⟨x, hx, hname, hknown⟩
      obtain ⟨y, hy, hyx⟩ := hback x hx
      exact ⟨y, hy, by rw [Seat.name, hyx]; exact hname, by rw [Seat.known, hyx]; exact hknown⟩
    · rintro ⟨y, hy, hname, hknown⟩
      obtain ⟨x, hx, hxy⟩ := hforth y hy
      exact ⟨x, hx, by rw [Seat.name, hxy]; exact hname, by rw [Seat.known, hxy]; exact hknown⟩
  exact
    { orderly := hc
      max := h.max
      old_not_mem := h.old_not_mem
      name := fun x hx => by
        obtain ⟨y, hy, hyx⟩ := hback x hx
        rw [Seat.name, ← hyx]
        exact h.name y hy
      own := fun x hx => by
        obtain ⟨y, hy, hyx⟩ := hback x hx
        rw [Seat.name, ← hyx]
        exact h.own y hy
      ring := fun x hx => by
        obtain ⟨y, hy, hyx⟩ := hback x hx
        rw [← hyx]
        exact h.ring y hy
      held := fun x hx => by
        obtain ⟨y, hy, hyx⟩ := hback x hx
        rw [Seat.known, ← hyx]
        exact h.held y hy
      known := fun x hx => by
        obtain ⟨y, hy, hyx⟩ := hback x hx
        rw [Seat.known, ← hyx, hcrown]
        exact h.known y hy
      tokens := fun p hp => by
        have hold := h.tokens p (hb p hp)
        cases hp2 : p.2 with
        | candidate m => rw [hp2] at hold; exact hold
        | elected l => rw [hp2] at hold; exact hold.imp id (And.imp id hcrown.mpr)
      winners := hw ▸ h.winners
      wins := by rw [hcrown, hw]; exact h.wins }

theorem of_queue_subset (h : Truthful S old top c) (hs : c'.seats = c.seats)
    (hw : c'.winners = c.winners) (hq : ∀ p ∈ c'.queue, p ∈ c.queue) : Truthful S old top c' := by
  have hn : c'.names = c.names := by rw [names, names, hs]
  exact h.of_electors (h.orderly.of_queue_subset hn hq) (by rw [hs]) hw fun _ => bound_subset hn hq

theorem takes (h : Truthful S old top c) {p : Member × Token} (ht : c.Takes c' p) :
    Truthful S old top c' :=
  h.of_queue_subset ht.seats ht.winners ht.queue

/-- A token that is taken is credible, also with itself gone. -/
theorem credible_of_takes (h : Truthful S old top c) {p : Member × Token} (ht : c.Takes c₁ p) :
    c₁.Credible old top p.1 p.2 := by
  have hp := h.tokens p (ht.bound ▸ Multiset.mem_cons_self p _)
  unfold Credible Crowned at hp ⊢
  rw [ht.seats]
  exact hp

theorem effect (h : Truthful S old top c) (he : c.Effect old c') : Truthful S old top c' := by
  cases he with
  | idle => exact h
  | asked hs => exact h.step (h.base hs.mem) (by simp) hs
  | removed gone other _ hs => exact h.step (h.base_remove hs.mem gone other) (by simp) hs
  | delivered take hs =>
    refine (h.takes take).step ((h.takes take).base hs.mem) ?_ hs
    rintro t ⟨⟩
    exact h.credible_of_takes take
  | lost take => exact h.takes take

theorem crash (h : Truthful S old top c) (i : Nat) : Truthful S old top (c.crash i) := by
  have hn := names_crash c i
  exact h.of_electors h.orderly.crash (electors_crash c i) (winners_crash c i) fun _ =>
    bound_subset hn fun _ => id

theorem keepsRings (h : Truthful S none top c) {mv : Move} (hmv : mv.keepsRings = true) :
    Truthful S none top (c.move mv) := by
  cases mv with
  | initiate i => exact h.effect (plain_effect h.orderly rfl)
  | deliver place => exact h.effect (plain_effect h.orderly rfl)
  | restart i => exact h.effect (actLive_effect h.orderly Elector.onRemoved_conduct)
  | abort i => exact h.effect (actLive_effect h.orderly Elector.abort_conduct)
  | lose place =>
    rw [move, loseAt]
    split
    · refine h.of_queue_subset rfl ?_ fun _ hp => mem_advance (List.mem_of_mem_tail hp)
      exact winners_record (c.advance place) (by simp)
    · exact h
  | duplicate place =>
    refine h.of_queue_subset rfl rfl fun p hp => ?_
    rcases List.mem_append.mp hp with hp | hp
    · exact hp
    · exact List.mem_of_getElem? (Option.mem_toList.mp hp)
  | _ => cases hmv

theorem run_keepsRings {moves : List Move} (h : Truthful S none top c)
    (hm : ∀ mv ∈ moves, mv.keepsRings = true) : Truthful S none top (c.run moves) := by
  induction moves generalizing c with
  | nil => exact h
  | cons mv moves ih =>
    exact ih (h.keepsRings (hm mv List.mem_cons_self))
      fun mv' hmv => hm mv' (List.mem_cons_of_mem _ hmv)

end Truthful

/-- Nothing has been said yet, and nobody but `old` is known as coordinator. -/
theorem Truthful.start {S₀ : MemberSet} (hnames : c.names.Perm S₀.toList)
    (hmembers : ∀ s ∈ c.seats, s.elector.ring.members = S₀)
    (hknown : ∀ s ∈ c.seats, ∀ l, s.known = some l → old = some l ∧ l ∈ S₀)
    (hqueue : c.queue = []) (hlog : c.log = []) (ht : S.max? = some top)
    (hold : ∀ x, old = some x → x ∉ S) (hS : ∀ m, old ≠ some m → (m ∈ S₀ ↔ m ∈ S)) :
    Truthful S old top c := by
  have hname : ∀ s ∈ c.seats, s.name ∈ S₀ := fun s hs =>
    Std.ExtTreeSet.mem_toList.mp (hnames.mem_iff.mp (mem_names.mpr ⟨s, hs, rfl⟩))
  have hbound : c.bound = 0 := by rw [bound, hqueue]; rfl
  have hwinners : c.winners = [] := by rw [Circuit.winners, trace, hlog]; rfl
  have hcrown : ¬ c.Crowned top := by
    rintro ⟨s, hs, _, hk⟩
    exact hold top (hknown s hs top hk).1 (MemberSet.max?_eq_some_iff.mp ht).1
  exact
    { orderly :=
        { nodup := hnames.nodup_iff.mpr S₀.nodup_toList
          addressed := by simp [hqueue] }
      max := ht
      old_not_mem := hold
      name := fun s hs => by
        by_cases ho : old = some s.name
        · exact Or.inr ho
        · exact Or.inl ((hS s.name ho).mp (hname s hs))
      own := fun s hs => by rw [hmembers s hs]; exact hname s hs
      ring := fun s hs => by rw [hmembers s hs]; exact hS
      held := fun s hs l hl => by rw [hmembers s hs]; exact (hknown s hs l hl).2
      known := fun s hs l hl => Or.inl (hknown s hs l hl).1
      tokens := by simp [hbound]
      winners := by simp [hwinners]
      wins := ⟨fun hc => absurd hc hcrown, by simp [hwinners]⟩ }

theorem Fresh.truthful {S₀ : MemberSet} (h : Fresh S₀ c) (ht : S.max? = some top)
    (hold : ∀ x, old = some x → x ∉ S) (hS : ∀ m, old ≠ some m → (m ∈ S₀ ↔ m ∈ S)) :
    Truthful S old top c := by
  refine .start h.names h.members (fun s hs l hl => ?_) h.queue h.log ht hold hS
  rw [h.unknown s hs] at hl
  cases hl

/-- A circuit is fresh when it is set up for distinct members. -/
theorem ofMembers_fresh {ms : List Member} (hms : ms.Nodup) :
    Fresh (Std.ExtTreeSet.ofList ms) (ofMembers ms) := by
  have hspec := fun m => Ring.addAll_spec (Ring.alone m) ms
  have hnames : (ofMembers ms).names = ms := by
    have howner : ∀ m, ((Ring.alone m).addAll ms).owner = m := fun m => (hspec m).1
    simp [names, ofMembers, Seat.name, howner, Function.comp_def]
  refine ⟨?_, ?_, ?_, ?_, rfl, rfl⟩
  · rw [hnames, List.perm_ext_iff_of_nodup hms (MemberSet.nodup_toList _)]
    intro m
    rw [Std.ExtTreeSet.mem_toList, Std.ExtTreeSet.mem_ofList, List.contains_iff_mem]
  · simp [ofMembers]
  · intro s hs
    obtain ⟨m, hm, rfl⟩ := List.mem_map.mp hs
    apply Std.ExtTreeSet.ext_mem
    intro k
    rw [(hspec m).2.2, Std.ExtTreeSet.mem_ofList, List.contains_iff_mem, Ring.alone,
      mem_insert_iff]
    simp only [Std.ExtTreeSet.not_mem_empty, or_false, or_iff_left_iff_imp]
    rintro rfl
    exact hm
  · intro s hs
    obtain ⟨m, _, rfl⟩ := List.mem_map.mp hs
    exact (hspec m).2.1

end Circuit

end ReplicaRing.Election
