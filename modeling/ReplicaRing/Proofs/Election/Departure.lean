import ReplicaRing.Proofs.Election.Convergence

/-!
# A departed coordinator is replaced

The survivors find out one by one that their coordinator is gone. Those who have not found out
drop every token, so candidates get lost on the way; the election waits. A candidate of the highest
survivor only gets past members that have found out, and hence not around the ring before all have.
The last one to find out starts over in a ring that is steady again.
-/
namespace ReplicaRing.Election

namespace Circuit

variable {c c' c₁ : Circuit} {S : MemberSet} {old : Option Member} {x top m : Member} {i : Nat}
  {s : Seat} {e₀ e e' : Elector} {heard : Option Token} {a : Action} {t : Token}
  {out : Multiset (Member × Token)} {mv : Move} {moves : List Move}

/-- All members of `S` have elected `x`, and nothing has happened since. -/
structure Led (S : MemberSet) (x : Member) (c : Circuit) : Prop where
  names : c.names.Perm S.toList
  live : ∀ s ∈ c.seats, s.live = true
  members : ∀ s ∈ c.seats, s.elector.ring.members = S
  known : ∀ s ∈ c.seats, s.known = some x
  idle : ∀ s ∈ c.seats, s.elector.inProgress = false
  queue : c.queue = []
  log : c.log = []

/-- The elections, the deliveries and the removals of `x` at the others' seats. -/
def Parting (c : Circuit) (x : Member) (mv : Move) : Prop :=
  mv.plain = true ∨ ∃ i, c.names[i]? ≠ some x ∧ mv.RemovesAt i x

/-- The member has removed `x`. -/
def Dropped (c : Circuit) (x m : Member) : Prop :=
  ∀ s ∈ c.seats, s.name = m → x ∉ s.elector.ring.members

/-- Someone still trusts `x`. Whoever does not knows no coordinator, and the candidate of the
highest survivor has only passed such members. -/
structure Waiting (S : MemberSet) (x top : Member) (c : Circuit) : Prop where
  live : ∀ m, c.IsLive m ↔ m ∈ S
  trusting : ∃ s ∈ c.seats, s.live = true ∧ s.known = some x
  ring : ∀ s ∈ c.seats, s.live = true →
    s.known = some x ∨ (s.known = none ∧ s.elector.ring.members = S)
  receivers : ∀ p ∈ c.bound, p.1 ∈ S ∧ 1 < S.size
  tokens : ∀ p ∈ c.bound, ∃ m, p.2 = .candidate m
  passed : ∀ n, (n, Token.candidate top) ∈ c.bound →
    ∀ z ∈ c.seats, z.live = true → z.name = top ∨ z.name < n → z.known = none

theorem parting_effect (h : c.Orderly) (hmv : c.Parting x mv) : c.Effect (some x) (c.move mv) := by
  rcases hmv with hplain | ⟨i, hi, hremoves⟩
  · exact plain_effect h hplain
  · exact removesAt_effect h hi hremoves

/-! ### Removals are final -/

theorem Dropped.effect (h : c.Dropped x m) (he : c.Effect old c') : c'.Dropped x m := by
  intro s hs hname hx
  obtain ⟨y, hy, hyname, hsub⟩ := he.mem_of_mem hs
  exact h y hy (hyname.trans hname) (hsub x hx)

theorem Dropped.removesAt (hc : c.Orderly) (hi : c.names[i]? = some m) (hne : m ≠ x)
    (hlive : c.IsLive m) (hmv : mv.RemovesAt i x) : (c.move mv).Dropped x m := by
  obtain ⟨s, hs, hname, hl⟩ := hlive
  have hx : c.names[i]? ≠ some x := fun hx => hne (Option.some.inj (hi.symm.trans hx))
  have hseat : ∀ z, c.seats[i]? = some z → z.name = m := fun z hz =>
    Option.some.inj ((name_of_getElem? hz).symm.trans hi)
  cases removesAt_removal hc hx hmv with
  | idle same gone =>
    rw [same]
    intro z hz hzname
    obtain ⟨j, hj⟩ := List.mem_iff_getElem?.mp hz
    rw [seat_unique hc.nodup hs hz (hzname.trans hname.symm)] at hj ⊢
    have hij : i = j := index_unique hc.nodup hi (hname ▸ name_of_getElem? hj)
    exact gone s (hij ▸ hj) hl
  | @acted z _ _ hz hstep =>
    have hzx : x ≠ z.name := fun hxz => hne ((hseat z hz).symm.trans hxz.symm)
    intro y hy hyname hxy
    rcases (hstep.acted.seats y).mp hy with rfl | ⟨_, hother⟩
    · rw [hstep.dispatch.ring_eq, hstep.conduct.members_eq] at hxy
      exact ((Ring.mem_remove hzx).mp hxy).1 rfl
    · exact hother (hyname.trans (hseat z hz).symm)

/-- What every effect preserves, runs of parting moves preserve. -/
theorem run_parting {P : Circuit → Prop} (x : Member) (hc : c.Orderly)
    (hm : ∀ mv ∈ moves, c.Parting x mv)
    (hstep : ∀ c₁ c₂ : Circuit, c₁.Orderly → c₁.Effect (some x) c₂ → P c₁ → P c₂) (hP : P c) :
    P (c.run moves) := by
  refine run_effects hc (fun mv hmv c₁ hc₁ hnames => parting_effect hc₁ ?_) hstep hP
  rw [Parting, hnames]
  exact hm mv hmv

/-- Moves at other seats than that of `x` are parting moves. -/
theorem parting_of_ne {k : Nat} (hc : c.Orderly) (hk : c.names[k]? = some x)
    (hm : ∀ mv ∈ moves, mv.plain = true ∨ ∃ i, i ≠ k ∧ mv.RemovesAt i x) :
    ∀ mv ∈ moves, c.Parting x mv := by
  intro mv hmv
  refine (hm mv hmv).imp id ?_
  rintro ⟨i, hik, hremoves⟩
  exact ⟨i, fun hi => hik (index_unique hc.nodup hi hk), hremoves⟩

/-- Whoever gets a removal has dropped `x` in the end. -/
theorem dropped_run (hc : c.Orderly) (hm : ∀ mv ∈ moves, c.Parting x mv) (hne : m ≠ x)
    (hi : c.names[i]? = some m) (hlive : c.IsLive m) (hremoval : ∃ mv ∈ moves, mv.RemovesAt i x) :
    (c.run moves).Dropped x m := by
  obtain ⟨mv, hmv, hremoves⟩ := hremoval
  obtain ⟨before, after, rfl⟩ := List.append_of_mem hmv
  have hbefore : (c.run before).names = c.names ∧ (c.run before).IsLive m := by
    refine run_parting (P := fun c' => c'.names = c.names ∧ c'.IsLive m) x hc
      (fun mv' hmv' => hm mv' (List.mem_append_left _ hmv')) (fun c₁ c₂ _ he hp => ?_) ⟨rfl, hlive⟩
    exact ⟨he.names_eq.trans hp.1, he.isLive_iff.mpr hp.2⟩
  obtain ⟨hnames, hl⟩ := hbefore
  have hc₁ := hc.run before
  have he : (c.run before).Effect (some x) ((c.run before).move mv) := by
    refine parting_effect hc₁ ?_
    rw [Parting, hnames]
    exact hm mv hmv
  have hdropped : ((c.run before).move mv).Dropped x m :=
    Dropped.removesAt hc₁ (hnames.symm ▸ hi) hne hl hremoves
  rw [run_append]
  change (((c.run before).move mv).run after).Dropped x m
  refine run_parting (P := fun c' => c'.Dropped x m) x (hc₁.move mv) (fun mv' hmv' => ?_)
    (fun _ _ _ he hd => hd.effect he) hdropped
  rw [Parting, he.names_eq, hnames]
  exact hm mv' (List.mem_append_right _ (List.mem_cons_of_mem _ hmv'))

/-! ### The election waits for the last removal -/

theorem Waiting.takes (hw : Waiting S x top c) {p : Member × Token} (ht : c.Takes c₁ p) :
    Waiting S x top c₁ where
  live m := (IsLive.congr ht.seats).trans (hw.live m)
  trusting := by rw [ht.seats]; exact hw.trusting
  ring := by rw [ht.seats]; exact hw.ring
  receivers q hq := hw.receivers q (ht.bound ▸ Multiset.mem_cons_of_mem hq)
  tokens q hq := hw.tokens q (ht.bound ▸ Multiset.mem_cons_of_mem hq)
  passed n hn := by rw [ht.seats]; exact hw.passed n (ht.bound ▸ Multiset.mem_cons_of_mem hn)

section Step

variable (h : Truthful S (some x) top c) (hw : Waiting S x top c)

include hw in
theorem Waiting.name_mem (hs : s ∈ c.seats) (hl : s.live = true) : s.name ∈ S :=
  (hw.live s.name).mp ⟨s, hs, rfl, hl⟩

include hw in
theorem Waiting.members_of_unknown (hs : s ∈ c.seats) (hl : s.live = true)
    (hunknown : s.elector.ring.coordinator = none) : s.elector.ring.members = S := by
  rcases hw.ring s hs hl with hknown | ⟨_, hmembers⟩
  · rw [Seat.known, hunknown] at hknown
    cases hknown
  · exact hmembers

include h hw

/-- A step that sends nothing but a candidate which may go on. -/
theorem Waiting.stay (hstep : c.Stepped c' s s.elector heard e a e' out)
    (hring : e.ring = s.elector.ring)
    (hout : ∀ t, a.token? = some t → s.elector.ring.coordinator = none ∧ ∃ m, t = .candidate m ∧
      (m = top → s.name ≠ top →
        ∀ z ∈ c.seats, z.live = true → z.name = top ∨ z.name < s.name → z.known = none)) :
    Waiting S x top c' := by
  have hself : ∀ z ∈ c'.seats, z.live = true → ∃ y ∈ c.seats, y.live = true ∧ y.name = z.name ∧
      y.known = z.known ∧ y.elector.ring.members = z.elector.ring.members := by
    intro z hz hl
    rcases (hstep.acted.seats z).mp hz with rfl | ⟨hz, _⟩
    · refine ⟨s, hstep.mem, hstep.live, (hstep.name_eq rfl).symm, ?_, ?_⟩
      · rw [hstep.known_eq, hring, Seat.known]
      · rw [hstep.dispatch.ring_eq, hring]
    · exact ⟨z, hz, hl, rfl, rfl, rfl⟩
  have hname := hw.name_mem hstep.mem hstep.live
  have hsent : ∀ p ∈ out, S.Follows s.name p.1 ∧ s.elector.ring.coordinator = none ∧
      ∃ m, p.2 = .candidate m ∧ (m = top → s.name ≠ top → ∀ z ∈ c.seats, z.live = true →
        z.name = top ∨ z.name < s.name → z.known = none) := by
    intro p hp
    obtain ⟨htoken, hfollows⟩ := hstep.dispatch.out_cases hp
    obtain ⟨hunknown, hcandidate⟩ := hout p.2 htoken
    have hmembers := hw.members_of_unknown hstep.mem hstep.live hunknown
    rw [hring, hmembers] at hfollows
    exact ⟨hfollows, hunknown, hcandidate⟩
  refine ⟨fun m => (hstep.isLive_iff rfl).trans (hw.live m), ?_, fun z hz hl => ?_, fun p hp => ?_,
    fun p hp => ?_, fun n hn z hz hl hbefore => ?_⟩
  · obtain ⟨z, hz, hl, hknown⟩ := hw.trusting
    by_cases hzs : z.name = s.name
    · rw [seat_unique h.orderly.nodup hstep.mem hz hzs] at hknown
      refine ⟨{ s with elector := e' }, (hstep.acted.seats _).mpr (Or.inl rfl), hstep.live, ?_⟩
      rw [hstep.known_eq, hring]
      exact hknown
    · exact ⟨z, (hstep.acted.seats z).mpr (Or.inr ⟨hz, hzs⟩), hl, hknown⟩
  · obtain ⟨y, hy, hyl, _, hknown, hmembers⟩ := hself z hz hl
    rw [← hknown, ← hmembers]
    exact hw.ring y hy hyl
  · rw [hstep.acted.bound] at hp
    rcases Multiset.mem_add.mp hp with hp | hp
    · exact hw.receivers p hp
    · have hfollows := (hsent p hp).1
      exact ⟨hfollows.1, hfollows.one_lt_size hname⟩
  · rw [hstep.acted.bound] at hp
    rcases Multiset.mem_add.mp hp with hp | hp
    · exact hw.tokens p hp
    · obtain ⟨_, _, m, hm, _⟩ := hsent p hp
      exact ⟨m, hm⟩
  · obtain ⟨y, hy, hyl, hyname, hknown, _⟩ := hself z hz hl
    rw [← hknown]
    rw [← hyname] at hbefore
    rw [hstep.acted.bound] at hn
    rcases Multiset.mem_add.mp hn with hn | hn
    · exact hw.passed n hn y hy hyl hbefore
    · obtain ⟨hfollows, hunknown, m, hm, hpassed⟩ := hsent _ hn
      cases hm
      have hyS := hw.name_mem hy hyl
      have hsame : y.name = s.name → y.known = none := fun hys => by
        rw [seat_unique h.orderly.nodup hstep.mem hy hys]
        exact hunknown
      rcases (h.le_top hname).lt_or_eq with hbelow | htop
      · rcases hbefore with hytop | hlt
        · exact hpassed rfl hbelow.ne y hy hyl (Or.inl hytop)
        · rcases ((hfollows.lt_iff h.top_mem hbelow hyS).mp hlt).lt_or_eq with hlt | heq
          · exact hpassed rfl hbelow.ne y hy hyl (Or.inr hlt)
          · exact hsame heq
      · rcases hbefore with hytop | hlt
        · exact hsame (hytop.trans htop.symm)
        · -- After the highest survivor comes the lowest, and nobody stands below it.
          rw [htop] at hfollows
          exact absurd hlt (hfollows.le_of_top h.max hyS).not_gt

/-- Starts that a member makes on its own do not end the waiting. -/
theorem Waiting.asked (hstep : c.Stepped c' s s.elector none e a e' out) : Waiting S x top c' := by
  cases hstep.conduct with
  | settled _ ring => exact hw.stay h hstep ring (by simp [Action.token?])
  | rest _ ring => exact hw.stay h hstep ring (by simp [Action.token?])
  | stand unknown ring =>
    refine hw.stay h hstep ring ?_
    rintro t ⟨⟩
    exact ⟨unknown, s.name, rfl, fun htop hne => absurd htop hne⟩
  | pass _ _ heard_eq => cases heard_eq
  | win _ heard_eq => cases heard_eq
  | winAlone unknown _ halone =>
    -- The member would be the only survivor, and so the one that still trusts.
    obtain ⟨z, hz, hl, hknown⟩ := hw.trusting
    have hmembers := hw.members_of_unknown hstep.mem hstep.live unknown
    have hzs : z.name = s.name := Ring.eq_of_not_hasSuccessor halone
      (hmembers ▸ hw.name_mem hz hl) (h.own s hstep.mem)
    rw [seat_unique h.orderly.nodup hstep.mem hz hzs, Seat.known, unknown] at hknown
    cases hknown
  | learn _ heard_eq => cases heard_eq
  | learnOwn _ heard_eq => cases heard_eq

/-- No candidate comes around while someone drops it. -/
theorem Waiting.delivered (htake : c.Takes c₁ (s.name, t))
    (hstep : c₁.Stepped c' s s.elector (some t) e a e' out) : Waiting S x top c' := by
  have h₁ := h.takes htake
  have hw₁ := hw.takes htake
  have hin : (s.name, t) ∈ c.bound := htake.bound ▸ Multiset.mem_cons_self _ _
  have hcred := h.tokens _ hin
  have hname := hw₁.name_mem hstep.mem hstep.live
  obtain ⟨k, rfl⟩ : ∃ k, t = .candidate k := hw.tokens _ hin
  cases hstep.conduct with
  | settled _ ring => exact hw₁.stay h₁ hstep ring (by simp [Action.token?])
  | rest _ ring => exact hw₁.stay h₁ hstep ring (by simp [Action.token?])
  | stand unknown ring =>
    refine hw₁.stay h₁ hstep ring ?_
    rintro t ⟨⟩
    exact ⟨unknown, s.name, rfl, fun htop hne => absurd htop hne⟩
  | @pass _ k unknown ring heard_eq higher mem =>
    cases heard_eq
    rw [hw₁.members_of_unknown hstep.mem hstep.live unknown] at mem
    obtain rfl : k = top := h.eq_top_of_candidate mem higher.le hcred
    refine hw₁.stay h₁ hstep ring ?_
    rintro t ⟨⟩
    refine ⟨unknown, k, rfl, fun _ _ z hz => ?_⟩
    rw [htake.seats] at hz
    exact hw.passed s.name hin z hz
  | win _ heard_eq =>
    cases heard_eq
    have htop : s.name = top := h.eq_top_of_candidate hname (le_refl _) hcred
    obtain ⟨z, hz, hl, hknown⟩ := hw.trusting
    have hunknown : z.known = none := by
      refine hw.passed s.name ?_ z hz hl ?_
      · rw [← htop]
        exact hin
      · rw [htop]
        exact (h.le_top (hw.name_mem hz hl)).lt_or_eq.symm
    rw [hunknown] at hknown
    cases hknown
  | winAlone _ heard_eq => cases heard_eq
  | learn _ heard_eq => cases heard_eq
  | learnOwn _ heard_eq => cases heard_eq

end Step

/-! ### The last removal -/

/-- A member's step may be taken apart: first it becomes `e₀` in silence, then it steps. -/
theorem Stepped.split (h : c.Stepped c' s e₀ none e a e' out) (hn : c.names.Nodup)
    (ho : e₀.ring.owner = s.name) :
    ∃ c₁, c.Stepped c₁ s e₀ none e₀ .ignore e₀ 0 ∧
      c₁.Stepped c' { s with elector := e₀ } e₀ none e a e' out := by
  obtain ⟨i, hi⟩ := List.mem_iff_getElem?.mp h.mem
  have hnames : (c.setElector i e₀).names = c.names := names_setElector hi ho
  have hseats : ∀ z, z ∈ (c.setElector i e₀).seats ↔
      z = { s with elector := e₀ } ∨ z ∈ c.seats ∧ z.name ≠ s.name := fun z => mem_setElector hn hi
  have hbound : (c.setElector i e₀).bound = c.bound := bound_of_names_eq hnames rfl
  have hwinners : (c.setElector i e₀).winners = c.winners :=
    congrArg (c.trace.filterMap <| winner? ·) hnames
  have hsilent : Conduct e₀ none e₀ .ignore := by
    by_cases hunknown : e₀.ring.coordinator = none
    · exact .rest hunknown rfl (by simp)
    · exact .settled hunknown rfl id
  have hfirst : c.Stepped (c.setElector i e₀) s e₀ none e₀ .ignore e₀ 0 :=
    { mem := h.mem
      live := h.live
      conduct := hsilent
      dispatch := .quiet rfl
      acted :=
        { names := hnames
          seats := hseats
          bound := hbound.trans (add_zero _).symm
          winners := hwinners.trans (List.append_nil _).symm
          addressed := fun _ hp => Or.inl hp } }
  have hlive : ∀ {m}, (c.setElector i e₀).IsLive m ↔ c.IsLive m := hfirst.isLive_iff ho
  refine ⟨c.setElector i e₀, hfirst, ?_⟩
  exact
    { mem := (hseats _).mpr (Or.inl rfl)
      live := h.live
      conduct := h.conduct
      dispatch := by
        cases h.dispatch with
        | quiet ht => exact .quiet ht
        | sent ht next live => exact .sent ht next (hlive.mpr live)
        | undeliverable ht nobody =>
          exact .undeliverable ht fun n hsucc hl => nobody n hsucc (hlive.mp hl)
      acted :=
        { names := h.acted.names.trans hnames.symm
          seats := fun z => by
            have hname : Seat.name { s with elector := e₀ } = s.name := ho
            rw [h.acted.seats, hseats, hname]
            constructor
            · rintro (hz | ⟨hz, hne⟩)
              · exact Or.inl hz
              · exact Or.inr ⟨Or.inr ⟨hz, hne⟩, hne⟩
            · rintro (hz | ⟨rfl | hz, hne⟩)
              · exact Or.inl hz
              · exact absurd hname hne
              · exact Or.inr hz
          bound := h.acted.bound.trans (congrArg (· + out) hbound.symm)
          winners := by
            have hname : Seat.name { s with elector := e₀ } = s.name := ho
            rw [h.acted.winners, hwinners, hname]
          addressed := hnames.symm ▸ h.acted.addressed } }

section Removal

variable (h : Truthful S (some x) top c) (hw : Waiting S x top c)

include h hw

/-- A removal takes the trust from one member; if it was the last, the ring is steady. -/
theorem Waiting.shrink (hne : x ≠ s.name)
    (hstep : c.Stepped c₁ s { s.elector with ring := (s.elector.ring.remove x).1 } none
      { s.elector with ring := (s.elector.ring.remove x).1 } .ignore
      { s.elector with ring := (s.elector.ring.remove x).1 } 0) :
    Waiting S x top c₁ ∨ (Steady S c₁ ∧ Quiet S c₁ ∧ s.known = some x) := by
  have hlive := fun m => (hstep.isLive_iff (m := m) (Ring.remove_owner _ _)).trans (hw.live m)
  have hbound : c₁.bound = c.bound := hstep.acted.bound.trans (add_zero _)
  have hnew : Seat.known { s with elector :=
      { s.elector with ring := (s.elector.ring.remove x).1 } } = none := by
    change (s.elector.ring.remove x).1.coordinator = none
    rw [Ring.remove_coordinator hne]
    split
    · rfl
    · rename_i hother
      exact ((hw.ring s hstep.mem hstep.live).resolve_left hother).1
  have hmembers : (s.elector.ring.remove x).1.members = S := by
    apply Std.ExtTreeSet.ext_mem
    intro k
    rw [Ring.mem_remove hne]
    by_cases hk : k = x
    · subst hk
      exact iff_of_false (fun hk => hk.1 rfl) (h.old_not_mem k rfl)
    · rw [h.ring s hstep.mem k fun hx => hk (Option.some.inj hx).symm]
      exact and_iff_right hk
  have hring : ∀ z ∈ c₁.seats, z.live = true →
      z.known = some x ∨ (z.known = none ∧ z.elector.ring.members = S) := by
    intro z hz hl
    rcases (hstep.acted.seats z).mp hz with rfl | ⟨hz, _⟩
    · exact Or.inr ⟨hnew, hmembers⟩
    · exact hw.ring z hz hl
  by_cases htrusting : ∃ z ∈ c₁.seats, z.live = true ∧ z.known = some x
  · refine Or.inl ⟨hlive, htrusting, hring, hbound ▸ hw.receivers, hbound ▸ hw.tokens, ?_⟩
    intro n hn z hz hl hbefore
    rcases (hstep.acted.seats z).mp hz with rfl | ⟨hz, _⟩
    · exact hnew
    · exact hw.passed n (hbound ▸ hn) z hz hl hbefore
  · have hunknown : ∀ z ∈ c₁.seats, z.live = true → z.known = none ∧ z.elector.ring.members = S :=
      fun z hz hl => (hring z hz hl).resolve_left fun hknown => htrusting ⟨z, hz, hl, hknown⟩
    have hsteady : Steady S c₁ :=
      ⟨hlive, fun z hz hl => (hunknown z hz hl).2, fun p hp _ => (hw.receivers p (hbound ▸ hp)).2⟩
    have hquiet : Quiet S c₁ := by
      refine ⟨fun z hz hl => (hunknown z hz hl).1, fun n l hin => ?_⟩
      obtain ⟨m, hm⟩ := hw.tokens _ (hbound ▸ hin)
      cases hm
    refine Or.inr ⟨hsteady, hquiet, ?_⟩
    obtain ⟨z, hz, hl, hknown⟩ := hw.trusting
    by_cases hzs : z.name = s.name
    · rw [← seat_unique h.orderly.nodup hstep.mem hz hzs]
      exact hknown
    · exact absurd ⟨z, (hstep.acted.seats z).mpr (Or.inr ⟨hz, hzs⟩), hl, hknown⟩ htrusting

end Removal

/-- The election waits for someone, or it goes on in a steady ring. -/
def Replacing (S : MemberSet) (x top : Member) (c : Circuit) : Prop :=
  Waiting S x top c ∨ (Steady S c ∧ Alive S top c)

/-- **The last removal supplies the token that wins.** -/
theorem Replacing.effect (hr : Replacing S x top c) (h : Truthful S (some x) top c)
    (he : c.Effect (some x) c') : Replacing S x top c' := by
  rcases hr with hw | ⟨hst, ha⟩
  · cases he with
    | idle => exact Or.inl hw
    | asked hstep => exact Or.inl (hw.asked h hstep)
    | @removed _ s _ _ _ _ m gone other restarts hstep =>
      cases gone
      obtain ⟨c₁, hfirst, hsecond⟩ :=
        hstep.split h.orderly.nodup (Ring.remove_owner _ _)
      have h₁ : Truthful S (some x) top c₁ :=
        h.step (h.base_remove hstep.mem rfl other) (by simp) hfirst
      rcases hw.shrink h other hfirst with hw₁ | ⟨hst₁, hq₁, hknown⟩
      · exact Or.inl (hw₁.asked h₁ hsecond)
      · refine Or.inr ⟨hst₁.step hsecond, ?_⟩
        rcases hq₁.asked h₁ hst₁ hsecond with ⟨hignore, _⟩ | halive
        · have hunknown := hq₁.unknown _ hsecond.mem hsecond.live
          exact absurd hignore (restarts (h.held s hstep.mem x hknown) hunknown)
        · exact halive
    | delivered take hstep => exact Or.inl (hw.delivered h take hstep)
    | @lost _ p take gone =>
      have hin : p ∈ c.bound := take.bound ▸ Multiset.mem_cons_self _ _
      exact absurd ((hw.live p.1).mpr (hw.receivers p hin).1) gone
  · exact Or.inr ⟨hst.effect h he, ha.effect h hst he⟩

/-! ### From the departure to the new coordinator -/

theorem mem_crash {k : Nat} (hs : s ∈ (c.crash k).seats) :
    ∃ y ∈ c.seats, y.elector = s.elector :=
  List.mem_map.mp (electors_crash c k ▸ List.mem_map_of_mem hs)

namespace Led

variable {k : Nat} (hc : Led S x c) (hk : c.names[k]? = some x)

include hc

theorem mem_names_iff : m ∈ c.names ↔ m ∈ S := by
  rw [hc.names.mem_iff, Std.ExtTreeSet.mem_toList]

theorem isLive_iff : c.IsLive m ↔ m ∈ S := by
  rw [← hc.mem_names_iff, mem_names]
  constructor
  · rintro ⟨s, hs, hname, _⟩
    exact ⟨s, hs, hname⟩
  · rintro ⟨s, hs, hname⟩
    exact ⟨s, hs, hname, hc.live s hs⟩

include hk

theorem truthful (htop : (S.erase x).max? = some top) :
    Truthful (S.erase x) (some x) top c := by
  have hx : x ∈ S := hc.mem_names_iff.mp (List.mem_of_getElem? hk)
  refine .start hc.names hc.members (fun s hs l hl => ?_) hc.queue hc.log htop ?_ ?_
  · rw [hc.known s hs] at hl
    cases hl
    exact ⟨rfl, hx⟩
  · rintro y ⟨⟩
    simp
  · intro m hm
    rw [MemberSet.mem_erase_iff]
    exact (and_iff_right fun hmx => hm (congrArg some hmx.symm)).symm

/-- The survivors have not found out yet. -/
theorem waiting (htop : (S.erase x).max? = some top) : Waiting (S.erase x) x top (c.crash k) := by
  have hn : c.names.Nodup := hc.names.nodup_iff.mpr S.nodup_toList
  have hknown : ∀ s ∈ (c.crash k).seats, s.known = some x := by
    intro s hs
    obtain ⟨y, hy, hys⟩ := mem_crash hs
    rw [Seat.known, ← hys]
    exact hc.known y hy
  have hlive : ∀ m, (c.crash k).IsLive m ↔ m ∈ S.erase x := by
    intro m
    rw [isLive_crash hn hk, hc.isLive_iff, MemberSet.mem_erase_iff, and_comm]
  have hb : (c.crash k).bound = 0 := bound_eq_zero hc.queue
  refine ⟨hlive, ?_, fun s hs _ => Or.inl (hknown s hs), ?_, ?_, ?_⟩
  · obtain ⟨s, hs, _, hl⟩ := (hlive top).mpr (MemberSet.max?_eq_some_iff.mp htop).1
    exact ⟨s, hs, hl, hknown s hs⟩
  · simp [hb]
  · simp [hb]
  · simp [hb]

end Led

/-- Whoever is live gets a removal, so nobody has `x` in its ring in the end. -/
theorem all_dropped {k : Nat} (hc : c.Orderly) (hk : c.names[k]? = some x) (hx : ¬ c.IsLive x)
    (hm : ∀ mv ∈ moves, c.Parting x mv)
    (hall : ∀ i < c.names.length, i ≠ k → ∃ mv ∈ moves, mv.RemovesAt i x)
    (hs : s ∈ (c.run moves).seats) (hl : s.live = true) : x ∉ s.elector.ring.members := by
  have hlive : c.IsLive s.name := by
    have hend : (c.run moves).IsLive s.name := ⟨s, hs, rfl, hl⟩
    revert hend
    refine run_parting (P := fun c' => c'.IsLive s.name → c.IsLive s.name) x hc hm ?_ id
    exact fun _ _ _ he hp hl => hp (he.isLive_iff.mp hl)
  have hne : s.name ≠ x := fun h => hx (h ▸ hlive)
  obtain ⟨i, hi⟩ := List.mem_iff_getElem?.mp hlive.mem_names
  have hik : i ≠ k := by
    rintro rfl
    exact hne (Option.some.inj (hi.symm.trans hk))
  have hremoval := hall i (List.getElem?_eq_some_iff.mp hi).1 hik
  exact dropped_run hc hm hne hi hlive hremoval s hs rfl

/-- **A departed coordinator is replaced by the highest survivor.** The members of `S` have elected
`x`, which then is gone. Its removals reach every other seat, once or more often, and mix with
elections and deliveries in any order. As soon as no token is left, the survivors have just each
other in their rings, all know the highest of them, which has won once, and nobody waits. -/
theorem coordinator_replaced {k : Nat} (hsize : 2 ≤ S.size) (hc : Led S x c)
    (hk : c.names[k]? = some x) (moves : List Move)
    (hm : ∀ mv ∈ moves, mv.plain = true ∨ ∃ i, i ≠ k ∧ mv.RemovesAt i x)
    (hall : ∀ i < c.names.length, i ≠ k → ∃ mv ∈ moves, mv.RemovesAt i x)
    (hqueue : (c.run (.crash k :: moves)).queue = []) :
    ∃ top, (S.erase x).max? = some top ∧ (c.run (.crash k :: moves)).winners = [top] ∧
      (∀ m, (c.run (.crash k :: moves)).IsLive m ↔ m ∈ S.erase x) ∧
      ∀ s ∈ (c.run (.crash k :: moves)).seats, s.live = true →
        s.elector.ring.members = S.erase x ∧ s.known = some top ∧
          s.elector.inProgress = false := by
  obtain ⟨top, htop⟩ := Option.isSome_iff_exists.mp
    (Std.ExtTreeSet.isSome_max?_iff_ne_empty.mpr (MemberSet.erase_ne_empty hsize x))
  have h₀ := (hc.truthful hk htop).crash k
  have hw₀ := hc.waiting hk htop
  have hk₀ : (c.crash k).names[k]? = some x := by rw [names_crash]; exact hk
  rw [← names_crash c k] at hall
  have hparting := parting_of_ne h₀.orderly hk₀ hm
  have hcalm₀ : (c.crash k).Calm := by
    intro s hs _
    obtain ⟨y, hy, hys⟩ := mem_crash hs
    exact hys ▸ hc.idle y hy
  have hwinners₀ : ∀ w ∈ (c.crash k).winners, w ∈ S.erase x := by
    rw [winners_crash, winners, trace, hc.log]
    simp
  change (run (c.crash k) moves).queue = [] at hqueue
  change ∃ top, _ ∧ (run (c.crash k) moves).winners = [top] ∧
    (∀ m, (run (c.crash k) moves).IsLive m ↔ _) ∧ ∀ s ∈ (run (c.crash k) moves).seats, _
  obtain ⟨h, hr, hcalm, hlive, hwinners⟩ := run_parting (P := fun c' =>
      Truthful (S.erase x) (some x) top c' ∧ Replacing (S.erase x) x top c' ∧ c'.Calm ∧
        (∀ m, c'.IsLive m ↔ m ∈ S.erase x) ∧ ∀ w ∈ c'.winners, w ∈ S.erase x)
    x h₀.orderly hparting (fun c₁ c₂ _ he hp => by
      obtain ⟨h₁, hr₁, hcalm₁, hlive₁, hwinners₁⟩ := hp
      refine ⟨h₁.effect he, hr₁.effect h₁ he, hcalm₁.effect he,
        fun m => he.isLive_iff.trans (hlive₁ m), fun w hw => ?_⟩
      exact (he.isLive_of_winner hw).elim (hwinners₁ w) (hlive₁ w).mp)
    ⟨h₀, Or.inl hw₀, hcalm₀, hw₀.live, hwinners₀⟩
  have hxlive : ¬ (c.crash k).IsLive x := by
    rw [hw₀.live, MemberSet.mem_erase_iff]
    exact fun hx => hx.1 rfl
  rcases hr with ⟨_, ⟨z, hz, hzl, hknown⟩, _⟩ | ⟨hst, ha⟩
  · exact absurd (h.held z hz x hknown)
      (all_dropped h₀.orderly hk₀ hxlive hparting hall hz hzl)
  · have hknown : ∀ s ∈ (run (c.crash k) moves).seats, s.live = true → s.known = some top :=
      fun s hs hl => ha.known_of_queue h hst hqueue hs hl
    refine ⟨top, htop, ?_, hlive, fun s hs hl => ⟨hst.ring s hs hl, hknown s hs hl, ?_⟩⟩
    · have htops : ∀ w ∈ (run (c.crash k) moves).winners, w = top := fun w hw =>
        (h.winners w hw).resolve_right fun hx => h.old_not_mem w hx (hwinners w hw)
      refine h.winners_of_crowned htops ?_
      obtain ⟨s, hs, hname, hl⟩ := (hst.live top).mpr h.top_mem
      exact ⟨s, hs, hname, hknown s hs hl⟩
    · exact hcalm s hs (by simp [hknown s hs hl])

/-- Three members lose the highest, and the lowest removes it twice. -/
theorem coordinator_replaced_among_three :
    let members : List Member := [⟨"a", 1, 1⟩, ⟨"b", 1, 1⟩, ⟨"c", 1, 1⟩]
    let c : Circuit := ⟨members.map fun m =>
      ⟨{ ring := ⟨.ofList members, m, some ⟨"c", 1, 1⟩⟩ }, true⟩, [], [], 0⟩
    let moves : List Move := [.hear 0 ⟨.leave, ⟨"c", 1, 1⟩⟩, .deliver 0, .suspect 1 ⟨"c", 1, 1⟩,
      .hear 0 ⟨.crash, ⟨"c", 1, 1⟩⟩, .deliver 0, .deliver 0, .deliver 0, .deliver 0]
    ∃ top, ((Std.ExtTreeSet.ofList members).erase ⟨"c", 1, 1⟩).max? = some top ∧
      (c.run (.crash 2 :: moves)).winners = [top] := by
  intro members c moves
  have hled : Led (.ofList members) ⟨"c", 1, 1⟩ c :=
    ⟨by decide, by decide, by decide, by decide, by decide, rfl, rfl⟩
  have hm : ∀ mv ∈ moves, mv.plain = true ∨ ∃ i, i ≠ 2 ∧ mv.RemovesAt i ⟨"c", 1, 1⟩ := by
    simp only [moves, List.forall_mem_cons]
    exact ⟨Or.inr ⟨0, by decide, by decide⟩, Or.inl rfl, Or.inr ⟨1, by decide, by decide⟩,
      Or.inr ⟨0, by decide, by decide⟩, Or.inl rfl, Or.inl rfl, Or.inl rfl, Or.inl rfl, by simp⟩
  obtain ⟨top, htop, hwinners, _⟩ := coordinator_replaced (by decide) hled rfl moves hm
    (by decide) (by decide)
  exact ⟨top, htop, hwinners⟩

end Circuit

end ReplicaRing.Election
