import ReplicaRing.Proofs.Election.Steady

/-!
# The election comes to an end

While only candidates are on their way the circuit is quiet: each delivery sends a candidate on,
until the highest member hears itself. Then its name goes from member to member, and whoever stands
below the next receiver has been told. Either way a token stays in flight as long as someone has
not been told, so when none is left everyone has. A start that sends nothing (the caller has
started before and waits) leaves a quiet circuit quiet.
-/
namespace ReplicaRing.Election

namespace Circuit

variable {c c' c₁ : Circuit} {S : MemberSet} {old : Option Member} {top d m n : Member} {s : Seat}
  {e₀ e e' : Elector} {heard : Option Token} {a : Action} {t : Token}
  {out : Multiset (Member × Token)} {mv : Move} {moves : List Move}

/-- No live member knows of an outcome, and none that names a member is on its way. -/
structure Quiet (S : MemberSet) (c : Circuit) : Prop where
  unknown : ∀ s ∈ c.seats, s.live = true → s.known = none
  tokens : ∀ n l, (n, Token.elected l) ∈ c.bound → l ∉ S

/-- A candidate is on its way to a member. -/
def Moving (S : MemberSet) (c : Circuit) : Prop :=
  ∃ n ∈ S, ∃ m, (n, Token.candidate m) ∈ c.bound

/-- The outcome has reached the members below `d` and is on its way to `d`; when `d` is the highest
member, which knew it first, it has reached all. -/
structure Told (S : MemberSet) (top d : Member) (c : Circuit) : Prop where
  mem : d ∈ S
  known : ∀ s ∈ c.seats, s.live = true → (s.known = some top ↔ s.name < d ∨ s.name = top)
  next : d ≠ top → (d, Token.elected top) ∈ c.bound
  passed : ∀ m ∈ S, (m, Token.elected top) ∈ c.bound → m ≤ d

/-- The election is under way or over. -/
def Alive (S : MemberSet) (top : Member) (c : Circuit) : Prop :=
  (Quiet S c ∧ Moving S c) ∨ ∃ d, Told S top d c

/-- Nobody who knows the coordinator waits for an outcome. -/
def Calm (c : Circuit) : Prop :=
  ∀ s ∈ c.seats, s.known ≠ none → s.elector.inProgress = false

theorem Stepped.known_eq (h : c.Stepped c' s e₀ heard e a e' out) :
    Seat.known { s with elector := e' } = e.ring.coordinator := by
  change e'.ring.coordinator = _
  rw [h.dispatch.ring_eq]

namespace Calm

theorem step (h : c.Calm) (hstep : c.Stepped c' s e₀ heard e a e' out)
    (hbase : e₀.ring.coordinator ≠ none → e₀.inProgress = false) : c'.Calm := by
  intro x hx hknown
  rcases (hstep.acted.seats x).mp hx with rfl | ⟨hx, _⟩
  · rw [hstep.known_eq] at hknown
    have hcalm := hstep.conduct.calm hbase hknown
    cases hstep.dispatch with
    | quiet => exact hcalm
    | sent => exact hcalm
    | undeliverable => rfl
  · exact h x hx hknown

theorem effect (h : c.Calm) (he : c.Effect old c') : c'.Calm := by
  cases he with
  | idle => exact h
  | asked hs => exact h.step hs (h _ hs.mem)
  | @removed _ s _ _ _ _ m _ other _ hs =>
    refine h.step hs fun hknown => h _ hs.mem fun hnone => hknown ?_
    dsimp only
    rw [Ring.remove_coordinator other]
    split
    · rfl
    · exact hnone
  | delivered take hs =>
    have h₁ : Calm _ := fun x hx => h x (take.seats ▸ hx)
    exact h₁.step hs (h₁ _ hs.mem)
  | lost take => exact fun x hx => h x (take.seats ▸ hx)

end Calm

/-! ### The outcome goes around -/

namespace Told

theorem takes (h : Told S top d c) (ht : c.Takes c₁ (m, t))
    (hother : m = d → t = .elected top → d = top) : Told S top d c₁ where
  mem := h.mem
  known := by rw [ht.seats]; exact h.known
  next hne := by
    have hnext := h.next hne
    rw [ht.bound] at hnext
    rcases Multiset.mem_cons.mp hnext with heq | hnext
    · cases heq
      exact absurd (hother rfl rfl) hne
    · exact hnext
  passed m hm hin := h.passed m hm (ht.bound ▸ Multiset.mem_cons_of_mem hin)

/-- A step by which nobody learns or tells the outcome. -/
theorem stay (h : Told S top d c) (hstep : c.Stepped c' s s.elector heard e a e' out)
    (hknown : e.ring.coordinator = s.known) (hout : a.token? ≠ some (.elected top)) :
    Told S top d c' where
  mem := h.mem
  known x hx hl := by
    rcases (hstep.acted.seats x).mp hx with rfl | ⟨hx, _⟩
    · rw [hstep.known_eq, hknown, hstep.name_eq rfl]
      exact h.known s hstep.mem hl
    · exact h.known x hx hl
  next hne := by
    rw [hstep.acted.bound]
    exact Multiset.mem_add.mpr (Or.inl (h.next hne))
  passed m hm hin := by
    rw [hstep.acted.bound] at hin
    rcases Multiset.mem_add.mp hin with hin | hin
    · exact h.passed m hm hin
    · exact absurd (hstep.dispatch.out_cases hin).1 hout

/-- The highest member knows the outcome while it is told. -/
theorem name_ne_top (htold : Told S top d c) (hs : s ∈ c.seats) (hl : s.live = true)
    (hunknown : s.elector.ring.coordinator = none) : s.name ≠ top := by
  intro hname
  have hknown := (htold.known s hs hl).mpr (Or.inr hname)
  rw [Seat.known, hunknown] at hknown
  cases hknown

/-- When everyone has been told, everyone knows the highest member. -/
theorem all_known (h : Told S top top c) (ht : Truthful S old top c) (hst : Steady S c)
    (hs : s ∈ c.seats) (hl : s.live = true) : s.known = some top :=
  (h.known s hs hl).mpr (ht.le_top (hst.name_mem hs hl)).lt_or_eq

section

variable (h : Truthful S old top c) (hst : Steady S c)

include h hst

/-- The highest member has won, and the lowest is the first to be told. -/
theorem start (hq : Quiet S c) (hstep : c.Stepped c' s s.elector heard e a e' out)
    (hname : s.name = top) (hknown : e.ring.coordinator = some top)
    (htoken : a.token? = some (.elected top)) (hsize : 1 < S.size) : ∃ d, Told S top d c' := by
  obtain ⟨d, hd, hout⟩ := hst.sent (h.own s hstep.mem) hstep htoken hsize
  rw [hname] at hd
  refine ⟨d, hd.1, fun x hx hl => ?_, fun _ => ?_, fun m _ hm => ?_⟩
  · rcases (hstep.acted.seats x).mp hx with rfl | ⟨hx, hne⟩
    · rw [hstep.known_eq, hstep.name_eq rfl]
      exact iff_of_true hknown (Or.inr hname)
    · rw [hq.unknown x hx hl]
      refine iff_of_false (by simp) ?_
      rintro (hlt | htop)
      · exact absurd hlt (hd.le_of_top h.max (hst.name_mem hx hl)).not_gt
      · exact hne (htop.trans hname.symm)
  · rw [hstep.acted.bound, hout]
    simp
  · rw [hstep.acted.bound, hout] at hm
    rcases Multiset.mem_add.mp hm with hm | hm
    · exact absurd h.top_mem (hq.tokens m top hm)
    · cases Multiset.mem_singleton.mp hm
      exact le_refl _

/-- The only member takes the role, and there is nobody to tell. -/
theorem alone (hstep : c.Stepped c' s s.elector heard e a e' out)
    (hname : s.name = top) (hknown : e.ring.coordinator = some top)
    (halone : s.elector.ring.hasSuccessor = false) : Told S top top c' := by
  have hring := hst.ring s hstep.mem hstep.live
  refine ⟨h.top_mem, fun x hx hl => ?_, fun hne => absurd rfl hne, fun m hm _ => h.le_top hm⟩
  rcases (hstep.acted.seats x).mp hx with rfl | ⟨hx, hne⟩
  · rw [hstep.known_eq, hstep.name_eq rfl]
    exact iff_of_true hknown (Or.inr hname)
  · have hxS := hst.name_mem hx hl
    have hsS := hst.name_mem hstep.mem hstep.live
    exact absurd (Ring.eq_of_not_hasSuccessor halone (hring ▸ hxS) (hring ▸ hsS)) hne

/-- The member that was next is told, and the one that follows it is next. -/
theorem advance (htold : Told S top d c) (htake : c.Takes c₁ (s.name, .elected top))
    (hstep : c₁.Stepped c' s s.elector heard e a e' out) (hunknown : s.known = none)
    (hknown : e.ring.coordinator = some top) (htoken : a.token? = some (.elected top)) :
    ∃ d', Told S top d' c' := by
  have hs : s ∈ c.seats := htake.seats ▸ hstep.mem
  have hin : (s.name, Token.elected top) ∈ c.bound := htake.bound ▸ Multiset.mem_cons_self _ _
  have hnot : ¬ (s.name < d ∨ s.name = top) := by
    rw [← htold.known s hs hstep.live, hunknown]
    simp
  obtain ⟨hge, hne⟩ := not_or.mp hnot
  have hsS := hst.name_mem hs hstep.live
  have hd : s.name = d := le_antisymm (htold.passed _ hsS hin) (not_lt.mp hge)
  have hlt : d < top := lt_of_le_of_ne (h.le_top htold.mem) (hd ▸ hne)
  have hst₁ := hst.takes htake
  obtain ⟨n, hn, hout⟩ := hst₁.sent (h.own s hs) hstep htoken (hst.bound _ hin hsS)
  rw [hd] at hn
  refine ⟨n, hn.1, fun x hx hl => ?_, fun _ => ?_, fun m hmS hm => ?_⟩
  · rcases (hstep.acted.seats x).mp hx with rfl | ⟨hx, hne'⟩
    · rw [hstep.known_eq, hstep.name_eq rfl]
      exact iff_of_true hknown (Or.inl (hd ▸ hn.lt h.top_mem hlt))
    · have hxS := hst₁.name_mem hx hl
      rw [htold.known x (htake.seats ▸ hx) hl, hn.lt_iff h.top_mem hlt hxS,
        le_iff_lt_or_eq, ← hd]
      simp [hne']
  · rw [hstep.acted.bound, hout]
    simp
  · rw [hstep.acted.bound, hout] at hm
    rcases Multiset.mem_add.mp hm with hm | hm
    · have hle := htold.passed m hmS (htake.bound ▸ Multiset.mem_cons_of_mem hm)
      exact hle.trans (hn.lt h.top_mem hlt).le
    · cases Multiset.mem_singleton.mp hm
      exact le_refl _

end

end Told

/-! ### Every step keeps the election alive -/

section Step

variable (h : Truthful S old top c) (hst : Steady S c)

theorem Quiet.stay (hq : Quiet S c) (hstep : c.Stepped c' s s.elector heard e a e' out)
    (hknown : e.ring.coordinator = none)
    (hout : ∀ t, a.token? = some t → ∃ m, t = .candidate m) : Quiet S c' where
  unknown x hx hl := by
    rcases (hstep.acted.seats x).mp hx with rfl | ⟨hx, _⟩
    · rw [hstep.known_eq, hknown]
    · exact hq.unknown x hx hl
  tokens n l hin := by
    rw [hstep.acted.bound] at hin
    rcases Multiset.mem_add.mp hin with hin | hin
    · exact hq.tokens n l hin
    · obtain ⟨m, hm⟩ := hout _ (hstep.dispatch.out_cases hin).1
      cases hm

theorem Quiet.takes (hq : Quiet S c) {p : Member × Token} (ht : c.Takes c₁ p) : Quiet S c₁ where
  unknown := by rw [ht.seats]; exact hq.unknown
  tokens n l hin := hq.tokens n l (ht.bound ▸ Multiset.mem_cons_of_mem hin)

include h hst

/-- Among several members a candidate that goes out is on its way. -/
theorem Quiet.sent (hq : Quiet S c) (hstep : c.Stepped c' s s.elector heard e a e' out)
    (hknown : e.ring.coordinator = none) (htoken : a.token? = some (.candidate m))
    (hsize : 1 < S.size) : Alive S top c' := by
  refine Or.inl ⟨hq.stay hstep hknown ?_, ?_⟩
  · intro t ht
    exact ⟨m, Option.some.inj (ht.symm.trans htoken)⟩
  · obtain ⟨n, hn, hout⟩ := hst.sent (h.own s hstep.mem) hstep htoken hsize
    refine ⟨n, hn.1, m, ?_⟩
    rw [hstep.acted.bound, hout]
    simp

/-- A quiet circuit is alive after a start, unless the start was held back. -/
theorem Quiet.asked (hq : Quiet S c) (hstep : c.Stepped c' s s.elector none e a e' out) :
    (a = .ignore ∧ Quiet S c' ∧ c'.bound = c.bound) ∨ Alive S top c' := by
  have hring := hst.ring s hstep.mem hstep.live
  cases hstep.conduct with
  | settled known => exact absurd (hq.unknown s hstep.mem hstep.live) known
  | rest unknown ring =>
    refine Or.inl ⟨rfl, hq.stay hstep (ring ▸ unknown) (by simp [Action.token?]), ?_⟩
    cases hstep.dispatch with
    | quiet => exact hstep.acted.bound.trans (add_zero _)
    | sent ht => cases ht
    | undeliverable ht => cases ht
  | stand unknown ring accompanied =>
    have hsize : 1 < S.size := hring ▸ of_decide_eq_true (accompanied rfl)
    exact Or.inr (hq.sent h hst hstep (ring ▸ unknown) rfl hsize)
  | pass _ _ heard_eq => cases heard_eq
  | win _ heard_eq => cases heard_eq
  | winAlone _ _ halone =>
    have hname : s.name = top := Ring.eq_of_not_hasSuccessor halone
      (h.own s hstep.mem) (hring ▸ h.top_mem)
    refine Or.inr (Or.inr ⟨top, Told.alone h hst hstep hname ?_ halone⟩)
    rw [Elector.lead_ring (h.own s hstep.mem)]
    exact congrArg some hname
  | learn _ heard_eq => cases heard_eq
  | learnOwn _ heard_eq => cases heard_eq

/-- Candidates go on until the highest member hears itself. -/
theorem Quiet.delivered (hq : Quiet S c) (hmoving : Moving S c) (htake : c.Takes c₁ (s.name, t))
    (hstep : c₁.Stepped c' s s.elector (some t) e a e' out) : Alive S top c' := by
  have h₁ := h.takes htake
  have hst₁ := hst.takes htake
  have hq₁ := hq.takes htake
  have hin : (s.name, t) ∈ c.bound := htake.bound ▸ Multiset.mem_cons_self _ _
  have hname := hst₁.name_mem hstep.mem hstep.live
  have hsize := hst.bound _ hin hname
  cases hstep.conduct with
  | settled known => exact absurd (hq₁.unknown s hstep.mem hstep.live) known
  | rest unknown ring stranger =>
    obtain ⟨l, rfl, _⟩ := stranger _ rfl
    refine Or.inl ⟨hq₁.stay hstep (ring ▸ unknown) (by simp [Action.token?]), ?_⟩
    obtain ⟨n, hn, m, hm⟩ := hmoving
    refine ⟨n, hn, m, ?_⟩
    rw [hstep.acted.bound]
    rw [htake.bound] at hm
    rcases Multiset.mem_cons.mp hm with heq | hm
    · cases heq
    · exact Multiset.mem_add.mpr (Or.inl hm)
  | stand unknown ring => exact hq₁.sent h₁ hst₁ hstep (ring ▸ unknown) rfl hsize
  | pass unknown ring => exact hq₁.sent h₁ hst₁ hstep (ring ▸ unknown) rfl hsize
  | win _ heard_eq =>
    cases heard_eq
    have htop : s.name = top := h.eq_top_of_candidate hname (le_refl _) (h.tokens _ hin)
    refine Or.inr (Told.start h₁ hst₁ hq₁ hstep htop ?_ (congrArg (some ∘ Token.elected) htop)
      hsize)
    rw [Elector.lead_ring (h₁.own s hstep.mem)]
    exact congrArg some htop
  | winAlone _ heard_eq => cases heard_eq
  | learn _ heard_eq mem =>
    cases heard_eq
    exact absurd (hst₁.ring s hstep.mem hstep.live ▸ mem) (hq.tokens _ _ hin)
  | learnOwn _ heard_eq =>
    cases heard_eq
    exact absurd hname (hq.tokens _ _ hin)

/-- Starting another election does not stop the outcome. -/
theorem Told.asked (ht : Told S top d c) (hstep : c.Stepped c' s s.elector none e a e' out) :
    Told S top d c' := by
  cases hstep.conduct with
  | settled _ ring => exact ht.stay hstep (congrArg Ring.coordinator ring) (by simp [Action.token?])
  | rest _ ring => exact ht.stay hstep (congrArg Ring.coordinator ring) (by simp [Action.token?])
  | stand _ ring => exact ht.stay hstep (congrArg Ring.coordinator ring) (by simp [Action.token?])
  | pass _ _ heard_eq => cases heard_eq
  | win _ heard_eq => cases heard_eq
  | winAlone unknown _ halone =>
    have htop := hst.ring s hstep.mem hstep.live ▸ h.top_mem
    have hname := Ring.eq_of_not_hasSuccessor halone (h.own s hstep.mem) htop
    exact absurd hname (ht.name_ne_top hstep.mem hstep.live unknown)
  | learn _ heard_eq => cases heard_eq
  | learnOwn _ heard_eq => cases heard_eq

/-- A delivery tells the next member or leaves its token on the way. -/
theorem Told.delivered (ht : Told S top d c) (htake : c.Takes c₁ (s.name, t))
    (hstep : c₁.Stepped c' s s.elector (some t) e a e' out) : ∃ d', Told S top d' c' := by
  have hs : s ∈ c.seats := htake.seats ▸ hstep.mem
  have hin : (s.name, t) ∈ c.bound := htake.bound ▸ Multiset.mem_cons_self _ _
  have hcred := h.tokens _ hin
  have hsS := hst.name_mem hs hstep.live
  have hring := hst.ring s hs hstep.live
  cases hstep.conduct with
  | settled known ring =>
    -- Whoever knows the outcome is not the next to be told.
    have ht₁ := ht.takes htake fun hd _ => by
      rcases hst.known_cases h hs hstep.live with hnone | ⟨hknown, _⟩
      · exact absurd hnone known
      · rcases (ht.known s hs hstep.live).mp hknown with hlt | htop
        · exact absurd hd hlt.ne
        · exact hd.symm.trans htop
    exact ⟨d, ht₁.stay hstep (congrArg Ring.coordinator ring) (by simp [Action.token?])⟩
  | rest _ ring stranger =>
    obtain ⟨l, rfl, hl⟩ := stranger _ rfl
    have ht₁ := ht.takes htake fun _ htop => by
      cases htop
      exact absurd (hring ▸ h.top_mem) hl
    exact ⟨d, ht₁.stay hstep (congrArg Ring.coordinator ring) (by simp [Action.token?])⟩
  | stand _ ring _ lower =>
    obtain ⟨k, rfl, _⟩ := lower _ rfl
    have ht₁ := ht.takes htake fun _ htop => by cases htop
    exact ⟨d, ht₁.stay hstep (congrArg Ring.coordinator ring) (by simp [Action.token?])⟩
  | pass _ ring heard_eq =>
    cases heard_eq
    have ht₁ := ht.takes htake fun _ htop => by cases htop
    exact ⟨d, ht₁.stay hstep (congrArg Ring.coordinator ring) (by simp [Action.token?])⟩
  | win unknown heard_eq =>
    cases heard_eq
    have hname : s.name = top := h.eq_top_of_candidate hsS (le_refl _) hcred
    exact absurd hname (ht.name_ne_top hs hstep.live unknown)
  | winAlone _ heard_eq => cases heard_eq
  | @learn l unknown heard_eq mem =>
    cases heard_eq
    obtain ⟨rfl, _⟩ := h.eq_top_of_elected (hring ▸ mem) hcred
    exact ht.advance h hst htake hstep unknown rfl rfl
  | learnOwn unknown heard_eq =>
    cases heard_eq
    have hname := (h.eq_top_of_elected hsS hcred).1
    exact absurd hname (ht.name_ne_top hs hstep.live unknown)

omit h in
/-- A token that nobody takes makes no difference. -/
theorem Alive.lost (ha : Alive S top c) {p : Member × Token} (take : c.Takes c' p)
    (gone : ¬ c.IsLive p.1) : Alive S top c' := by
  have hp : p.1 ∉ S := fun hp => gone ((hst.live p.1).mpr hp)
  rcases ha with ⟨hq, n, hn, m, hm⟩ | ⟨d, ht⟩
  · rw [take.bound] at hm
    rcases Multiset.mem_cons.mp hm with rfl | hm
    · exact absurd hn hp
    · exact Or.inl ⟨hq.takes take, n, hn, m, hm⟩
  · refine Or.inr ⟨d, ht.takes take fun hd _ => ?_⟩
    exact absurd (hd ▸ ht.mem) hp

/-- **An election that is alive stays alive** as long as nothing is lost and nobody removed. -/
theorem Alive.effect (ha : Alive S top c) (he : c.Effect old c') : Alive S top c' := by
  cases hst.effect_none h he with
  | idle => exact ha
  | asked hs =>
    rcases ha with ⟨hq, hmoving⟩ | ⟨d, ht⟩
    · rcases hq.asked h hst hs with ⟨_, hq', hbound⟩ | halive
      · rw [Moving, ← hbound] at hmoving
        exact Or.inl ⟨hq', hmoving⟩
      · exact halive
    · exact Or.inr ⟨d, ht.asked h hst hs⟩
  | removed gone => cases gone
  | delivered take hs =>
    rcases ha with ⟨hq, hmoving⟩ | ⟨d, ht⟩
    · exact hq.delivered h hst hmoving take hs
    · exact Or.inr (ht.delivered h hst take hs)
  | lost take gone => exact ha.lost hst take gone

end Step

/-! ### Runs -/

theorem bound_eq_zero (h : c.queue = []) : c.bound = 0 := by
  rw [bound, h]
  rfl

theorem Orderly.queue_eq_nil (h : c.Orderly) (hb : c.bound = 0) : c.queue = [] := by
  refine List.eq_nil_iff_forall_not_mem.mpr fun p hp => ?_
  obtain ⟨n, hn⟩ : ∃ n, c.names[p.1]? = some n :=
    ⟨_, List.getElem?_eq_getElem (h.addressed p hp)⟩
  have hin : (n, p.2) ∈ c.bound := mem_bound.mpr ⟨p.1, hp, hn⟩
  exact Multiset.notMem_zero _ (hb ▸ hin)

theorem Alive.run_plain (ha : Alive S top c) (h : Truthful S old top c) (hst : Steady S c)
    (hm : ∀ mv ∈ moves, mv.plain = true) : Alive S top (c.run moves) := by
  have hrun := Circuit.run_plain (P := fun c => Truthful S old top c ∧ Steady S c ∧ Alive S top c)
    old h.orderly hm (fun c₁ c₂ _ he hp => ?_) ⟨h, hst, ha⟩
  · exact hrun.2.2
  · obtain ⟨h₁, hst₁, ha₁⟩ := hp
    exact ⟨h₁.effect he, hst₁.effect h₁ he, ha₁.effect h₁ hst₁ he⟩

/-- In silence only a start that is not held back does anything. -/
theorem Quiet.plain (hq : Quiet S c) (hb : c.bound = 0) (h : Truthful S old top c)
    (hst : Steady S c) (hmv : mv.plain = true) :
    (Quiet S (c.move mv) ∧ (c.move mv).bound = 0 ∧ ∀ a, c.answer? mv = some a → a = .ignore) ∨
      Alive S top (c.move mv) := by
  cases mv with
  | initiate i =>
    rcases initiate_cases h.orderly i with ⟨hanswer, hsame⟩ | ⟨s, e', out, _, hanswer, hstep⟩
    · rw [hanswer, hsame]
      exact Or.inl ⟨hq, hb, by simp⟩
    · rw [hanswer]
      rcases hq.asked h hst hstep with ⟨hignore, hq', hbound⟩ | halive
      · exact Or.inl ⟨hq', hbound.trans hb, fun a ha => (Option.some.inj ha).symm.trans hignore⟩
      · exact Or.inr halive
  | deliver place =>
    have hsame : c.move (.deliver place) = c :=
      if_neg (by rw [h.orderly.queue_eq_nil hb]; exact Nat.not_lt_zero place)
    rw [hsame]
    exact Or.inl ⟨hq, hb, by simp [answer?]⟩
  | _ => cases hmv

/-- From silence, the first start that is not held back brings the election to life. -/
theorem Quiet.run_plain (hq : Quiet S c) (hb : c.bound = 0) (h : Truthful S old top c)
    (hst : Steady S c) (hm : ∀ mv ∈ moves, mv.plain = true) :
    (Quiet S (c.run moves) ∧ (c.run moves).bound = 0 ∧ ∀ a ∈ c.answers moves, a = .ignore) ∨
      Alive S top (c.run moves) := by
  induction moves generalizing c with
  | nil => exact Or.inl ⟨hq, hb, by simp [answers]⟩
  | cons mv moves ih =>
    have hmv := hm mv List.mem_cons_self
    have hrest : ∀ mv ∈ moves, mv.plain = true := fun mv' hmv => hm mv' (List.mem_cons_of_mem _ hmv)
    obtain ⟨h', hst'⟩ := hst.plain h hmv
    rcases hq.plain hb h hst hmv with ⟨hq', hb', hanswer⟩ | halive
    · rcases ih hq' hb' h' hst' hrest with ⟨hquiet, hbound, hignored⟩ | halive
      · refine Or.inl ⟨hquiet, hbound, fun a ha => ?_⟩
        rcases List.mem_append.mp ha with ha | ha
        · exact hanswer a (Option.mem_toList.mp ha)
        · exact hignored a ha
      · exact Or.inr halive
    · exact Or.inr (halive.run_plain h' hst' hrest)

/-- When no token is left, an election that was alive is over. -/
theorem Alive.known_of_queue (ha : Alive S top c) (h : Truthful S old top c) (hst : Steady S c)
    (hqueue : c.queue = []) (hs : s ∈ c.seats) (hl : s.live = true) : s.known = some top := by
  have hb := bound_eq_zero hqueue
  rcases ha with ⟨_, n, _, m, hm⟩ | ⟨d, ht⟩
  · exact absurd (hb ▸ hm) (Multiset.notMem_zero _)
  · have hd : d = top := by
      by_contra hd
      exact Multiset.notMem_zero _ (hb ▸ ht.next hd)
    subst hd
    exact ht.all_known h hst hs hl

/-- **Every election ends with one winner, the highest member.** Members start elections and tokens
arrive in whatever order. Then every start that sends a token costs at most `2 * S.size - 1`
deliveries, and the outcome another `S.size`. If some start was not held back, then as soon as no
token is left everyone knows the highest member, which has won once, and nobody waits any more. -/
theorem election_converges (hne : S ≠ ∅) (hc : Fresh S c) (moves : List Move)
    (hm : ∀ mv ∈ moves, mv.plain = true) :
    c.deliveries moves ≤ (2 * S.size - 1) * c.launches moves + S.size ∧
    ((∃ a ∈ c.answers moves, a ≠ .ignore) → (c.run moves).queue = [] →
      ∃ top, S.max? = some top ∧ (c.run moves).winners = [top] ∧
        (c.run moves).names = c.names ∧
        ∀ s ∈ (c.run moves).seats, s.known = some top ∧ s.elector.inProgress = false) := by
  obtain ⟨top, htop⟩ :=
    Option.isSome_iff_exists.mp (Std.ExtTreeSet.isSome_max?_iff_ne_empty.mpr hne)
  have h : Truthful S none top c := hc.truthful htop (by simp) (by simp)
  have hst := hc.steady
  have hb := bound_eq_zero hc.queue
  obtain ⟨h', hst'⟩ := hst.run_plain h hm
  constructor
  · have hcost := deliveries_add_remaining_le h hst hm
    have hstart : remaining S top c ≤ S.size := by
      rw [remaining, hb, Multiset.map_zero, Multiset.sum_zero, zero_add]
      split <;> omega
    omega
  · rintro ⟨a, ha, hignore⟩ hqueue
    have hquiet : Quiet S c := ⟨fun s hs _ => hc.unknown s hs, by simp [hb]⟩
    have halive : Alive S top (c.run moves) := by
      rcases hquiet.run_plain hb h hst hm with ⟨_, _, hignored⟩ | halive
      · exact absurd (hignored a ha) hignore
      · exact halive
    have hcalm : (c.run moves).Calm := by
      refine run_plain none h.orderly hm (fun _ _ _ he hcalm => hcalm.effect he) ?_
      exact fun s hs hknown => absurd (hc.unknown s hs) hknown
    have hnames : (c.run moves).names = c.names := by
      refine run_plain (P := fun c' => c'.names = c.names) none h.orderly hm ?_ rfl
      exact fun _ _ _ he hsame => he.names_eq.trans hsame
    have hlive : ∀ s ∈ (c.run moves).seats, s.live = true := fun s hs =>
      hst'.live_of_mem h'.orderly.nodup hs ((h'.name s hs).resolve_right (by simp))
    have hknown : ∀ s ∈ (c.run moves).seats, s.known = some top := fun s hs =>
      halive.known_of_queue h' hst' hqueue hs (hlive s hs)
    refine ⟨top, htop, ?_, hnames, fun s hs => ⟨hknown s hs, ?_⟩⟩
    · refine h'.winners_of_crowned (fun w hw => (h'.winners w hw).resolve_right (by simp)) ?_
      obtain ⟨s, hs, hname, _⟩ := (hst'.live top).mpr h.top_mem
      exact ⟨s, hs, hname, hknown s hs⟩
    · exact hcalm s hs (by simp [hknown s hs])

/-- Three members, two of which start. -/
theorem election_converges_among_three :
    let members : List Member := [⟨"a", 1, 1⟩, ⟨"b", 1, 1⟩, ⟨"c", 1, 1⟩]
    let moves : List Move := .initiate 0 :: .initiate 2 :: List.replicate 13 (.deliver 0)
    (ofMembers members).deliveries moves ≤ 5 * (ofMembers members).launches moves + 3 ∧
      ∃ top, (Std.ExtTreeSet.ofList members).max? = some top ∧
        ((ofMembers members).run moves).winners = [top] := by
  intro members moves
  have hms : members.Nodup := by decide
  obtain ⟨hcost, hdone⟩ := election_converges (by decide) (ofMembers_fresh hms) moves (by decide)
  obtain ⟨top, htop, hwinners, _⟩ := hdone (by decide) (by decide)
  exact ⟨hcost, top, htop, hwinners⟩

end Circuit

end ReplicaRing.Election
