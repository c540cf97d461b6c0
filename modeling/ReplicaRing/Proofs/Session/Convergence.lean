import ReplicaRing.Proofs.Session.Gathering

/-!
# A gathering comes to one ring

As long as nobody else joins, the joiners can get their rings one after the other, tell each other,
and hear all that was said. When they have, there is nothing left in which their rings could differ.
-/
namespace ReplicaRing.Gathering

variable {g g' : Gathering} {m k : Member} {e : Endpoint} {place : Nat} {joined : List Member}

/-- Without another newcomer, `g` can become `g'`. -/
def Onward (g g' : Gathering) : Prop := ∃ occasions, joining occasions = [] ∧ g.run occasions = g'

namespace Onward

variable {g'' : Gathering}

theorem refl (g : Gathering) : Onward g g := ⟨[], rfl, rfl⟩

theorem trans (h : Onward g g') (h' : Onward g' g'') : Onward g g'' := by
  obtain ⟨before, hbefore, rfl⟩ := h
  obtain ⟨after, hafter, rfl⟩ := h'
  refine ⟨before ++ after, ?_, List.foldl_append⟩
  rw [joining, List.filterMap_append]
  exact congrArg₂ (· ++ ·) hbefore hafter

theorem answer (h : g.answer e = some g') : Onward g g' :=
  ⟨[.answer e], rfl, congrArg (·.getD g) h⟩

theorem learn (h : g.learn e = some g') : Onward g g' :=
  ⟨[.learn e], rfl, congrArg (·.getD g) h⟩

theorem announce (h : g.announce e = some g') : Onward g g' :=
  ⟨[.announce e], rfl, congrArg (·.getD g) h⟩

theorem deliver (h : g.deliver place = some g') : Onward g g' :=
  ⟨[.deliver place], rfl, congrArg (·.getD g) h⟩

end Onward

namespace Formed

theorem onward (h : Formed joined g) (hg : g.Onward g') : Formed joined g' := by
  obtain ⟨occasions, hnobody, rfl⟩ := hg
  have hformed := h.run occasions (by rw [hnobody]; exact h.distinct)
  rwa [hnobody] at hformed

/-- A joiner can be told its ring once the member takes part to which it was introduced. -/
theorem exists_answer (h : Formed joined g) (hm : m ∈ joined)
    (hvia : ∀ j v, g.listener m.endpoint = some j → j.via = some v → g.view? v.endpoint ≠ none) :
    ∃ g', g.Onward g' ∧ g'.elector? m.endpoint ≠ none ∧
      ∀ k : Member, g.view? k.endpoint ≠ none → g'.view? k.endpoint ≠ none := by
  by_cases hnone : g.elector? m.endpoint = none
  · obtain ⟨j, hj, rfl⟩ := h.listens m hm
    rw [elector?, hj, Option.bind_some] at hnone
    obtain ⟨ring, hring⟩ : ∃ ring, g.firstRing? j = some ring := by
      rw [firstRing?]
      cases hv : j.via with
      | none => exact ⟨_, rfl⟩
      | some v =>
        obtain ⟨elector, helector⟩ := Option.ne_none_iff_exists'.mp (hvia j v hj hv)
        exact ⟨_, Option.map_eq_some_iff.mpr ⟨elector, helector, rfl⟩⟩
    refine ⟨_, .answer (answer_eq_some.mpr ⟨j, ring, hj, hnone, hring, rfl⟩), ?_, fun k hk => ?_⟩
    · rw [elector?_set, if_pos rfl]
      exact Option.some_ne_none _
    · rw [view?_set, if_neg]
      · exact hk
      · intro hat
        refine hk ?_
        rw [hat, view?, hj, Option.bind_some, Joiner.view?, hnone, ite_self]
  · exact ⟨g, .refl g, hnone, fun _ => id⟩

/-- What a joiner was told can arrive. -/
theorem exists_learned (h : Formed joined g) (hm : m ∈ joined)
    (htold : g.elector? m.endpoint ≠ none) :
    ∃ g', g.Onward g' ∧ g'.view? m.endpoint ≠ none ∧
      ∀ k : Member, g.view? k.endpoint ≠ none → g'.view? k.endpoint ≠ none := by
  obtain ⟨j, hj, rfl⟩ := h.listens m hm
  obtain ⟨elector, helector⟩ := Option.ne_none_iff_exists'.mp htold
  rw [elector?, hj, Option.bind_some] at helector
  have hview : Joiner.view? { j with present := true } = some elector :=
    view?_eq_some.mpr ⟨rfl, helector⟩
  refine ⟨_, .learn (learn_eq_some.mpr ⟨j, elector, hj, helector, rfl⟩), ?_, fun k hk => ?_⟩
  · rw [view?_set, if_pos rfl, hview]
    exact Option.some_ne_none _
  · rw [view?_set]
    split
    · exact hview ▸ Option.some_ne_none _
    · exact hk

/-- From the first to the newest, all get their rings. -/
theorem exists_rings (h : Formed joined g) {members : List Member} (hsuffix : members <:+ joined) :
    ∃ g', g.Onward g' ∧ ∀ m ∈ members, g'.view? m.endpoint ≠ none := by
  induction members with
  | nil => exact ⟨g, .refl g, by simp⟩
  | cons m older ih =>
    obtain ⟨g₁, hg₁, hrings⟩ := ih ((List.suffix_cons m older).trans hsuffix)
    have h₁ := h.onward hg₁
    have hm := hsuffix.mem List.mem_cons_self
    obtain ⟨g₂, hg₂, htold, hkept⟩ := h₁.exists_answer hm fun j v hj hv => by
      obtain ⟨newer, rfl⟩ := hsuffix
      rw [h₁.via newer.length m j (by simp) hj] at hv
      cases older with
      | nil => simp at hv
      | cons older rest =>
        obtain rfl : older = v := by simpa [List.getElem?_append_right] using hv
        exact hrings older List.mem_cons_self
    obtain ⟨g₃, hg₃, hview, hkept'⟩ := (h₁.onward hg₂).exists_learned hm htold
    refine ⟨g₃, hg₁.trans (hg₂.trans hg₃), List.forall_mem_cons.mpr ⟨hview, fun k hk => ?_⟩⟩
    exact hkept' k (hkept k (hrings k hk))

/-- Who has a ring can tell the others. -/
theorem exists_announced (h : Formed joined g) (hrings : ∀ m ∈ joined, g.view? m.endpoint ≠ none)
    {members : List Member} (hmem : ∀ m ∈ members, m ∈ joined) :
    ∃ g', g.Onward g' ∧ (∀ m ∈ joined, g'.view? m.endpoint ≠ none) ∧
      ∀ m ∈ members, g'.HasAnnounced m := by
  induction members with
  | nil => exact ⟨g, .refl g, hrings, by simp⟩
  | cons m members ih =>
    obtain ⟨g', hg', hrings, hsaid⟩ := ih fun k hk => hmem k (List.mem_cons_of_mem m hk)
    obtain ⟨j, hj, rfl⟩ := (h.onward hg').listens m (hmem m List.mem_cons_self)
    obtain ⟨elector, hview⟩ :=
      Option.ne_none_iff_exists'.mp (hrings j.member (hmem _ List.mem_cons_self))
    rw [view?, hj, Option.bind_some] at hview
    cases hannounced : j.announced with
    | true =>
      refine ⟨g', hg', hrings, fun k hk => ?_⟩
      obtain rfl | hk := List.mem_cons.mp hk
      · exact ⟨j, hj, hannounced⟩
      · exact hsaid k hk
    | false =>
      refine ⟨_, hg'.trans (.announce (announce_eq_some.mpr
        ⟨j, elector, hj, hview, hannounced, rfl⟩)), fun k hk => ?_, fun k hk => ?_⟩
      · rw [view?_set]
        split
        · change j.view? ≠ none
          exact hview ▸ Option.some_ne_none _
        · exact hrings k hk
      · rw [hasAnnounced_set]
        split
        · rfl
        · rename_i hne
          exact hsaid k ((List.mem_cons.mp hk).resolve_left fun heq => hne (heq ▸ rfl))

/-- What is underway can arrive. -/
theorem exists_settled (h : Formed joined g) : ∃ g', g.Onward g' ∧ g'.Settled joined := by
  obtain ⟨g₁, hg₁, hrings⟩ := h.exists_rings List.suffix_rfl
  obtain ⟨g₂, hg₂, hrings, hsaid⟩ := (h.onward hg₁).exists_announced hrings fun _ => id
  have h₂ := (h.onward hg₁).onward hg₂
  suffices hdrain : ∀ n g, g.underway.length = n → Formed joined g →
      (∀ m ∈ joined, g.view? m.endpoint ≠ none) → (∀ m ∈ joined, g.HasAnnounced m) →
      ∃ g', g.Onward g' ∧ g'.Settled joined by
    obtain ⟨g', hg', hsettled⟩ := hdrain _ g₂ rfl h₂ hrings hsaid
    exact ⟨g', hg₁.trans (hg₂.trans hg'), hsettled⟩
  intro n
  induction n with
  | zero =>
    refine fun g hempty _ hrings hsaid => ⟨g, .refl g, ⟨fun m hm => ?_, ?_⟩⟩
    · obtain ⟨j, hj, hannounced⟩ := hsaid m hm
      refine ⟨j, hj, ?_, hannounced⟩
      have hview := hrings m hm
      rwa [view?, hj, Option.bind_some] at hview
    · exact List.eq_nil_of_length_eq_zero hempty
  | succ n ih =>
    intro g hlength h hrings hsaid
    obtain ⟨⟨k, event⟩, hfirst⟩ : ∃ entry, g.underway[0]? = some entry :=
      ⟨_, List.getElem?_eq_getElem (by omega)⟩
    obtain ⟨_, -, -, hknown⟩ := h.underway k event (List.mem_of_getElem? hfirst)
    obtain ⟨elector, hview⟩ := Option.ne_none_iff_exists'.mp (hrings k (h.known k k hknown).1)
    obtain ⟨j, hj, hview⟩ := Option.bind_eq_some_iff.mp hview
    have hstep := deliver_eq_some.mpr ⟨k, event, j, elector, hfirst, hj, hview, rfl⟩
    set j' : Joiner := { j with elector := some (elector.hear event).1 }
    have hview' : j'.view? = some (elector.hear event).1 :=
      view?_eq_some.mpr ⟨(view?_eq_some.mp hview).1, rfl⟩
    have hrings' : ∀ m ∈ joined,
        (g.set j' (g.underway.eraseIdx 0)).view? m.endpoint ≠ none := by
      intro m hm
      rw [view?_set]
      split
      · exact hview' ▸ Option.some_ne_none _
      · exact hrings m hm
    have hsaid' : ∀ m ∈ joined, (g.set j' (g.underway.eraseIdx 0)).HasAnnounced m := by
      intro m hm
      rw [hasAnnounced_set]
      split
      · rename_i heq
        have heq : m.endpoint = j.member.endpoint := heq
        obtain ⟨x, hx, hannounced⟩ := hsaid m hm
        rw [heq, h.listener_eq hj] at hx
        cases hx
        exact hannounced
      · exact hsaid m hm
    have hshorter : (g.underway.eraseIdx 0).length = n := by
      rw [List.length_eraseIdx_of_lt (by omega), hlength, Nat.add_sub_cancel]
    obtain ⟨g', hg', hsettled⟩ := ih _ hshorter (h.deliver hstep) hrings' hsaid'
    exact ⟨g', (Onward.deliver hstep).trans hg', hsettled⟩

end Formed

theorem run_append (g : Gathering) (before after : List Occasion) :
    g.run (before ++ after) = (g.run before).run after := List.foldl_append

/-- **All rings become one.** Members with different endpoints join through one introducer, and what
else they do happens in any order. Once all have their snapshots and all that they told each other
has arrived, every ring has exactly those who joined, and its coordinator is the first of them. At
every time it can come to that without another newcomer. -/
theorem rings_converge (occasions : List Occasion)
    (hdistinct : ((joining occasions).map Member.endpoint).Nodup) :
    let members := joining occasions
    let g := run {} occasions
    (g.Settled members → ∀ m ∈ members, ∃ elector, g.elector? m.endpoint = some elector ∧
      elector.ring.owner = m ∧ (∀ k, k ∈ elector.ring.members ↔ k ∈ members) ∧
      elector.ring.coordinator = members.head?) ∧
    ∃ more, joining more = [] ∧ (run {} (occasions ++ more)).Settled members := by
  intro members g
  have hformed : Formed members.reverse g := by
    have hrun := formed_empty.run occasions (by simpa using hdistinct)
    rwa [List.append_nil] at hrun
  constructor
  · intro hsettled m hm
    have hall : g.Settled members.reverse := ⟨by simpa using hsettled.announced, hsettled.arrived⟩
    have hmem (k : Member) : k ∈ members.reverse ↔ k ∈ members := List.mem_reverse
    obtain ⟨elector, helector, hself⟩ :=
      hformed.knows_of_settled hall ((hmem m).mpr hm) ((hmem m).mpr hm)
    obtain ⟨j, hj, helect⟩ := Option.bind_eq_some_iff.mp helector
    obtain ⟨x, hx, rfl⟩ := hformed.listens m ((hmem m).mpr hm)
    cases hx.symm.trans hj
    obtain ⟨howner, -, first, hlast, hfirst, -⟩ := hformed.leads _ _ elector hj helect
    refine ⟨elector, helector, howner, fun k => ⟨fun hk => ?_, fun hk => ?_⟩, ?_⟩
    · exact (hmem k).mp (hformed.known _ k ⟨elector, helector, hk⟩).1
    · obtain ⟨found, hfound, hk⟩ :=
        hformed.knows_of_settled hall ((hmem _).mpr hm) ((hmem k).mpr hk)
      cases helector.symm.trans hfound
      exact hk
    · rw [hfirst, ← hlast, List.getLast?_reverse]
  · obtain ⟨g', ⟨more, hnobody, rfl⟩, hsettled⟩ := hformed.exists_settled
    refine ⟨more, hnobody, ?_⟩
    rw [run_append]
    exact ⟨by simpa using hsettled.announced, hsettled.arrived⟩

/-- Two members are introduced before anybody has a ring, so one of them asks in vain at first, and
again while the other's answer is on its way. They announce themselves while the other's
announcement is still on its way. -/
theorem rings_of_three_converge :
    let first : Member := ⟨"a", 1, 1⟩
    let second : Member := ⟨"a", 2, 1⟩
    let third : Member := ⟨"b", 1, 1⟩
    let occasions : List Occasion := [.introduce first, .introduce second, .introduce third,
      .answer third.endpoint, .answer first.endpoint, .learn first.endpoint,
      .answer second.endpoint, .answer third.endpoint, .learn second.endpoint,
      .answer third.endpoint, .learn third.endpoint, .announce third.endpoint,
      .announce second.endpoint, .deliver 1, .deliver 1, .announce first.endpoint, .deliver 1,
      .deliver 0]
    ((joining occasions).map Member.endpoint).Nodup ∧
      (run {} occasions).Settled [first, second, third] ∧
      ∀ m ∈ [first, second, third], ∃ elector,
        (run {} occasions).elector? m.endpoint = some elector ∧ elector.ring.owner = m ∧
        (∀ k, k ∈ elector.ring.members ↔ k ∈ [first, second, third]) ∧
        elector.ring.coordinator = some first := by
  intro first second third occasions
  have hdistinct : ((joining occasions).map Member.endpoint).Nodup := by decide
  have hsettled : (run {} occasions).Settled [first, second, third] :=
    ⟨by decide +kernel, by decide +kernel⟩
  exact ⟨hdistinct, hsettled, (rings_converge occasions hdistinct).1 hsettled⟩

end ReplicaRing.Gathering
