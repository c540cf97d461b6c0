import ReplicaRing.Proofs.Election.Truth

/-!
# Safety of the election

Whatever is lost, repeated, overtaken, aborted or started over: at most one member wins, it is the
highest, and nobody ever takes another one for the coordinator. Nothing is claimed about progress.
-/
namespace ReplicaRing.Election

namespace Circuit

variable {c c' : Circuit} {S : MemberSet} {top m l : Member} {s : Seat} {e e' : Elector}
  {heard : Option Token} {a : Action} {out : Multiset (Member × Token)} {mv : Move}
  {moves : List Move}

theorem Knows.congr (h : c.Knows m l) (hs : c'.seats = c.seats) : c'.Knows m l := by
  rw [Knows, hs]
  exact h

/-- A member that knows the coordinator stays with it unless it removes it. -/
theorem Knows.step (h : c.Knows m l) (hn : c.names.Nodup)
    (hstep : c.Stepped c' s s.elector heard e a e' out) : c'.Knows m l := by
  obtain ⟨x, hx, rfl, hknown⟩ := h
  by_cases hxs : x.name = s.name
  · have hsame := seat_unique hn hstep.mem hx hxs
    subst hsame
    refine ⟨{ x with elector := e' }, (hstep.acted.seats _).mpr (Or.inl rfl), ?_, ?_⟩
    · change e'.ring.owner = x.name
      rw [hstep.dispatch.ring_eq, hstep.conduct.owner_eq]
      rfl
    · change e'.ring.coordinator = some l
      rw [hstep.dispatch.ring_eq]
      exact hstep.conduct.keeps hknown
  · exact ⟨x, (hstep.acted.seats x).mpr (Or.inr ⟨hx, hxs⟩), rfl, hknown⟩

theorem Knows.effect (h : c.Knows m l) (hn : c.names.Nodup) (he : c.Effect none c') :
    c'.Knows m l := by
  cases he with
  | idle => exact h
  | asked hs => exact h.step hn hs
  | removed gone => cases gone
  | delivered take hs =>
    exact (h.congr take.seats).step (by rw [names, take.seats]; exact hn) hs
  | lost take => exact h.congr take.seats

theorem Knows.keepsRings (h : c.Knows m l) (hc : c.Orderly) (hmv : mv.keepsRings = true) :
    (c.move mv).Knows m l := by
  cases mv with
  | initiate i => exact h.effect hc.nodup (plain_effect hc rfl)
  | deliver place => exact h.effect hc.nodup (plain_effect hc rfl)
  | restart i => exact h.effect hc.nodup (actLive_effect hc Elector.onRemoved_conduct)
  | abort i => exact h.effect hc.nodup (actLive_effect hc Elector.abort_conduct)
  | lose place =>
    refine h.congr ?_
    rw [move, loseAt]
    split <;> rfl
  | duplicate place => exact h.congr rfl
  | _ => cases hmv

theorem Knows.run (h : c.Knows m l) (hc : c.Orderly)
    (hm : ∀ mv ∈ moves, mv.keepsRings = true) : (c.run moves).Knows m l := by
  induction moves generalizing c with
  | nil => exact h
  | cons mv moves ih =>
    exact ih (h.keepsRings hc (hm mv List.mem_cons_self)) (hc.move mv)
      fun mv' hmv => hm mv' (List.mem_cons_of_mem _ hmv)

/-- What a circuit without a departed member may contain. -/
theorem Truthful.knows_top (h : Truthful S none top c) (hk : c.Knows m l) : l = top := by
  obtain ⟨s, hs, _, hknown⟩ := hk
  rcases h.known s hs l hknown with hold | ⟨htop, _⟩
  · cases hold
  · exact htop

theorem Truthful.elected_top (h : Truthful S none top c) {j : Nat}
    (hq : (j, Token.elected l) ∈ c.queue) : l = top := by
  obtain ⟨n, hn⟩ : ∃ n, c.names[j]? = some n :=
    ⟨_, List.getElem?_eq_getElem (h.orderly.addressed _ hq)⟩
  rcases h.tokens (n, .elected l) (mem_bound.mpr ⟨j, hq, hn⟩) with hold | ⟨htop, _⟩
  · cases hold
  · exact htop

theorem Truthful.winners_length_le (h : Truthful S none top c) : c.winners.length ≤ 1 := by
  have hw : ∀ w ∈ c.winners, w = top := fun w hmem =>
    (h.winners w hmem).resolve_right fun hnone => by cases hnone
  by_cases hc : c.Crowned top
  · rw [h.winners_of_crowned hw hc, List.length_singleton]
  · rw [h.winners_of_not_crowned hw hc, List.length_nil]
    omega

/-- **No run makes anyone but the highest member coordinator**, and none makes it twice. From a
fresh circuit every coordinator on record and every outcome in flight is the maximum, what a member
knows at some point it still knows later, and no more than one member wins. -/
theorem election_safe (hne : S ≠ ∅) (hc : Fresh S c) (before after : List Move)
    (hm : ∀ mv ∈ before ++ after, mv.keepsRings = true) :
    (∀ m l, (c.run (before ++ after)).Knows m l → S.max? = some l) ∧
    (∀ j l, (j, Token.elected l) ∈ (c.run (before ++ after)).queue → S.max? = some l) ∧
    (∀ m l, (c.run before).Knows m l → (c.run (before ++ after)).Knows m l) ∧
    (c.run (before ++ after)).winners.length ≤ 1 := by
  obtain ⟨top, htop⟩ :=
    Option.isSome_iff_exists.mp (Std.ExtTreeSet.isSome_max?_iff_ne_empty.mpr hne)
  have hstart : Truthful S none top c := hc.truthful htop (by simp) (by simp)
  have hbefore := hstart.run_keepsRings fun mv hmv => hm mv (List.mem_append_left _ hmv)
  have hend := hstart.run_keepsRings hm
  refine ⟨fun m l hk => ?_, fun j l hq => ?_, fun m l hk => ?_, hend.winners_length_le⟩
  · rw [hend.knows_top hk, htop]
  · rw [hend.elected_top hq, htop]
  · rw [run_append]
    exact hk.run hbefore.orderly fun mv hmv => hm mv (List.mem_append_right _ hmv)

/-- Three members; one candidate arrives twice and another is lost. -/
theorem election_safe_among_three :
    let members : List Member := [⟨"a", 1, 1⟩, ⟨"b", 1, 1⟩, ⟨"c", 1, 1⟩]
    let before : List Move := [.initiate 2, .initiate 0, .duplicate 0, .lose 1, .deliver 0,
      .deliver 1, .deliver 1]
    let after : List Move :=
      [.restart 0, .abort 1, .deliver 0, .duplicate 0, .deliver 1, .deliver 0]
    ((ofMembers members).run before).Knows ⟨"c", 1, 1⟩ ⟨"c", 1, 1⟩ ∧
      (∀ m l, ((ofMembers members).run (before ++ after)).Knows m l →
        (Std.ExtTreeSet.ofList members).max? = some l) ∧
      ((ofMembers members).run (before ++ after)).winners.length ≤ 1 := by
  intro members before after
  have hms : members.Nodup := by decide
  have hsafe := election_safe (by decide) (ofMembers_fresh hms) before after (by decide)
  exact ⟨by decide, hsafe.1, hsafe.2.2.2⟩

end Circuit

end ReplicaRing.Election
