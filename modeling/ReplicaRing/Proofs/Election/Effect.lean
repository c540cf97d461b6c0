import ReplicaRing.Proofs.Election.Views

/-!
# The effects of moves

Calls, removals and deliveries come down to five effects. An invariant of the election is preserved
by every run as soon as it is preserved by these. Circuits stay orderly under all moves, so that a
delivery always finds the seat that its token goes to.
-/
namespace ReplicaRing.Election.Circuit

variable {c c' : Circuit} {i j place : Nat} {s : Seat} {e : Elector} {a : Action} {t : Token}
  {m : Member} {mv : Move} {old : Option Member} {e₀ e' : Elector} {heard : Option Token}
  {out : Multiset (Member × Token)} {f : Elector → Elector × Action}

/-- Every member has one seat, and every token goes to a seat. -/
structure Orderly (c : Circuit) : Prop where
  nodup : c.names.Nodup
  addressed : ∀ p ∈ c.queue, p.1 < c.names.length

/-- A live member at `s` takes a step from `e₀`, and its action is carried out. -/
structure Stepped (c c' : Circuit) (s : Seat) (e₀ : Elector) (heard : Option Token) (e : Elector)
    (a : Action) (e' : Elector) (out : Multiset (Member × Token)) : Prop where
  mem : s ∈ c.seats
  live : s.live = true
  conduct : Conduct e₀ heard e a
  dispatch : c.Dispatch e a e' out
  acted : c.Acted c' s e' a out

/-- One token is taken away. -/
structure Takes (c c₁ : Circuit) (p : Member × Token) : Prop where
  seats : c₁.seats = c.seats
  winners : c₁.winners = c.winners
  bound : c.bound = p ::ₘ c₁.bound
  queue : ∀ q ∈ c₁.queue, q ∈ c.queue

/-- What can come of a move by which no member but `old` is removed. -/
inductive Effect (c : Circuit) (old : Option Member) : Circuit → Prop
  | idle : Effect c old c
  /-- A member starts, or starts over, an election, or forgets it. -/
  | asked {c' : Circuit} {s : Seat} {e e' : Elector} {a : Action}
      {out : Multiset (Member × Token)} (h : c.Stepped c' s s.elector none e a e' out) :
      Effect c old c'
  | removed {c' : Circuit} {s : Seat} {e e' : Elector} {a : Action}
      {out : Multiset (Member × Token)} {m : Member} (gone : old = some m) (other : m ≠ s.name)
      (restarts : m ∈ s.elector.ring.members → (s.elector.ring.remove m).1.coordinator = none →
        a ≠ .ignore)
      (h : c.Stepped c' s { s.elector with ring := (s.elector.ring.remove m).1 } none e a e' out) :
      Effect c old c'
  | delivered {c₁ c' : Circuit} {s : Seat} {t : Token} {e e' : Elector} {a : Action}
      {out : Multiset (Member × Token)} (take : c.Takes c₁ (s.name, t))
      (h : c₁.Stepped c' s s.elector (some t) e a e' out) : Effect c old c'
  /-- The receiver has crashed. -/
  | lost {c' : Circuit} {p : Member × Token} (take : c.Takes c' p) (gone : ¬ c.IsLive p.1) :
      Effect c old c'

/-- What can come of the removal of `m` at `i`: a step from the smaller ring, or nothing. -/
inductive Removal (c : Circuit) (i : Nat) (m : Member) (c' : Circuit) : Prop
  | idle (same : c' = c)
      (gone : ∀ s, c.seats[i]? = some s → s.live = true → m ∉ s.elector.ring.members)
  | acted {s : Seat} {e' : Elector} {out : Multiset (Member × Token)}
      (seat : c.seats[i]? = some s)
      (h : c.Stepped c' s { s.elector with ring := (s.elector.ring.remove m).1 } none
        (s.elector.remove m).1 (s.elector.remove m).2 e' out)

theorem Dispatch.ring_eq (h : c.Dispatch e a e' out) : e'.ring = e.ring := by
  cases h <;> rfl

/-- Only a token that the action names goes out, to the member that follows. -/
theorem Dispatch.out_cases (h : c.Dispatch e a e' out) {p : Member × Token} (hp : p ∈ out) :
    a.token? = some p.2 ∧ e.ring.members.Follows e.ring.owner p.1 := by
  cases h with
  | quiet => simp at hp
  | sent ht hnext =>
    rw [Multiset.mem_singleton.mp hp]
    exact ⟨ht, Ring.follows_of_successor? hnext⟩
  | undeliverable => simp at hp

namespace Stepped

theorem name_eq (h : c.Stepped c' s e₀ heard e a e' out) (ho : e₀.ring.owner = s.name) :
    Seat.name { s with elector := e' } = s.name := by
  change e'.ring.owner = _
  rw [h.dispatch.ring_eq, h.conduct.owner_eq, ho]

theorem isLive_iff (h : c.Stepped c' s e₀ heard e a e' out) (ho : e₀.ring.owner = s.name) :
    c'.IsLive m ↔ c.IsLive m := by
  have hname := h.name_eq ho
  constructor
  · rintro ⟨x, hx, hxname, hlive⟩
    rcases (h.acted.seats x).mp hx with rfl | ⟨hx, _⟩
    · exact ⟨s, h.mem, hname.symm.trans hxname, hlive⟩
    · exact ⟨x, hx, hxname, hlive⟩
  · rintro ⟨x, hx, hxname, hlive⟩
    by_cases hxs : x.name = s.name
    · refine ⟨{ s with elector := e' }, (h.acted.seats _).mpr (Or.inl rfl), ?_, h.live⟩
      rw [hname, ← hxs, hxname]
    · exact ⟨x, (h.acted.seats x).mpr (Or.inr ⟨hx, hxs⟩), hxname, hlive⟩

end Stepped

theorem IsLive.congr (h : c'.seats = c.seats) : c'.IsLive m ↔ c.IsLive m := by
  rw [IsLive, IsLive, h]

/-- Nobody comes back, and nobody crashes unsaid. -/
theorem Effect.isLive_iff (h : c.Effect old c') : c'.IsLive m ↔ c.IsLive m := by
  cases h with
  | idle => exact Iff.rfl
  | asked h => exact h.isLive_iff rfl
  | removed _ _ _ h => exact h.isLive_iff (Ring.remove_owner _ _)
  | delivered take h => exact (h.isLive_iff rfl).trans (IsLive.congr take.seats)
  | lost take => exact IsLive.congr take.seats

theorem Effect.names_eq (h : c.Effect old c') : c'.names = c.names := by
  cases h with
  | idle => rfl
  | asked h => exact h.acted.names
  | removed _ _ _ h => exact h.acted.names
  | delivered take h => exact h.acted.names.trans (by rw [names, names, take.seats])
  | lost take => rw [names, names, take.seats]

/-- Only who is live wins. -/
theorem Effect.isLive_of_winner (h : c.Effect old c') (hm : m ∈ c'.winners) :
    m ∈ c.winners ∨ c.IsLive m := by
  have hstep : ∀ {c : Circuit} {s : Seat} {e₀ e e' : Elector} {heard : Option Token} {a : Action}
      {out : Multiset (Member × Token)}, c.Stepped c' s e₀ heard e a e' out →
      m ∈ c.winners ∨ c.IsLive m := by
    intro c s e₀ e e' heard a out h
    rw [h.acted.winners] at hm
    rcases List.mem_append.mp hm with hm | hm
    · exact Or.inl hm
    · split at hm
      · rw [List.mem_singleton.mp hm]
        exact Or.inr ⟨s, h.mem, rfl, h.live⟩
      · cases hm
  cases h with
  | idle => exact Or.inl hm
  | asked h => exact hstep h
  | removed _ _ _ h => exact hstep h
  | delivered take h =>
    rw [← take.winners, ← IsLive.congr take.seats]
    exact hstep h
  | lost take => exact Or.inl (take.winners ▸ hm)

/-- No member takes another into its ring. -/
theorem Effect.mem_of_mem (h : c.Effect old c') {x' : Seat} (hx : x' ∈ c'.seats) :
    ∃ x ∈ c.seats, x.name = x'.name ∧
      ∀ k ∈ x'.elector.ring.members, k ∈ x.elector.ring.members := by
  have hstep : ∀ {c : Circuit} {s : Seat} {e₀ e e' : Elector} {heard : Option Token} {a : Action}
      {out : Multiset (Member × Token)}, c.Stepped c' s e₀ heard e a e' out →
      e₀.ring.owner = s.name → (∀ k ∈ e₀.ring.members, k ∈ s.elector.ring.members) →
      ∃ x ∈ c.seats, x.name = x'.name ∧
        ∀ k ∈ x'.elector.ring.members, k ∈ x.elector.ring.members := by
    intro c s e₀ e e' heard a out h ho hsub
    rcases (h.acted.seats x').mp hx with rfl | ⟨hx, _⟩
    · refine ⟨s, h.mem, (h.name_eq ho).symm, fun k hk => hsub k ?_⟩
      rw [← h.conduct.members_eq, ← h.dispatch.ring_eq]
      exact hk
    · exact ⟨x', hx, rfl, fun _ hk => hk⟩
  cases h with
  | idle => exact ⟨x', hx, rfl, fun _ hk => hk⟩
  | asked h => exact hstep h rfl fun _ hk => hk
  | removed _ other _ h =>
    exact hstep h (Ring.remove_owner _ _) fun _ hk => ((Ring.mem_remove other).mp hk).2
  | delivered take h => exact take.seats ▸ hstep h rfl fun _ hk => hk
  | lost take => exact ⟨x', take.seats ▸ hx, rfl, fun _ hk => hk⟩

/-! ### Circuits stay orderly -/

theorem Orderly.of_acted (h : c.Orderly) (ha : c.Acted c' s e a out) : c'.Orderly where
  nodup := ha.names ▸ h.nodup
  addressed p hp := by
    rw [ha.names]
    rcases ha.addressed p hp with hold | hnew
    · exact h.addressed p hold
    · exact hnew

theorem Orderly.of_queue_subset (h : c.Orderly) (hn : c'.names = c.names)
    (hq : ∀ p ∈ c'.queue, p ∈ c.queue) : c'.Orderly where
  nodup := hn ▸ h.nodup
  addressed p hp := hn ▸ h.addressed p (hq p hp)

theorem liveAt_iff : c.liveAt i = true ↔ ∃ s, c.seats[i]? = some s ∧ s.live = true := by
  rw [liveAt, Option.any_eq_true]

theorem actLive_of_live (h : c.liveAt i = true) : c.actLive i f = c.act i f := if_pos h

theorem Orderly.act (h : c.Orderly) (hown : ∀ e, (f e).1.ring.owner = e.ring.owner) :
    (c.act i f).Orderly := by
  cases hs : c.seats[i]? with
  | none => simpa only [Circuit.act, hs] using h
  | some s =>
    obtain ⟨e', out, _, hacted⟩ := act_acted h.nodup hs (hown s.elector)
    exact h.of_acted hacted

theorem Orderly.actLive (h : c.Orderly) (hown : ∀ e, (f e).1.ring.owner = e.ring.owner) :
    (c.actLive i f).Orderly := by
  unfold Circuit.actLive
  split
  · exact h.act hown
  · exact h

theorem electors_crash (c : Circuit) (i : Nat) :
    (c.crash i).seats.map (·.elector) = c.seats.map (·.elector) := by
  apply List.ext_getElem?
  intro j
  simp only [crash, record, List.getElem?_map, List.getElem?_modify]
  cases c.seats[j]? with
  | none => rfl
  | some s => by_cases hij : i = j <;> simp [hij]

theorem names_crash (c : Circuit) (i : Nat) : (c.crash i).names = c.names := by
  have h := congrArg (List.map (·.ring.owner)) (electors_crash c i)
  rwa [List.map_map, List.map_map] at h

theorem winners_crash (c : Circuit) (i : Nat) : (c.crash i).winners = c.winners := by
  rw [crash, winners_record _ (by simp)]
  exact congrArg (c.trace.filterMap <| winner? ·) (names_crash c i)

/-- A crash takes one member away. -/
theorem isLive_crash (hn : c.names.Nodup) (hi : c.names[i]? = some n) :
    (c.crash i).IsLive m ↔ c.IsLive m ∧ m ≠ n := by
  have hseat : ∀ j, (c.crash i).seats[j]? =
      (fun s => if i = j then { s with live := false } else s) <$> c.seats[j]? := by
    intro j
    exact List.getElem?_modify ..
  constructor
  · rintro ⟨x, hx, rfl, hlive⟩
    obtain ⟨j, hj⟩ := List.mem_iff_getElem?.mp hx
    rw [hseat] at hj
    obtain ⟨y, hy, hyx⟩ := Option.map_eq_some_iff.mp hj
    by_cases hij : i = j
    · rw [if_pos hij] at hyx
      rw [← hyx] at hlive
      cases hlive
    · rw [if_neg hij] at hyx
      subst hyx
      refine ⟨⟨y, List.mem_of_getElem? hy, rfl, hlive⟩, ?_⟩
      rintro rfl
      exact hij (index_unique hn hi (name_of_getElem? hy))
  · rintro ⟨⟨y, hy, rfl, hlive⟩, hne⟩
    obtain ⟨j, hj⟩ := List.mem_iff_getElem?.mp hy
    have hij : i ≠ j := by
      rintro rfl
      exact hne (Option.some.inj ((name_of_getElem? hj).symm.trans hi))
    refine ⟨y, List.mem_of_getElem? (i := j) ?_, rfl, hlive⟩
    rw [hseat, hj]
    exact congrArg some (if_neg hij)

theorem Orderly.crash (h : c.Orderly) : (c.crash i).Orderly :=
  h.of_queue_subset (names_crash c i) fun _ hp => hp

theorem remove_owner (e : Elector) (m : Member) : (e.remove m).1.ring.owner = e.ring.owner :=
  (e.remove_conduct m).owner_eq.trans (Ring.remove_owner e.ring m)

theorem perform_owner (e : Elector) (d : Session.Duty) :
    (Session.perform e d).1.ring.owner = e.ring.owner := by
  cases d with
  | add m => rfl
  | remove m => exact remove_owner e m
  | token t => exact (e.onToken_conduct t).owner_eq
  | startElection => exact e.initiate_conduct.owner_eq
  | stop => rfl

theorem Orderly.fulfil (h : c.Orderly) (d : Session.Duty) : (fulfil i c d).Orderly := by
  unfold Circuit.fulfil
  split
  · exact h.crash
  · exact h.actLive fun e => perform_owner e d

theorem Orderly.foldl_fulfil (h : c.Orderly) (ds : List Session.Duty) :
    (ds.foldl (Circuit.fulfil i) c).Orderly := by
  induction ds generalizing c with
  | nil => exact h
  | cons d ds ih => exact ih (h.fulfil d)

theorem mem_advance {p : Nat × Token} (hp : p ∈ (c.advance place).queue) : p ∈ c.queue := by
  rcases List.mem_append.mp hp with hp | hp
  · exact List.mem_of_getElem? (Option.mem_toList.mp hp)
  · exact List.mem_of_mem_eraseIdx hp

theorem Orderly.deliverOne (h : c.Orderly) : c.deliverOne.Orderly := by
  unfold Circuit.deliverOne
  split
  · exact h
  · rename_i seat t queue hq
    have hc : ({ c with queue } : Circuit).Orderly :=
      h.of_queue_subset rfl fun p hp => hq ▸ List.mem_cons_of_mem _ hp
    dsimp only
    split
    · exact hc
    · split
      · exact hc.act fun e => (e.onToken_conduct t).owner_eq
      · exact hc.of_queue_subset rfl fun _ hp => hp

theorem Orderly.move (h : c.Orderly) (mv : Move) : (c.move mv).Orderly := by
  cases mv with
  | initiate i => exact h.actLive fun e => e.initiate_conduct.owner_eq
  | restart i => exact h.actLive fun e => e.onRemoved_conduct.owner_eq
  | abort i => exact h.actLive fun _ => rfl
  | hear i event =>
    simp only [Circuit.move, Circuit.hear]
    split
    · exact h
    · exact h.foldl_fulfil _
  | suspect i m =>
    simp only [Circuit.move, Circuit.suspect, Circuit.remove]
    split
    · split
      · exact h
      · split
        · exact h.act fun e => remove_owner e m
        · exact h
    · exact h
  | deliver place =>
    simp only [Circuit.move, Circuit.deliverAt]
    split
    · have hadvance : (c.advance place).Orderly := h.of_queue_subset rfl fun _ => mem_advance
      exact hadvance.deliverOne
    · exact h
  | lose place =>
    simp only [Circuit.move, Circuit.loseAt]
    split
    · exact h.of_queue_subset rfl fun _ hp => mem_advance (List.mem_of_mem_tail hp)
    · exact h
  | duplicate place =>
    refine h.of_queue_subset rfl fun p hp => ?_
    rcases List.mem_append.mp hp with hp | hp
    · exact hp
    · exact List.mem_of_getElem? (Option.mem_toList.mp hp)
  | crash i => exact h.crash

/-! ### From moves to effects -/

theorem run_append (c : Circuit) (before after : List Move) :
    c.run (before ++ after) = (c.run before).run after :=
  List.foldl_append

theorem actLive_effect (h : c.Orderly) (hcon : ∀ e, Conduct e none (f e).1 (f e).2) :
    c.Effect old (c.actLive i f) := by
  unfold actLive
  split
  · rename_i hlive
    obtain ⟨s, hs, hl⟩ := liveAt_iff.mp hlive
    obtain ⟨e', out, hd, hacted⟩ := act_acted h.nodup hs (hcon s.elector).owner_eq
    exact .asked ⟨List.mem_of_getElem? hs, hl, hcon s.elector, hd, hacted⟩
  · exact .idle

/-- A call to start an election is answered by a live member only. -/
theorem initiate_cases (h : c.Orderly) (i : Nat) :
    (c.answer? (.initiate i) = none ∧ c.move (.initiate i) = c) ∨
      ∃ s e' out, c.seats[i]? = some s ∧ c.answer? (.initiate i) = some s.elector.initiate.2 ∧
        c.Stepped (c.move (.initiate i)) s s.elector none s.elector.initiate.1
          s.elector.initiate.2 e' out := by
  by_cases hlive : c.liveAt i = true
  · obtain ⟨s, hs, hl⟩ := liveAt_iff.mp hlive
    have hcon := s.elector.initiate_conduct
    obtain ⟨e', out, hd, hacted⟩ := act_acted h.nodup hs hcon.owner_eq
    refine Or.inr ⟨s, e', out, hs, by simp [answer?, hs, hl], ?_⟩
    rw [move, actLive_of_live hlive]
    exact ⟨List.mem_of_getElem? hs, hl, hcon, hd, hacted⟩
  · refine Or.inl ⟨?_, if_neg hlive⟩
    rw [answer?, Option.map_eq_none_iff, Option.filter_eq_none_iff]
    intro s hs hl
    exact hlive (liveAt_iff.mpr ⟨s, hs, hl⟩)

theorem actLive_removal (h : c.Orderly) (i : Nat) (m : Member) :
    c.Removal i m (c.actLive i (·.remove m)) := by
  by_cases hlive : c.liveAt i = true
  · obtain ⟨s, hs, hl⟩ := liveAt_iff.mp hlive
    obtain ⟨e', out, hd, hacted⟩ := act_acted h.nodup hs (f := (·.remove m))
      (remove_owner s.elector m)
    rw [actLive_of_live hlive]
    exact .acted hs ⟨List.mem_of_getElem? hs, hl, s.elector.remove_conduct m, hd, hacted⟩
  · exact .idle (if_neg hlive) fun s hs hl => absurd (liveAt_iff.mpr ⟨s, hs, hl⟩) hlive

theorem hear_eq (hi : c.names[i]? ≠ some m) {kind : EventKind}
    (hk : kind = .leave ∨ kind = .crash) : c.hear i ⟨kind, m⟩ = c.actLive i (·.remove m) := by
  unfold hear
  split
  · rename_i hs
    rw [actLive, liveAt, hs]
    rfl
  · rename_i s hs
    have hm : m ≠ s.elector.ring.owner := by
      rintro rfl
      exact hi (name_of_getElem? hs)
    have hd : Session.duties s.elector.ring ⟨kind, m⟩ = [.remove m] := by
      rcases hk with rfl | rfl <;> simp [Session.duties, hm]
    rw [hd]
    rfl

/-- A suspicion of a stranger changes nothing. -/
theorem suspect_removal (h : c.Orderly) (hi : c.names[i]? ≠ some m) :
    c.Removal i m (c.suspect i m) := by
  by_cases hlive : c.liveAt i = true
  · obtain ⟨s, hs, hl⟩ := liveAt_iff.mp hlive
    have hne : m ≠ s.elector.ring.owner := by
      rintro rfl
      exact hi (name_of_getElem? hs)
    have hgone : (s.elector.ring.remove m).2 = s.elector.ring.contains m := by
      rw [Ring.remove, if_neg hne]
    have hact := actLive_removal h i m
    rw [actLive_of_live hlive] at hact
    rw [suspect, if_pos hlive, remove, hs]
    dsimp only
    rw [hgone]
    split
    · exact hact
    · rename_i hnot
      refine .idle rfl fun s' hs' _ => ?_
      cases hs.symm.trans hs'
      exact hnot
  · exact .idle (if_neg hlive) fun s hs hl => absurd (liveAt_iff.mpr ⟨s, hs, hl⟩) hlive

theorem removesAt_removal (h : c.Orderly) (hi : c.names[i]? ≠ some m) (hmv : mv.RemovesAt i m) :
    c.Removal i m (c.move mv) := by
  rcases hmv with rfl | rfl | rfl
  · rw [move, hear_eq hi (Or.inl rfl)]
    exact actLive_removal h i m
  · rw [move, hear_eq hi (Or.inr rfl)]
    exact actLive_removal h i m
  · exact suspect_removal h hi

theorem removesAt_effect (h : c.Orderly) (hi : c.names[i]? ≠ some m) (hmv : mv.RemovesAt i m) :
    c.Effect (some m) (c.move mv) := by
  cases removesAt_removal h hi hmv with
  | idle same =>
    rw [same]
    exact .idle
  | @acted s _ _ seat hstep =>
    have hne : m ≠ s.name := by
      rintro rfl
      exact hi (name_of_getElem? seat)
    exact .removed rfl hne (fun hm hk => s.elector.remove_ne_ignore hm hne hk) hstep

theorem takes_eraseIdx (hq : c.queue[place]? = some (j, t)) (hj : c.names[j]? = some m) :
    c.Takes { c with queue := c.queue.eraseIdx place } (m, t) where
  seats := rfl
  winners := rfl
  bound := by
    obtain ⟨hlt, hget⟩ := List.getElem?_eq_some_iff.mp hq
    have hperm := (List.getElem_cons_eraseIdx_perm hlt).symm
    rw [hget] at hperm
    have hmap := hperm.filterMap fun p => c.names[p.1]?.map (·, p.2)
    rw [List.filterMap_cons_some (by rw [hj]; rfl)] at hmap
    exact Multiset.coe_eq_coe.mpr hmap
  queue _ hq := List.mem_of_mem_eraseIdx hq

/-- A delivery takes the token, and its receiver acts on it if it is still there. -/
theorem deliverAt_effect (h : c.Orderly) (hp : place < c.queue.length) :
    ∃ c₁ s t, s ∈ c.seats ∧ c.Takes c₁ (s.name, t) ∧
      ((s.live = false ∧ c.Takes (c.deliverAt place) (s.name, t)) ∨
        ∃ e a e' out, c₁.Stepped (c.deliverAt place) s s.elector (some t) e a e' out) := by
  obtain ⟨⟨j, t⟩, hq⟩ : ∃ p, c.queue[place]? = some p := ⟨_, List.getElem?_eq_getElem hp⟩
  have hj : j < c.names.length := h.addressed _ (List.mem_of_getElem? hq)
  obtain ⟨s, hs⟩ : ∃ s, c.seats[j]? = some s :=
    ⟨_, List.getElem?_eq_getElem (by simpa [names] using hj)⟩
  have htakes := takes_eraseIdx hq (name_of_getElem? hs)
  have hdeliver : c.deliverAt place =
      if s.live then Circuit.act { c with queue := c.queue.eraseIdx place } j (·.onToken t)
      else Circuit.record { c with queue := c.queue.eraseIdx place } (.lost t) := by
    rw [deliverAt, if_pos hp, advance, hq]
    simp only [deliverOne, Option.toList_some, List.singleton_append, hs]
  rw [hdeliver]
  refine ⟨_, s, t, List.mem_of_getElem? hs, htakes, ?_⟩
  cases hl : s.live with
  | true =>
    rw [if_pos rfl]
    obtain ⟨e', out, hd, hacted⟩ := act_acted
      (c := { c with queue := c.queue.eraseIdx place }) h.nodup hs (f := (·.onToken t))
      (s.elector.onToken_conduct t).owner_eq
    exact Or.inr
      ⟨_, _, e', out, List.mem_of_getElem? hs, hl, s.elector.onToken_conduct t, hd, hacted⟩
  | false =>
    rw [if_neg (by simp)]
    refine Or.inl ⟨rfl, htakes.seats, ?_, htakes.bound, htakes.queue⟩
    exact winners_record _ (by simp)

theorem plain_effect (h : c.Orderly) (hmv : mv.plain = true) : c.Effect old (c.move mv) := by
  cases mv with
  | initiate i => exact actLive_effect h Elector.initiate_conduct
  | deliver place =>
    by_cases hp : place < c.queue.length
    · obtain ⟨c₁, s, t, hs, htake, ⟨hl, hlost⟩ | ⟨e, a, e', out, hstep⟩⟩ := deliverAt_effect h hp
      · refine .lost hlost ?_
        rintro ⟨x, hx, hname, hlive⟩
        rw [seat_unique h.nodup hs hx hname, hl] at hlive
        cases hlive
      · exact .delivered htake hstep
    · rw [move, deliverAt, if_neg hp]
      exact .idle
  | _ => cases hmv

theorem Orderly.run (h : c.Orderly) (moves : List Move) : (c.run moves).Orderly := by
  induction moves generalizing c with
  | nil => exact h
  | cons mv moves ih => exact ih (h.move mv)

/-- What every effect preserves, runs of moves with such effects preserve. -/
theorem run_effects {P : Circuit → Prop} {moves : List Move} (hc : c.Orderly)
    (hmoves : ∀ mv ∈ moves, ∀ c₁ : Circuit, c₁.Orderly → c₁.names = c.names →
      c₁.Effect old (c₁.move mv))
    (hstep : ∀ c₁ c₂ : Circuit, c₁.Orderly → c₁.Effect old c₂ → P c₁ → P c₂) (hP : P c) :
    P (c.run moves) := by
  induction moves generalizing c with
  | nil => exact hP
  | cons mv moves ih =>
    have he := hmoves mv List.mem_cons_self c hc rfl
    refine ih (hc.move mv) (fun mv' hmv' c₁ hc₁ hnames => ?_) (hstep c _ hc he hP)
    exact hmoves mv' (List.mem_cons_of_mem _ hmv') c₁ hc₁ (hnames.trans he.names_eq)

theorem run_plain {P : Circuit → Prop} {moves : List Move} (old : Option Member) (hc : c.Orderly)
    (hm : ∀ mv ∈ moves, mv.plain = true)
    (hstep : ∀ c₁ c₂ : Circuit, c₁.Orderly → c₁.Effect old c₂ → P c₁ → P c₂) (hP : P c) :
    P (c.run moves) :=
  run_effects hc (fun mv hmv _ hc₁ _ => plain_effect hc₁ (hm mv hmv)) hstep hP

end ReplicaRing.Election.Circuit
