import ReplicaRing.Proofs.Election.Recovery

/-!
# When a stalled election starts over

A member that waits for an outcome holds its further attempts back and counts them. With every
`stallLimit`-th one it sends itself again, whatever the others do meanwhile, as long as nothing but
these calls happens to it. The count never gets further than that.
-/
namespace ReplicaRing

namespace Elector

open Election

variable {e : Elector} {t : Token}

/-! ### The count -/

theorem stallLimit_pos : 0 < stallLimit := by decide

theorem stalled_abort_lt (e : Elector) : e.abort.stalled < stallLimit := stallLimit_pos

theorem stalled_initiate_lt (h : e.stalled < stallLimit) : e.initiate.1.stalled < stallLimit := by
  unfold initiate
  split
  · exact h
  · split
    · exact stalled_abort_lt _
    · split
      · rename_i hheld
        exact hheld.2
      · exact stallLimit_pos

theorem stalled_onRemoved_lt (h : e.stalled < stallLimit) :
    e.onRemoved.1.stalled < stallLimit := by
  unfold onRemoved
  split
  · exact h
  · exact stalled_initiate_lt e.stalled_abort_lt

theorem stalled_remove_lt (h : e.stalled < stallLimit) (m : Member) :
    (e.remove m).1.stalled < stallLimit := by
  rw [remove_eq]
  split
  · exact stalled_onRemoved_lt h
  · exact h

theorem stalled_onToken_lt (h : e.stalled < stallLimit) (t : Token) :
    (e.onToken t).1.stalled < stallLimit := by
  cases t with
  | candidate m =>
    simp only [onToken, onCandidate]
    split
    · exact h
    · split
      · exact stalled_abort_lt _
      · split <;> exact h
  | elected l =>
    simp only [onToken, onElected]
    split
    · exact h
    · split
      · exact stalled_abort_lt _
      · split <;> exact stalled_abort_lt _

theorem stalled_perform_lt (h : e.stalled < stallLimit) (d : Session.Duty) :
    (Session.perform e d).1.stalled < stallLimit := by
  cases d with
  | add m => exact h
  | remove m => exact stalled_remove_lt h m
  | token t => exact stalled_onToken_lt h t
  | startElection => exact stalled_initiate_lt h
  | stop => exact h

/-! ### Attempts -/

theorem dvd_mod_add_one_iff {r k : Nat} :
    stallLimit ∣ (r + 1) % stallLimit + k + 1 ↔ stallLimit ∣ r + (k + 1) + 1 := by
  simp only [stallLimit]
  omega

/-- Who has sent itself waits from there on. -/
theorem initiate_of_sent (h : e.initiate.2 = .forward t) :
    e.ring.coordinator = none ∧ e.ring.hasSuccessor = true ∧ t = .candidate e.ring.owner ∧
      e.initiate.1 = { e with inProgress := true, stalled := 0 } := by
  unfold initiate at h ⊢
  split at h
  · cases h
  · rename_i hunknown
    split at h
    · cases h
    · rename_i hsucc
      split at h
      · cases h
      · rename_i hheld
        cases h
        rw [if_neg hunknown, if_neg hsucc, if_neg hheld]
        have hhas : e.ring.hasSuccessor = true := by simpa using hsucc
        exact ⟨Option.not_isSome_iff_eq_none.mp hunknown, hhas, rfl, rfl⟩

/-- Who waits counts, and sends itself when the count is full. -/
theorem initiate_of_waiting (hunknown : e.ring.coordinator = none)
    (hsucc : e.ring.hasSuccessor = true) (hwaits : e.inProgress = true)
    (hstalled : e.stalled < stallLimit) :
    e.initiate = ({ e with stalled := (e.stalled + 1) % stallLimit },
      if stallLimit ∣ e.stalled + 1 then .forward (.candidate e.ring.owner) else .ignore) := by
  obtain ⟨ring, inProgress, stalled⟩ := e
  dsimp only at hunknown hsucc hwaits hstalled ⊢
  subst hwaits
  simp only [initiate, hunknown, hsucc, Option.isSome_none, Bool.not_true, Bool.false_eq_true,
    ↓reduceIte, true_and]
  obtain hlt | heq := Nat.lt_or_eq_of_le (Nat.succ_le_iff.mpr hstalled)
  · have hmod : (stalled + 1) % stallLimit = stalled + 1 := Nat.mod_eq_of_lt hlt
    have hnot : ¬ stallLimit ∣ stalled + 1 := Nat.not_dvd_of_pos_of_lt stalled.succ_pos hlt
    rw [if_pos hlt, if_neg hnot, hmod]
  · have hmod : (stalled + 1) % stallLimit = 0 := by rw [← Nat.succ_eq_add_one, heq, Nat.mod_self]
    rw [if_neg (by omega), if_pos (Nat.dvd_of_mod_eq_zero hmod), hmod]

/-- What so many attempts in a row return, first first. -/
def attempts (e : Elector) : Nat → List Action
  | 0 => []
  | n + 1 => e.initiate.2 :: e.initiate.1.attempts n

theorem attempts_of_waiting (n : Nat) (hunknown : e.ring.coordinator = none)
    (hsucc : e.ring.hasSuccessor = true) (hwaits : e.inProgress = true)
    (hstalled : e.stalled < stallLimit) :
    e.attempts n = (List.range n).map fun k =>
      if stallLimit ∣ e.stalled + k + 1 then .forward (.candidate e.ring.owner) else .ignore := by
  induction n generalizing e with
  | zero => rfl
  | succ n ih =>
    have hrest := ih (e := { e with stalled := (e.stalled + 1) % stallLimit }) hunknown hsucc
      hwaits (Nat.mod_lt _ stallLimit_pos)
    rw [attempts, initiate_of_waiting hunknown hsucc hwaits hstalled]
    dsimp only at hrest ⊢
    rw [hrest, List.range_succ_eq_map, List.map_cons, List.map_map]
    refine congrArg (List.cons _) (List.map_congr_left fun k _ => ?_)
    simp only [Function.comp_apply, Nat.succ_eq_add_one, dvd_mod_add_one_iff]

end Elector

namespace Election.Circuit

variable {c : Circuit} {S : MemberSet} {top m : Member} {i j r : Nat} {s : Seat} {t : Token}
  {mv : Move} {moves : List Move} {f : Elector → Elector × Action}

/-! ### All counts of a circuit -/

/-- Nobody has held back more attempts than it may. -/
def Held (c : Circuit) : Prop := ∀ s ∈ c.seats, s.elector.stalled < stallLimit

namespace Held

theorem of_seats (h : c.Held) {c' : Circuit} (hs : c'.seats = c.seats) : c'.Held := by
  rw [Held, hs]
  exact h

theorem setElector (h : c.Held) {e : Elector} (he : e.stalled < stallLimit) (i : Nat) :
    (c.setElector i e).Held := by
  intro s hs
  obtain ⟨j, hj⟩ := List.mem_iff_getElem?.mp hs
  rw [setElector_getElem?] at hj
  split at hj
  · obtain ⟨_, -, rfl⟩ := Option.map_eq_some_iff.mp hj
    exact he
  · exact h s (List.mem_of_getElem? hj)

theorem perform (h : c.Held) {e : Elector} (he : e.stalled < stallLimit) (i : Nat) (a : Action) :
    (c.perform i e a).Held := by
  have hnoted : (c.noted i e a).Held := (h.setElector he i).of_seats (noted_seats c i e a)
  cases ht : a.token? with
  | none =>
    rw [perform_of_quiet ht]
    exact hnoted
  | some token =>
    cases hnext : e.ring.successor?.bind (c.noted i e a).liveSeat? with
    | some j =>
      rw [perform_of_sent ht hnext]
      exact hnoted
    | none =>
      rw [perform_of_undeliverable ht hnext]
      exact hnoted.setElector e.stalled_abort_lt i

theorem act (h : c.Held) (i : Nat)
    (hf : ∀ e : Elector, e.stalled < stallLimit → (f e).1.stalled < stallLimit) :
    (c.act i f).Held := by
  unfold Circuit.act
  split
  · exact h
  · rename_i s hs
    exact h.perform (hf _ (h s (List.mem_of_getElem? hs))) i _

theorem actLive (h : c.Held) (i : Nat)
    (hf : ∀ e : Elector, e.stalled < stallLimit → (f e).1.stalled < stallLimit) :
    (c.actLive i f).Held := by
  unfold Circuit.actLive
  split
  · exact h.act i hf
  · exact h

theorem crash (h : c.Held) (i : Nat) : (c.crash i).Held := by
  intro s hs
  have hmem : s.elector ∈ c.seats.map (·.elector) :=
    electors_crash c i ▸ List.mem_map_of_mem hs
  obtain ⟨x, hx, hxs⟩ := List.mem_map.mp hmem
  rw [← hxs]
  exact h x hx

theorem fulfil (h : c.Held) (i : Nat) (d : Session.Duty) : (fulfil i c d).Held := by
  unfold Circuit.fulfil
  split
  · exact h.crash i
  · exact h.actLive i fun _ he => Elector.stalled_perform_lt he d

theorem foldl_fulfil (h : c.Held) (i : Nat) (ds : List Session.Duty) :
    (ds.foldl (Circuit.fulfil i) c).Held := by
  induction ds generalizing c with
  | nil => exact h
  | cons d ds ih => exact ih (h.fulfil i d)

theorem deliverOne (h : c.Held) : c.deliverOne.Held := by
  unfold Circuit.deliverOne
  split
  · exact h
  · rename_i seat token queue _
    have hrest : ({ c with queue } : Circuit).Held := h
    dsimp only
    split
    · exact hrest
    · split
      · exact hrest.act seat fun _ he => Elector.stalled_onToken_lt he token
      · exact hrest

theorem move (h : c.Held) (mv : Move) : (c.move mv).Held := by
  cases mv with
  | initiate i => exact h.actLive i fun _ => Elector.stalled_initiate_lt
  | restart i => exact h.actLive i fun _ => Elector.stalled_onRemoved_lt
  | abort i => exact h.actLive i fun e _ => e.stalled_abort_lt
  | hear i event =>
    simp only [Circuit.move, Circuit.hear]
    split
    · exact h
    · exact h.foldl_fulfil i _
  | suspect i m =>
    simp only [Circuit.move, Circuit.suspect, Circuit.remove]
    split
    · split
      · exact h
      · split
        · exact h.act i fun _ he => Elector.stalled_remove_lt he m
        · exact h
    · exact h
  | deliver place =>
    simp only [Circuit.move, Circuit.deliverAt]
    split
    · have hadvanced : (c.advance place).Held := h
      exact hadvanced.deliverOne
    · exact h
  | lose place =>
    simp only [Circuit.move, Circuit.loseAt]
    split <;> exact h
  | duplicate place => exact h
  | crash i => exact h.crash i

theorem run (h : c.Held) (moves : List Move) : (c.run moves).Held := by
  induction moves generalizing c with
  | nil => exact h
  | cons mv moves ih => exact ih (h.move mv)

end Held

/-! ### One member's attempts -/

/-- The move does nothing to the member at `seat`, unless it is a call. -/
def Spares (c : Circuit) (seat : Nat) : Move → Prop
  | .initiate _ | .lose _ | .duplicate _ => True
  | .restart i | .abort i | .hear i _ | .suspect i _ | .crash i => i ≠ seat
  | .deliver place => ∀ p, c.queue[place]? = some p → p.1 ≠ seat

/-- Nothing happens to the member at `seat` but calls to start an election. -/
def Undisturbed (c : Circuit) (seat : Nat) : List Move → Prop
  | [] => True
  | mv :: moves => c.Spares seat mv ∧ (c.move mv).Undisturbed seat moves

/-- What the calls to the member at `seat` return, first first. -/
def answersAt (c : Circuit) (seat : Nat) : List Move → List Action
  | [] => []
  | mv :: moves =>
    (if mv = .initiate seat then (c.answer? mv).toList else []) ++ (c.move mv).answersAt seat moves

/-- The member at `seat` waits for an outcome, and has held back `r` attempts since its last. -/
def WaitsAt (c : Circuit) (seat : Nat) (m : Member) (r : Nat) : Prop :=
  ∃ s, c.seats[seat]? = some s ∧ s.live = true ∧ s.name = m ∧ s.known = none ∧
    s.elector.inProgress = true ∧ s.elector.stalled = r

theorem getElem?_perform_of_ne (h : j ≠ i) (e : Elector) (a : Action) :
    (c.perform j e a).seats[i]? = c.seats[i]? := by
  have hnoted : (c.noted j e a).seats[i]? = c.seats[i]? := by
    rw [noted_seats, setElector_getElem?, if_neg h]
  cases ht : a.token? with
  | none => rw [perform_of_quiet ht, hnoted]
  | some token =>
    cases hnext : e.ring.successor?.bind (c.noted j e a).liveSeat? with
    | some n =>
      rw [perform_of_sent ht hnext]
      exact hnoted
    | none =>
      rw [perform_of_undeliverable ht hnext, ← hnoted]
      exact (setElector_getElem? _ _ _ _).trans (if_neg h)

theorem getElem?_act_of_ne (h : j ≠ i) : (c.act j f).seats[i]? = c.seats[i]? := by
  unfold act
  split
  · rfl
  · exact getElem?_perform_of_ne h _ _

theorem getElem?_actLive_of_ne (h : j ≠ i) : (c.actLive j f).seats[i]? = c.seats[i]? := by
  unfold actLive
  split
  · exact getElem?_act_of_ne h
  · rfl

/-- A move that spares a member and is no call to it leaves it as it is. -/
theorem getElem?_move_of_spares (hmv : mv.keepsRings = true) (h : c.Spares i mv)
    (hne : mv ≠ .initiate i) : (c.move mv).seats[i]? = c.seats[i]? := by
  cases mv with
  | initiate j => exact getElem?_actLive_of_ne fun hji => hne (hji ▸ rfl)
  | restart j => exact getElem?_actLive_of_ne h
  | abort j => exact getElem?_actLive_of_ne h
  | deliver place =>
    simp only [move, deliverAt]
    split
    · rename_i hp
      obtain ⟨⟨j, t⟩, hq⟩ : ∃ p, c.queue[place]? = some p := ⟨_, List.getElem?_eq_getElem hp⟩
      simp only [deliverOne, advance, hq, Option.toList_some, List.singleton_append]
      split
      · rfl
      · split
        · exact getElem?_act_of_ne (h _ hq)
        · rfl
    · rfl
  | lose place =>
    simp only [move, loseAt]
    split <;> rfl
  | duplicate place => rfl
  | _ => cases hmv

theorem getElem?_of_mem (hn : c.names.Nodup) (hs : s ∈ c.seats) (hi : c.names[i]? = some s.name) :
    c.seats[i]? = some s := by
  obtain ⟨j, hj⟩ := List.mem_iff_getElem?.mp hs
  rwa [index_unique hn hi (name_of_getElem? hj)]

/-- A live member is called. It ends up as the call left it, because its token can be taken. -/
theorem called (h : Truthful S none top c) (hst : Steady S c) (hsize : 1 < S.size)
    (hs : c.seats[i]? = some s) (hl : s.live = true) :
    c.answer? (.initiate i) = some s.elector.initiate.2 ∧
      (c.move (.initiate i)).seats[i]? = some { s with elector := s.elector.initiate.1 } := by
  rcases initiate_cases h.orderly i with ⟨hanswer, -⟩ | ⟨x, e', out, hx, hanswer, hstep⟩
  · simp [answer?, hs, hl] at hanswer
  · obtain rfl : s = x := Option.some.inj (hs.symm.trans hx)
    have hsame : e' = s.elector.initiate.1 := by
      cases ht : s.elector.initiate.2.token? with
      | none =>
        cases hstep.dispatch with
        | quiet => rfl
        | sent htoken => cases ht.symm.trans htoken
        | undeliverable htoken => cases ht.symm.trans htoken
      | some t =>
        obtain ⟨n, -, hout⟩ := hst.sent (h.own s hstep.mem) hstep ht hsize
        cases hstep.dispatch with
        | quiet hnone => cases hnone.symm.trans ht
        | sent => rfl
        | undeliverable => exact absurd hout.symm (Multiset.singleton_ne_zero _)
    refine ⟨hanswer, getElem?_of_mem (h.orderly.move _).nodup ?_ ?_⟩
    · rw [← hsame]
      exact (hstep.acted.seats _).mpr (.inl rfl)
    · rw [← hsame, hstep.acted.names, hstep.name_eq rfl]
      exact name_of_getElem? hs

namespace WaitsAt

/-- The count goes on, and starts again with each candidate that is sent. -/
theorem call (hw : c.WaitsAt i m r) (hr : r < stallLimit) (h : Truthful S none top c)
    (hst : Steady S c) (hsize : 1 < S.size) :
    c.answer? (.initiate i) =
        some (if stallLimit ∣ r + 1 then .forward (.candidate m) else .ignore) ∧
      (c.move (.initiate i)).WaitsAt i m ((r + 1) % stallLimit) := by
  obtain ⟨s, hs, hl, rfl, hunknown, hwaits, rfl⟩ := hw
  have hmem := List.mem_of_getElem? hs
  have hsucc : s.elector.ring.hasSuccessor = true := by
    rw [Ring.hasSuccessor, Ring.size, hst.ring s hmem hl]
    exact decide_eq_true hsize
  have hinitiate := Elector.initiate_of_waiting hunknown hsucc hwaits hr
  obtain ⟨hanswer, hseat⟩ := called h hst hsize hs hl
  rw [hinitiate] at hanswer hseat
  exact ⟨hanswer, _, hseat, hl, rfl, hunknown, hwaits, rfl⟩

theorem spared (hw : c.WaitsAt i m r) (hmv : mv.keepsRings = true) (hspare : c.Spares i mv)
    (hne : mv ≠ .initiate i) : (c.move mv).WaitsAt i m r := by
  obtain ⟨s, hs, hrest⟩ := hw
  exact ⟨s, (getElem?_move_of_spares hmv hspare hne).trans hs, hrest⟩

/-- Whatever the others do, the attempts of a member that waits are counted as they come. -/
theorem answersAt_eq (hw : c.WaitsAt i m r) (hr : r < stallLimit) (h : Truthful S none top c)
    (hst : Steady S c) (hsize : 1 < S.size) (hm : ∀ mv ∈ moves, mv.keepsRings = true)
    (hquiet : c.Undisturbed i moves) :
    c.answersAt i moves = (List.range (moves.count (.initiate i))).map fun k =>
      if stallLimit ∣ r + k + 1 then .forward (.candidate m) else .ignore := by
  induction moves generalizing c r with
  | nil => rfl
  | cons mv moves ih =>
    obtain ⟨hspare, hquiet⟩ := hquiet
    have hmv := hm mv List.mem_cons_self
    have hrest : ∀ mv ∈ moves, mv.keepsRings = true := fun mv' hmv' =>
      hm mv' (List.mem_cons_of_mem _ hmv')
    have h' := h.keepsRings hmv
    have hst' := hst.keepsRings h hmv
    rw [answersAt]
    by_cases hcall : mv = .initiate i
    · subst hcall
      obtain ⟨hanswer, hw'⟩ := hw.call hr h hst hsize
      rw [if_pos rfl, hanswer, ih hw' (Nat.mod_lt _ Elector.stallLimit_pos) h' hst' hrest hquiet,
        List.count_cons_self, List.range_succ_eq_map, List.map_cons, List.map_map]
      refine congrArg (List.cons _) (List.map_congr_left fun k _ => ?_)
      simp only [Function.comp_apply, Nat.succ_eq_add_one, Elector.dvd_mod_add_one_iff]
    · rw [if_neg hcall, List.nil_append, List.count_cons_of_ne hcall]
      exact ih (hw.spared hmv hspare hcall) hr h' hst' hrest hquiet

end WaitsAt

/-- A member that has been called and has sent itself waits from there on. -/
theorem waitsAt_of_sent (h : Truthful S none top c) (hst : Steady S c) (hsize : 1 < S.size)
    (hsent : c.answer? (.initiate i) = some (.forward t)) :
    ∃ m, t = .candidate m ∧ (c.move (.initiate i)).WaitsAt i m 0 := by
  obtain ⟨s, hs, haction⟩ := Option.map_eq_some_iff.mp hsent
  obtain ⟨hs, hl⟩ := Option.filter_eq_some_iff.mp hs
  obtain ⟨hunknown, -, rfl, hinitiate⟩ := Elector.initiate_of_sent haction
  obtain ⟨-, hseat⟩ := called h hst hsize hs hl
  rw [hinitiate] at hseat
  exact ⟨s.name, rfl, _, hseat, hl, rfl, hunknown, rfl, rfl⟩

/-- **A stalled election starts over.** Several members know each other and no coordinator, and wait
for outcomes that are lost, each for as long as it may. Then `stallLimit` rounds in which everyone
tries again are enough for everyone to know the highest member and wait for nothing; and rounds can
always be completed. No count ever reaches the limit, whatever happens. From a candidate that a
member sent when it was called, just every `stallLimit`-th further call sends it again, as long as
nothing else happens to the member: whatever its ring is, and also among the moves of the others. -/
theorem stalled_election_restarts (hsize : 2 ≤ S.size) (hc : Fresh S c)
    (hheld : ∀ s ∈ c.seats, s.elector.stalled < stallLimit) :
    (∀ rounds, c.Rounds rounds → stallLimit ≤ rounds.length →
      ∃ top, S.max? = some top ∧ ∀ s ∈ (c.run rounds.flatten).seats,
        s.known = some top ∧ s.elector.inProgress = false) ∧
    (∀ n, ∃ rounds, c.Rounds rounds ∧ rounds.length = n) ∧
    (∀ moves, ∀ s ∈ (c.run moves).seats, s.elector.stalled < stallLimit) ∧
    (∀ (e : Elector) t n, e.initiate.2 = .forward t →
      e.initiate.1.attempts n = (List.range n).map fun k =>
        if stallLimit ∣ k + 1 then .forward t else .ignore) ∧
    ∀ before after i t, (∀ mv ∈ before ++ after, mv.keepsRings = true) →
      (c.run before).answer? (.initiate i) = some (.forward t) →
      ((c.run before).move (.initiate i)).Undisturbed i after →
      ((c.run before).move (.initiate i)).answersAt i after =
        (List.range (after.count (.initiate i))).map fun k =>
          if stallLimit ∣ k + 1 then .forward t else .ignore := by
  have hne : S ≠ ∅ := by
    rintro rfl
    rw [Std.ExtTreeSet.size_empty] at hsize
    omega
  obtain ⟨top, htop⟩ :=
    Option.isSome_iff_exists.mp (Std.ExtTreeSet.isSome_max?_iff_ne_empty.mpr hne)
  have h : Truthful S none top c := hc.truthful htop (by simp) (by simp)
  refine ⟨fun rounds hrounds hlength => ?_, exists_rounds h hc.steady,
    fun moves => Held.run hheld moves, fun e t n hsent => ?_,
    fun before after i t hm hsent hquiet => ?_⟩
  · obtain ⟨top, htop, -, hknown⟩ := lost_election_recovers hne hc [] (by simp) hc.queue hc.unknown
      rounds hrounds hlength
    have hcalm : (c.run rounds.flatten).Calm := by
      refine run_plain none h.orderly hrounds.plain (fun _ _ _ he hcalm => hcalm.effect he) ?_
      exact fun s hs hknown => absurd (hc.unknown s hs) hknown
    refine ⟨top, htop, fun s hs => ⟨hknown s hs, hcalm s hs ?_⟩⟩
    rw [hknown s hs]
    exact Option.some_ne_none _
  · obtain ⟨hunknown, hsucc, rfl, hinitiate⟩ := Elector.initiate_of_sent hsent
    have hattempts := Elector.attempts_of_waiting (e := { e with inProgress := true, stalled := 0 })
      n hunknown hsucc rfl Elector.stallLimit_pos
    simpa only [hinitiate, zero_add] using hattempts
  · have hbefore : ∀ mv ∈ before, mv.keepsRings = true := fun mv hmv =>
      hm mv (List.mem_append_left _ hmv)
    have h₁ := h.run_keepsRings hbefore
    have hst₁ := hc.steady.run_keepsRings h hbefore
    obtain ⟨m, rfl, hw⟩ := waitsAt_of_sent h₁ hst₁ hsize hsent
    have hanswers := hw.answersAt_eq Elector.stallLimit_pos (h₁.keepsRings rfl)
      (hst₁.keepsRings h₁ rfl) hsize (fun mv hmv => hm mv (List.mem_append_right _ hmv)) hquiet
    simpa only [zero_add] using hanswers

/-- Two of three members wait in vain, one for longer than the other. The third sends itself, and is
called nine times more. -/
theorem stalled_election_restarts_among_three :
    let members : List Member := [⟨"a", 1, 1⟩, ⟨"b", 1, 1⟩, ⟨"c", 1, 1⟩]
    let c : Circuit := { ofMembers members with
      seats := (ofMembers members).seats.mapIdx fun i s =>
        { s with elector := { s.elector with inProgress := i ≠ 0, stalled := 2 * i } } }
    let sent : Action := .forward (.candidate ⟨"a", 1, 1⟩)
    (∃ rounds, c.Rounds rounds ∧ rounds.length = stallLimit ∧
      ∃ top, (Std.ExtTreeSet.ofList members).max? = some top ∧
        ∀ s ∈ (c.run rounds.flatten).seats, s.known = some top ∧ s.elector.inProgress = false) ∧
      (∀ s ∈ (c.run [.initiate 2, .lose 0, .initiate 2]).seats, s.elector.stalled < stallLimit) ∧
      c.answer? (.initiate 0) = some sent ∧
      (c.move (.initiate 0)).answersAt 0 (.initiate 1 :: List.replicate 9 (.initiate 0)) =
        [.ignore, .ignore, .ignore, .ignore, sent, .ignore, .ignore, .ignore, .ignore] := by
  intro members c sent
  have hc : Fresh (Std.ExtTreeSet.ofList members) c :=
    ⟨by decide +kernel, by decide +kernel, by decide +kernel, by decide +kernel, rfl, rfl⟩
  have hsent : c.answer? (.initiate 0) = some sent := by decide +kernel
  have hquiet : (c.move (.initiate 0)).Undisturbed 0
      (.initiate 1 :: List.replicate 9 (.initiate 0)) := by
    simp [Undisturbed, Spares, List.replicate]
  obtain ⟨hends, hrounds, hcounts, -, hanswers⟩ :=
    stalled_election_restarts (by decide +kernel) hc (by decide +kernel)
  obtain ⟨rounds, hround, hlength⟩ := hrounds stallLimit
  exact ⟨⟨rounds, hround, hlength, hends rounds hround hlength.ge⟩, hcounts _, hsent,
    hanswers [] _ 0 _ (by decide) hsent hquiet⟩

end Election.Circuit

end ReplicaRing
