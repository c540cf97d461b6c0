import ReplicaRing.Proofs.Election.Convergence

/-!
# What the stall limit is for

Tokens get lost, and an election with them. The members that know no coordinator try again, round
by round, and each may be held back, because it takes its last attempt to be on its way. But it is
held back fewer than `stallLimit` times in a row, so within as many rounds somebody starts over.
-/
namespace ReplicaRing

namespace Elector

open Election

/-- A start that is held back is counted. -/
theorem initiate_of_ignored {e : Elector} (h : e.ring.coordinator = none)
    (hi : e.initiate.2 = .ignore) :
    e.stalled + 1 < stallLimit ∧ e.initiate.1 = { e with stalled := e.stalled + 1 } := by
  simp only [initiate, h, Option.isSome_none, Bool.false_eq_true, ↓reduceIte] at hi ⊢
  split at hi
  · cases hi
  · rename_i hsucc
    split at hi
    · rename_i hheld
      rw [if_neg hsucc, if_pos hheld]
      exact ⟨hheld.2, rfl⟩
    · cases hi

end Elector

namespace Election.Circuit

variable {c c' c₁ : Circuit} {S : MemberSet} {old : Option Member} {x top m : Member} {i k r : Nat}
  {s : Seat} {e₀ e e' : Elector} {heard : Option Token} {a : Action} {t : Token}
  {out : Multiset (Member × Token)} {mv : Move} {moves : List Move} {rounds : List (List Move)}

/-- Every live member that knows no coordinator starts an election, in some order with the
deliveries, until no token is left. -/
def Round (c : Circuit) (moves : List Move) : Prop :=
  (∀ mv ∈ moves, mv.plain = true) ∧
    (∀ i s, c.seats[i]? = some s → s.live = true → s.known = none → .initiate i ∈ moves) ∧
    (c.run moves).queue = []

/-- One round after the other. -/
def Rounds (c : Circuit) : List (List Move) → Prop
  | [] => True
  | moves :: rounds => c.Round moves ∧ (c.run moves).Rounds rounds

/-- The member has been held back `r` times in a row, and could not be more often than it may. -/
def Waited (m : Member) (r : Nat) (c : Circuit) : Prop :=
  r < stallLimit ∧ ∃ s ∈ c.seats, s.name = m ∧ s.live = true ∧ r ≤ s.elector.stalled

/-! ### Rounds -/

theorem Rounds.plain (h : c.Rounds rounds) : ∀ mv ∈ rounds.flatten, mv.plain = true := by
  induction rounds generalizing c with
  | nil => simp
  | cons moves rounds ih =>
    intro mv hmv
    rcases List.mem_append.mp hmv with hmv | hmv
    · exact h.1.1 mv hmv
    · exact ih h.2 mv hmv

theorem Rounds.queue (h : c.Rounds rounds) (hqueue : c.queue = []) :
    (c.run rounds.flatten).queue = [] := by
  induction rounds generalizing c with
  | nil => exact hqueue
  | cons moves rounds ih =>
    rw [List.flatten_cons, run_append]
    exact ih h.2 h.1.2.2

/-- All tokens can be delivered. -/
theorem exists_drain (h : Truthful S old top c) (hst : Steady S c) :
    ∃ moves : List Move, (∀ mv ∈ moves, mv.plain = true) ∧ (c.run moves).queue = [] := by
  induction hn : remaining S top c using Nat.strongRecOn generalizing c with
  | ind n ih =>
    by_cases hqueue : c.queue = []
    · exact ⟨[], by simp, hqueue⟩
    · have hlt := remaining_deliverAt_lt h hst (List.length_pos_of_ne_nil hqueue)
      obtain ⟨h', hst'⟩ := hst.plain h (rfl : (Move.deliver 0).plain = true)
      obtain ⟨moves, hm, hempty⟩ := ih _ (hn ▸ hlt) h' hst' rfl
      refine ⟨.deliver 0 :: moves, ?_, hempty⟩
      rintro mv (_ | ⟨_, hmv⟩)
      · rfl
      · exact hm mv hmv

theorem exists_rounds (h : Truthful S old top c) (hst : Steady S c) (n : Nat) :
    ∃ rounds, c.Rounds rounds ∧ rounds.length = n := by
  induction n generalizing c with
  | zero => exact ⟨[], trivial, rfl⟩
  | succ n ih =>
    have hstarts : ∀ mv ∈ (List.range c.seats.length).map Move.initiate, mv.plain = true := by
      intro mv hmv
      obtain ⟨i, _, rfl⟩ := List.mem_map.mp hmv
      rfl
    obtain ⟨h₁, hst₁⟩ := hst.run_plain h hstarts
    obtain ⟨drain, hdrain, hempty⟩ := exists_drain h₁ hst₁
    have hplain : ∀ mv ∈ (List.range c.seats.length).map Move.initiate ++ drain,
        mv.plain = true := by
      intro mv hmv
      exact (List.mem_append.mp hmv).elim (hstarts mv) (hdrain mv)
    obtain ⟨h₂, hst₂⟩ := hst.run_plain h hplain
    obtain ⟨rounds, hrounds, hlength⟩ := ih h₂ hst₂
    refine ⟨_ :: rounds, ⟨⟨hplain, fun i s hs _ _ => ?_, ?_⟩, hrounds⟩, ?_⟩
    · have hi := (List.getElem?_eq_some_iff.mp hs).1
      exact List.mem_append_left _ (List.mem_map_of_mem (List.mem_range.mpr hi))
    · rw [run_append]
      exact hempty
    · rw [List.length_cons, hlength]

/-! ### When nobody knows the outcome -/

/-- A start that sends nothing changes its member and nothing else. -/
theorem Stepped.of_ignored (h : c.Stepped c' s e₀ heard e a e' out) (ha : a = .ignore) :
    e' = e := by
  subst ha
  cases h.dispatch with
  | quiet => rfl
  | sent ht => cases ht
  | undeliverable ht => cases ht

/-- As long as nothing comes of it, every attempt counts. -/
theorem Waited.plain (hw : Waited m r c) (hq : Quiet S c) (hb : c.bound = 0)
    (h : Truthful S old top c) (hst : Steady S c) (hi : c.names[i]? = some m)
    (hmv : mv.plain = true) :
    (Quiet S (c.move mv) ∧ (c.move mv).bound = 0 ∧
        Waited m (r + if mv = .initiate i then 1 else 0) (c.move mv)) ∨
      Alive S top (c.move mv) := by
  refine (hq.plain hb h hst hmv).imp (fun hsilent => ?_) id
  obtain ⟨hq', hb', hignored⟩ := hsilent
  refine ⟨hq', hb', ?_⟩
  obtain ⟨hr, s, hs, hname, hl, hstalled⟩ := hw
  cases mv with
  | initiate j =>
    rcases initiate_cases h.orderly j with ⟨hanswer, hsame⟩ | ⟨z, e', out, hz, hanswer, hstep⟩
    · have hji : j ≠ i := by
        rintro rfl
        obtain ⟨y, hy⟩ := List.mem_iff_getElem?.mp hs
        have hyj := index_unique h.orderly.nodup (name_of_getElem? hy) (hname.symm ▸ hi)
        simp [answer?, hyj ▸ hy, hl] at hanswer
      rw [hsame, if_neg (by simpa using hji)]
      exact ⟨hr, s, hs, hname, hl, hstalled⟩
    · have hignore := hignored _ hanswer
      have hunknown : z.elector.ring.coordinator = none := hq.unknown z hstep.mem hstep.live
      obtain ⟨hheld, hcounted⟩ := Elector.initiate_of_ignored hunknown hignore
      have hsilent := hstep.of_ignored hignore
      by_cases hji : j = i
      · subst hji
        have hzname : z.name = m := Option.some.inj ((name_of_getElem? hz).symm.trans hi)
        rw [seat_unique h.orderly.nodup hstep.mem hs (hname.trans hzname.symm)] at hstalled
        rw [if_pos rfl]
        refine ⟨by omega, { z with elector := e' }, (hstep.acted.seats _).mpr (Or.inl rfl),
          (hstep.name_eq rfl).trans hzname, hstep.live, ?_⟩
        rw [hsilent, hcounted]
        exact Nat.add_le_add_right hstalled 1
      · rw [if_neg (by simpa using hji), add_zero]
        refine ⟨hr, s, (hstep.acted.seats _).mpr (Or.inr ⟨hs, ?_⟩), hname, hl, hstalled⟩
        intro hsz
        refine hji (index_unique h.orderly.nodup (name_of_getElem? hz) ?_)
        rw [← hsz, hname]
        exact hi
  | deliver place =>
    have hsame : c.move (.deliver place) = c :=
      if_neg (by rw [h.orderly.queue_eq_nil hb]; exact Nat.not_lt_zero place)
    rw [hsame]
    exact ⟨hr, s, hs, hname, hl, hstalled⟩
  | _ => cases hmv

theorem Waited.run_plain (hw : Waited m r c) (hq : Quiet S c) (hb : c.bound = 0)
    (h : Truthful S old top c) (hst : Steady S c) (hi : c.names[i]? = some m)
    (hm : ∀ mv ∈ moves, mv.plain = true) :
    (Quiet S (c.run moves) ∧ (c.run moves).bound = 0 ∧
        Waited m (r + moves.count (.initiate i)) (c.run moves)) ∨
      Alive S top (c.run moves) := by
  induction moves generalizing c r with
  | nil => exact Or.inl ⟨hq, hb, hw⟩
  | cons mv moves ih =>
    have hmv := hm mv List.mem_cons_self
    have hrest : ∀ mv ∈ moves, mv.plain = true := fun mv' hmv => hm mv' (List.mem_cons_of_mem _ hmv)
    obtain ⟨h', hst'⟩ := hst.plain h hmv
    rcases hw.plain hq hb h hst hi hmv with ⟨hq', hb', hw'⟩ | halive
    · have he : c.Effect none (c.move mv) := plain_effect h.orderly hmv
      have hcount : (r + if mv = .initiate i then 1 else 0) + moves.count (.initiate i) =
          r + (mv :: moves).count (.initiate i) := by
        rw [List.count_cons]
        simp only [beq_iff_eq]
        omega
      rw [← hcount]
      exact ih hw' hq' hb' h' hst' (he.names_eq.symm ▸ hi) hrest
    · exact Or.inr (halive.run_plain h' hst' hrest)

/-- A member can be held back in fewer than `stallLimit` rounds. -/
theorem Rounds.alive (hrounds : c.Rounds rounds) (hw : Waited m r c) (hq : Quiet S c)
    (hb : c.bound = 0) (h : Truthful S old top c) (hst : Steady S c) (hi : c.names[i]? = some m)
    (hlength : stallLimit ≤ r + rounds.length) : Alive S top (c.run rounds.flatten) := by
  induction rounds generalizing c r with
  | nil => exact absurd hw.1 (not_lt.mpr hlength)
  | cons moves rounds ih =>
    obtain ⟨hround, hrest⟩ := hrounds
    obtain ⟨h', hst'⟩ := hst.run_plain h hround.1
    rw [List.flatten_cons, run_append]
    rcases hw.run_plain hq hb h hst hi hround.1 with ⟨hq', hb', hr', s, hs, hname, hl, hle⟩ | halive
    · have hcalled : 1 ≤ moves.count (.initiate i) := by
        obtain ⟨_, y, hy, hyname, hyl, _⟩ := hw
        obtain ⟨j, hj⟩ := List.mem_iff_getElem?.mp hy
        have hji := index_unique h.orderly.nodup (name_of_getElem? hj) (hyname.symm ▸ hi)
        exact List.one_le_count_iff.mpr (hround.2.1 i y (hji ▸ hj) hyl (hq.unknown y hy hyl))
      have hw' : Waited m (r + 1) (c.run moves) := ⟨by omega, s, hs, hname, hl, by omega⟩
      have hi' : (c.run moves).names[i]? = some m := by
        refine run_plain (P := fun c => c.names[i]? = some m) none h.orderly hround.1 ?_ hi
        exact fun _ _ _ he hp => he.names_eq.symm ▸ hp
      rw [List.length_cons] at hlength
      exact ih hrest hw' hq' hb' h' hst' hi' (by omega)
    · exact halive.run_plain h' hst' hrest.plain

/-! ### After any loss -/

theorem Steady.keepsRings (hst : Steady S c) (h : Truthful S none top c)
    (hmv : mv.keepsRings = true) : Steady S (c.move mv) := by
  cases mv with
  | initiate i => exact hst.effect h (plain_effect h.orderly rfl)
  | deliver place => exact hst.effect h (plain_effect h.orderly rfl)
  | restart i => exact hst.effect h (actLive_effect h.orderly Elector.onRemoved_conduct)
  | abort i => exact hst.effect h (actLive_effect h.orderly Elector.abort_conduct)
  | lose place =>
    rw [move, loseAt]
    split
    · have hsub : ∀ q ∈ (c.advance place).drop.queue, q ∈ c.queue := fun q hq =>
        mem_advance (List.mem_of_mem_tail hq)
      have hnames : (c.advance place).drop.names = c.names := rfl
      exact hst.congr rfl fun p => bound_subset hnames hsub
    · exact hst
  | duplicate place =>
    have hsub : ∀ q ∈ (c.move (.duplicate place)).queue, q ∈ c.queue := by
      intro q hq
      rcases List.mem_append.mp hq with hq | hq
      · exact hq
      · exact List.mem_of_getElem? (Option.mem_toList.mp hq)
    have hnames : (c.move (.duplicate place)).names = c.names := rfl
    exact hst.congr rfl fun p => bound_subset hnames hsub
  | _ => cases hmv

theorem Steady.run_keepsRings (hst : Steady S c) (h : Truthful S none top c)
    (hm : ∀ mv ∈ moves, mv.keepsRings = true) : Steady S (c.run moves) := by
  induction moves generalizing c with
  | nil => exact hst
  | cons mv moves ih =>
    have hmv := hm mv List.mem_cons_self
    exact ih (hst.keepsRings h hmv) (h.keepsRings hmv)
      fun mv' hmv' => hm mv' (List.mem_cons_of_mem _ hmv')

/-- **Within `stallLimit` rounds a lost election starts over and ends.** Whatever was lost,
repeated, aborted or started over before: if no token is left and nobody knows a coordinator, the
rounds make the highest member win, once, and everybody know it. -/
theorem lost_election_recovers (hne : S ≠ ∅) (hc : Fresh S c) (moves : List Move)
    (hm : ∀ mv ∈ moves, mv.keepsRings = true) (hqueue : (c.run moves).queue = [])
    (hunknown : ∀ s ∈ (c.run moves).seats, s.known = none) (rounds : List (List Move))
    (hrounds : (c.run moves).Rounds rounds) (hlength : stallLimit ≤ rounds.length) :
    ∃ top, S.max? = some top ∧ ((c.run moves).run rounds.flatten).winners = [top] ∧
      ∀ s ∈ ((c.run moves).run rounds.flatten).seats, s.known = some top := by
  obtain ⟨top, htop⟩ :=
    Option.isSome_iff_exists.mp (Std.ExtTreeSet.isSome_max?_iff_ne_empty.mpr hne)
  have h₀ : Truthful S none top c := hc.truthful htop (by simp) (by simp)
  have h := h₀.run_keepsRings hm
  have hst := hc.steady.run_keepsRings h₀ hm
  have hb := bound_eq_zero hqueue
  obtain ⟨h', hst'⟩ := hst.run_plain h hrounds.plain
  have hquiet : Quiet S (c.run moves) := ⟨fun s hs _ => hunknown s hs, by simp [hb]⟩
  have hlive := (hst.live top).mpr h.top_mem
  obtain ⟨i, hi⟩ := List.mem_iff_getElem?.mp hlive.mem_names
  obtain ⟨s, hs, hname, hl⟩ := hlive
  have hw : Waited top 0 (c.run moves) := ⟨by decide, s, hs, hname, hl, Nat.zero_le _⟩
  have halive := hrounds.alive hw hquiet hb h hst hi (by omega)
  have hknown : ∀ s ∈ ((c.run moves).run rounds.flatten).seats, s.known = some top := by
    intro s hs
    have hsl := hst'.live_of_mem h'.orderly.nodup hs ((h'.name s hs).resolve_right (by simp))
    exact halive.known_of_queue h' hst' (hrounds.queue hqueue) hs hsl
  refine ⟨top, htop, ?_, hknown⟩
  refine h'.winners_of_crowned (fun w hw => (h'.winners w hw).resolve_right (by simp)) ?_
  obtain ⟨s, hs, hname, _⟩ := (hst'.live top).mpr h'.top_mem
  exact ⟨s, hs, hname, hknown s hs⟩

end Election.Circuit

end ReplicaRing
