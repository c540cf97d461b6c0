import Mathlib.Algebra.BigOperators.Group.Multiset.Basic
import ReplicaRing.Proofs.Election.Conduct
import ReplicaRing.Proofs.Election.Moves

/-!
# What a move changes

Seats and queue places are bookkeeping. The proofs look at a circuit through its members' seats as
a set, through the tokens `bound` for somebody (in no order), and through the list of winners.
`Acted` says what one member's step does to these views, `act_acted` that every step does just
that, and the remaining moves only take tokens away or repeat them.
-/
namespace ReplicaRing.Election

namespace Circuit

variable {c c' : Circuit} {i j place : Nat} {s x : Seat} {e e' : Elector} {a : Action}
  {t : Token} {m n : Member}

/-- The tokens in flight, each with the member that it goes to. -/
def bound (c : Circuit) : Multiset (Member × Token) :=
  ↑(c.queue.filterMap fun p => c.names[p.1]?.map (·, p.2))

/-- The member has a seat and has not crashed. -/
def IsLive (c : Circuit) (m : Member) : Prop := ∃ s ∈ c.seats, s.name = m ∧ s.live = true

theorem mem_names : m ∈ c.names ↔ ∃ s ∈ c.seats, s.name = m := List.mem_map

theorem IsLive.mem_names (h : c.IsLive m) : m ∈ c.names := by
  obtain ⟨s, hs, hname, _⟩ := h
  exact Circuit.mem_names.mpr ⟨s, hs, hname⟩

theorem names_getElem? (c : Circuit) (i : Nat) : c.names[i]? = c.seats[i]?.map (·.name) :=
  List.getElem?_map

theorem name_of_getElem? (hs : c.seats[i]? = some s) : c.names[i]? = some s.name := by
  rw [names_getElem?, hs]
  rfl

/-- Members sit at one seat each. -/
theorem index_unique (hn : c.names.Nodup) (hi : c.names[i]? = some m) (hj : c.names[j]? = some m) :
    i = j :=
  (List.getElem?_inj (List.getElem?_eq_some_iff.mp hi).1 hn).mp (hi.trans hj.symm)

theorem seat_unique (hn : c.names.Nodup) (hs : s ∈ c.seats) (hx : x ∈ c.seats)
    (h : x.name = s.name) : x = s := by
  obtain ⟨i, hi⟩ := List.mem_iff_getElem?.mp hs
  obtain ⟨j, hj⟩ := List.mem_iff_getElem?.mp hx
  have hij := index_unique hn (name_of_getElem? hi) (h ▸ name_of_getElem? hj)
  rw [← hij, hi] at hj
  exact (Option.some.inj hj).symm

/-! ### One seat changes -/

theorem setElector_getElem? (c : Circuit) (i j : Nat) (e : Elector) :
    (c.setElector i e).seats[j]? =
      if i = j then c.seats[j]?.map (fun s => { s with elector := e }) else c.seats[j]? := by
  simp only [setElector, List.getElem?_modify]
  split <;> simp

theorem names_setElector (hs : c.seats[i]? = some s) (ho : e.ring.owner = s.name) :
    (c.setElector i e).names = c.names := by
  apply List.ext_getElem?
  intro j
  rw [names_getElem?, names_getElem?, setElector_getElem?]
  by_cases hij : i = j
  · subst hij
    rw [if_pos rfl, hs]
    exact congrArg some ho
  · rw [if_neg hij]

theorem mem_setElector (hn : c.names.Nodup) (hs : c.seats[i]? = some s) :
    x ∈ (c.setElector i e).seats ↔ x = { s with elector := e } ∨ x ∈ c.seats ∧ x.name ≠ s.name := by
  constructor
  · intro hx
    obtain ⟨j, hj⟩ := List.mem_iff_getElem?.mp hx
    rw [setElector_getElem?] at hj
    split at hj
    · rename_i hij
      rw [← hij, hs] at hj
      exact Or.inl (Option.some.inj hj).symm
    · rename_i hij
      refine Or.inr ⟨List.mem_of_getElem? hj, fun h => hij ?_⟩
      exact index_unique hn (name_of_getElem? hs) (h ▸ name_of_getElem? hj)
  · rintro (rfl | ⟨hx, hne⟩)
    · apply List.mem_of_getElem? (i := i)
      rw [setElector_getElem?, if_pos rfl, hs]
      rfl
    · obtain ⟨j, hj⟩ := List.mem_iff_getElem?.mp hx
      apply List.mem_of_getElem? (i := j)
      rw [setElector_getElem?, if_neg, hj]
      rintro rfl
      rw [hs] at hj
      exact hne (Option.some.inj hj ▸ rfl)

theorem setElector_setElector (c : Circuit) (i : Nat) (e e' : Elector) :
    (c.setElector i e).setElector i e' = c.setElector i e' := by
  simp only [setElector, List.modify_modify_eq]
  rfl

/-! ### Where a token goes -/

theorem liveAt_setElector (c : Circuit) (i j : Nat) (e : Elector) :
    (c.setElector i e).liveAt j = c.liveAt j := by
  rw [liveAt, liveAt, setElector_getElem?]
  split
  · cases c.seats[j]? <;> rfl
  · rfl

theorem liveSeat?_eq (c : Circuit) (m : Member) :
    c.liveSeat? m = (c.names.findIdx? (· == m)).filter (c.liveAt ·) := by
  rw [names, List.findIdx?_map]
  rfl

theorem liveSeat?_setElector (hs : c.seats[i]? = some s) (ho : e.ring.owner = s.name)
    (m : Member) : (c.setElector i e).liveSeat? m = c.liveSeat? m := by
  simp only [liveSeat?_eq, names_setElector hs ho, liveAt_setElector]

theorem liveSeat?_eq_some (h : c.liveSeat? m = some j) : c.names[j]? = some m ∧ c.IsLive m := by
  rw [liveSeat?_eq] at h
  obtain ⟨hfind, hlive⟩ := Option.filter_eq_some_iff.mp h
  obtain ⟨hj, hname, _⟩ := List.findIdx?_eq_some_iff_getElem.mp hfind
  have hm : c.names[j]? = some m := by
    rw [List.getElem?_eq_getElem hj, eq_of_beq hname]
  refine ⟨hm, ?_⟩
  rw [names_getElem?] at hm
  obtain ⟨s, hs, rfl⟩ := Option.map_eq_some_iff.mp hm
  rw [liveAt, hs] at hlive
  exact ⟨s, List.mem_of_getElem? hs, rfl, hlive⟩

theorem exists_liveSeat? (hn : c.names.Nodup) (h : c.IsLive m) : ∃ j, c.liveSeat? m = some j := by
  obtain ⟨s, hs, rfl, hlive⟩ := h
  obtain ⟨i, hi⟩ := List.mem_iff_getElem?.mp hs
  cases hfind : c.names.findIdx? (· == s.name) with
  | none =>
    have hno := List.findIdx?_eq_none_iff.mp hfind s.name (mem_names.mpr ⟨s, hs, rfl⟩)
    simp at hno
  | some j =>
    obtain ⟨hj, hname, _⟩ := List.findIdx?_eq_some_iff_getElem.mp hfind
    have hij : i = j := index_unique hn (name_of_getElem? hi)
      (by rw [List.getElem?_eq_getElem hj, eq_of_beq hname])
    refine ⟨j, ?_⟩
    rw [liveSeat?_eq, hfind, Option.filter_eq_some_iff]
    refine ⟨rfl, ?_⟩
    rw [liveAt, ← hij, hi]
    exact hlive

/-- How an action is carried out: the member ends up as the last elector, and the tokens go out. -/
inductive Dispatch (c : Circuit) (e : Elector) (a : Action) :
    Elector → Multiset (Member × Token) → Prop
  | quiet (h : a.token? = none) : Dispatch c e a e 0
  | sent {t : Token} {n : Member} (h : a.token? = some t) (next : e.ring.successor? = some n)
      (live : c.IsLive n) : Dispatch c e a e {(n, t)}
  /-- Nobody takes the token. -/
  | undeliverable {t : Token} (h : a.token? = some t)
      (nobody : ∀ n, e.ring.successor? = some n → ¬ c.IsLive n) : Dispatch c e a e.abort 0

/-- What the step of the member at `s` changes: it becomes `e`, and `out` goes on its way. -/
structure Acted (c c' : Circuit) (s : Seat) (e : Elector) (a : Action)
    (out : Multiset (Member × Token)) : Prop where
  names : c'.names = c.names
  seats : ∀ x, x ∈ c'.seats ↔ x = { s with elector := e } ∨ x ∈ c.seats ∧ x.name ≠ s.name
  bound : c'.bound = c.bound + out
  winners : c'.winners = c.winners ++ if a.isWon then [s.name] else []
  addressed : ∀ p ∈ c'.queue, p ∈ c.queue ∨ p.1 < c.names.length

theorem winners_record_acted (h : c'.names = c.names) (hlog : c'.log = .acted i a :: c.log)
    (hi : c.names[i]? = some m) :
    c'.winners = c.winners ++ if a.isWon then [m] else [] := by
  rw [winners, winners, trace, trace, h, hlog, List.reverse_cons, List.filterMap_append]
  cases a <;> simp [winner?, Action.isWon, hi]

theorem winners_record (c : Circuit) {entry : Entry} (h : ∀ i a, entry ≠ .acted i a) :
    (c.record entry).winners = c.winners := by
  have hnone : winner? c.names entry = none := by
    unfold winner?
    split
    · exact absurd rfl (h _ _)
    · rfl
  change (entry :: c.log).reverse.filterMap (winner? c.names) = _
  rw [List.reverse_cons, List.filterMap_append, List.filterMap_cons_none hnone, List.filterMap_nil,
    List.append_nil]
  rfl

theorem bound_of_names_eq (h : c'.names = c.names) (hq : c'.queue = c.queue) :
    c'.bound = c.bound := by
  rw [bound, bound, h, hq]

theorem mem_bound {p : Member × Token} :
    p ∈ c.bound ↔ ∃ j, (j, p.2) ∈ c.queue ∧ c.names[j]? = some p.1 := by
  rw [bound, Multiset.mem_coe, List.mem_filterMap]
  constructor
  · rintro ⟨⟨j, t⟩, hq, hp⟩
    obtain ⟨m, hm, rfl⟩ := Option.map_eq_some_iff.mp hp
    exact ⟨j, hq, hm⟩
  · rintro ⟨j, hq, hm⟩
    exact ⟨(j, p.2), hq, by simp [hm]⟩

theorem bound_subset (h : c'.names = c.names) (hq : ∀ p ∈ c'.queue, p ∈ c.queue)
    {p : Member × Token} (hp : p ∈ c'.bound) : p ∈ c.bound := by
  obtain ⟨j, hj, hm⟩ := mem_bound.mp hp
  exact mem_bound.mpr ⟨j, hq _ hj, h ▸ hm⟩

theorem bound_append (h : c'.names = c.names) (hj : c.names[j]? = some n)
    (hq : c'.queue = c.queue ++ [(j, t)]) : c'.bound = c.bound + {(n, t)} := by
  rw [bound, bound, h, hq, List.filterMap_append, ← Multiset.coe_add]
  simp [hj]

/-! ### A step is carried out -/

/-- The member at `i` has become `e`, and its action is on record but not yet carried out. -/
def noted (c : Circuit) (i : Nat) (e : Elector) (a : Action) : Circuit :=
  let c := (c.setElector i e).record (.acted i a)
  if a.isWon then { c with wins := c.wins + 1 } else c

theorem perform_of_quiet (h : a.token? = none) : c.perform i e a = c.noted i e a := by
  simp only [perform, h]
  rfl

theorem perform_of_sent (h : a.token? = some t)
    (hnext : e.ring.successor?.bind (c.noted i e a).liveSeat? = some j) :
    c.perform i e a = { c.noted i e a with queue := (c.noted i e a).queue ++ [(j, t)] } := by
  rw [noted] at hnext ⊢
  simp only [perform, h, hnext]

theorem perform_of_undeliverable (h : a.token? = some t)
    (hnext : e.ring.successor?.bind (c.noted i e a).liveSeat? = none) :
    c.perform i e a = ((c.noted i e a).setElector i e.abort).record (.undeliverable i) := by
  rw [noted] at hnext ⊢
  simp only [perform, h, hnext]

theorem noted_seats (c : Circuit) (i : Nat) (e : Elector) (a : Action) :
    (c.noted i e a).seats = (c.setElector i e).seats := by
  unfold noted
  dsimp only
  split <;> rfl

theorem noted_queue (c : Circuit) (i : Nat) (e : Elector) (a : Action) :
    (c.noted i e a).queue = c.queue := by
  unfold noted
  dsimp only
  split <;> rfl

theorem noted_log (c : Circuit) (i : Nat) (e : Elector) (a : Action) :
    (c.noted i e a).log = .acted i a :: c.log := by
  unfold noted
  dsimp only
  split <;> rfl

section Step

variable (hn : c.names.Nodup) (hs : c.seats[i]? = some s) (ho : e.ring.owner = s.name)

include hs ho

theorem noted_liveSeat? (m : Member) : (c.noted i e a).liveSeat? m = c.liveSeat? m := by
  rw [← liveSeat?_setElector hs ho, liveSeat?, liveSeat?, noted_seats]

include hn

theorem noted_acted : c.Acted (c.noted i e a) s e a 0 := by
  have hnames : (c.noted i e a).names = c.names := by
    rw [names, noted_seats]
    exact names_setElector hs ho
  have hqueue := noted_queue c i e a
  exact
    { names := hnames
      seats := fun x => by rw [noted_seats]; exact mem_setElector hn hs
      bound := by rw [bound_of_names_eq hnames hqueue, add_zero]
      winners := winners_record_acted hnames (noted_log c i e a) (name_of_getElem? hs)
      addressed := fun p hp => Or.inl (hqueue ▸ hp) }

theorem sent_acted (hj : c.names[j]? = some n) :
    c.Acted { c.noted i e a with queue := (c.noted i e a).queue ++ [(j, t)] } s e a {(n, t)} := by
  have hacted : c.Acted (c.noted i e a) s e a 0 := noted_acted hn hs ho
  refine ⟨hacted.names, hacted.seats, ?_, hacted.winners, fun p hp => ?_⟩
  · exact bound_append hacted.names hj (by rw [← noted_queue c i e a])
  · rcases List.mem_append.mp hp with hp | hp
    · exact hacted.addressed p hp
    · rw [List.mem_singleton.mp hp]
      exact Or.inr (List.getElem?_eq_some_iff.mp hj).1

theorem undeliverable_acted :
    c.Acted (((c.noted i e a).setElector i e.abort).record (.undeliverable i)) s e.abort a 0 := by
  have hacted : c.Acted (c.noted i e a) s e a 0 := noted_acted hn hs ho
  have hseat : (c.noted i e a).seats[i]? = some { s with elector := e } := by
    rw [noted_seats, setElector_getElem?, if_pos rfl, hs]
    rfl
  have howner : (e.abort).ring.owner = Seat.name { s with elector := e } := rfl
  have hnames : ((c.noted i e a).setElector i e.abort).names = c.names :=
    (names_setElector hseat howner).trans hacted.names
  refine ⟨hnames, fun x => ?_, ?_, ?_, hacted.addressed⟩
  · change x ∈ ((c.noted i e a).setElector i e.abort).seats ↔ _
    rw [← mem_setElector hn hs, setElector, noted_seats]
    change x ∈ ((c.setElector i e).setElector i e.abort).seats ↔ _
    rw [setElector_setElector]
  · rw [add_zero]
    exact bound_of_names_eq hnames (noted_queue c i e a)
  · rw [winners_record _ (by simp), ← hacted.winners]
    exact congrArg ((c.noted i e a).trace.filterMap <| winner? ·) (hnames.trans hacted.names.symm)

end Step

/-- Every step of a member is carried out in one of the three ways, and changes nothing else. -/
theorem act_acted (hn : c.names.Nodup) (hs : c.seats[i]? = some s)
    {f : Elector → Elector × Action} (ho : (f s.elector).1.ring.owner = s.name) :
    ∃ e' out, c.Dispatch (f s.elector).1 (f s.elector).2 e' out ∧
      c.Acted (c.act i f) s e' (f s.elector).2 out := by
  have hact : c.act i f = c.perform i (f s.elector).1 (f s.elector).2 := by rw [act, hs]
  rw [hact]
  generalize (f s.elector).1 = e at ho ⊢
  generalize (f s.elector).2 = a
  cases ht : a.token? with
  | none =>
    rw [perform_of_quiet ht]
    exact ⟨e, 0, .quiet ht, noted_acted hn hs ho⟩
  | some token =>
    cases hnext : e.ring.successor?.bind (c.noted i e a).liveSeat? with
    | some j =>
      obtain ⟨n, hsucc, hseat⟩ := Option.bind_eq_some_iff.mp hnext
      rw [noted_liveSeat? hs ho] at hseat
      obtain ⟨hj, hlive⟩ := liveSeat?_eq_some hseat
      rw [perform_of_sent ht hnext]
      exact ⟨e, {(n, token)}, .sent ht hsucc hlive, sent_acted hn hs ho hj⟩
    | none =>
      rw [perform_of_undeliverable ht hnext]
      refine ⟨e.abort, 0, .undeliverable ht fun n hsucc hlive => ?_, undeliverable_acted hn hs ho⟩
      obtain ⟨j, hj⟩ := exists_liveSeat? hn hlive
      rw [hsucc, Option.bind_some, noted_liveSeat? hs ho, hj] at hnext
      cases hnext

end Circuit

end ReplicaRing.Election
