import ReplicaRing.Election
import ReplicaRing.Proofs.Neighbour

/-!
# What a member can do in one step of the election

A step starts from what the member has heard: a token, or nothing when it is asked to start an
election or removes a member. `Conduct` lists the outcomes with everything that led to them, and
each handler is shown to stay within the list. Later proofs split on the outcome and do not open a
handler again.
-/
namespace ReplicaRing

namespace Ring

variable {r : Ring} {m : Member}

theorem not_contains_iff : (!r.contains m) = true ↔ m ∉ r.members := by
  rw [Bool.not_eq_true', ← Bool.not_eq_true]
  rfl

theorem setCoordinator_of_mem (h : m ∈ r.members) :
    r.setCoordinator m = ({ r with coordinator := some m }, true) :=
  if_pos h

theorem setCoordinator_of_not_mem (h : m ∉ r.members) : r.setCoordinator m = (r, false) :=
  if_neg h

theorem setCoordinator_owner (r : Ring) (m : Member) : (r.setCoordinator m).1.owner = r.owner := by
  unfold setCoordinator
  split <;> rfl

theorem setCoordinator_members (r : Ring) (m : Member) :
    (r.setCoordinator m).1.members = r.members := by
  unfold setCoordinator
  split <;> rfl

theorem setCoordinator_coordinator (r : Ring) (m : Member) :
    (r.setCoordinator m).1.coordinator = if m ∈ r.members then some m else r.coordinator := by
  by_cases hm : m ∈ r.members
  · rw [setCoordinator_of_mem hm, if_pos hm]
  · rw [setCoordinator_of_not_mem hm, if_neg hm]

theorem mem_add {k : Member} : k ∈ (r.add m).1.members ↔ k = m ∨ k ∈ r.members := by
  rw [add, mem_insert_iff, eq_comm]

@[simp] theorem remove_owner (r : Ring) (m : Member) : (r.remove m).1.owner = r.owner := by
  unfold remove
  split <;> rfl

theorem mem_remove {k : Member} (hm : m ≠ r.owner) :
    k ∈ (r.remove m).1.members ↔ k ≠ m ∧ k ∈ r.members := by
  rw [remove, if_neg hm]
  exact MemberSet.mem_erase_iff

theorem remove_coordinator (hm : m ≠ r.owner) :
    (r.remove m).1.coordinator = if r.coordinator = some m then none else r.coordinator := by
  rw [remove, if_neg hm]

theorem addAll_spec (r : Ring) (ms : List Member) :
    (r.addAll ms).owner = r.owner ∧ (r.addAll ms).coordinator = r.coordinator ∧
      ∀ k, k ∈ (r.addAll ms).members ↔ k ∈ ms ∨ k ∈ r.members := by
  induction ms generalizing r with
  | nil => simp [addAll]
  | cons m ms ih =>
    obtain ⟨howner, hcoordinator, hmem⟩ := ih (r.add m).1
    refine ⟨howner, hcoordinator, fun k => ?_⟩
    change k ∈ ((r.add m).1.addAll ms).members ↔ _
    rw [hmem, mem_add, List.mem_cons]
    tauto

/-- Removing a stranger changes nothing. -/
theorem remove_of_not_mem (hm : m ∉ r.members) (hc : r.coordinator ≠ some m) :
    (r.remove m).1 = r := by
  by_cases ho : m = r.owner
  · rw [remove, if_pos ho]
  · rw [remove, if_neg ho, erase_of_not_mem hm, if_neg hc]

end Ring

namespace Election

/-- What a member that has `heard` a token, or nothing, can become and do. -/
inductive Conduct (e : Elector) (heard : Option Token) : Elector → Action → Prop
  /-- It knows the coordinator: no token and no request moves it. -/
  | settled {e' : Elector} (known : e.ring.coordinator ≠ none) (ring : e'.ring = e.ring)
      (calm : e.inProgress = false → e'.inProgress = false) : Conduct e heard e' .ignore
  /-- It has nothing to answer. The outcome that it heard, if any, names a stranger. -/
  | rest {e' : Elector} (unknown : e.ring.coordinator = none) (ring : e'.ring = e.ring)
      (stranger : ∀ t, heard = some t → ∃ l, t = .elected l ∧ l ∉ e.ring.members) :
      Conduct e heard e' .ignore
  /-- It sends itself, because nobody asked otherwise or the candidate is lower or gone. -/
  | stand {e' : Elector} (unknown : e.ring.coordinator = none) (ring : e'.ring = e.ring)
      (accompanied : heard = none → e.ring.hasSuccessor = true)
      (lower : ∀ t, heard = some t → ∃ m, t = .candidate m ∧ m ≠ e.ring.owner ∧
        (m < e.ring.owner ∨ m ∉ e.ring.members)) :
      Conduct e heard e' (.forward (.candidate e.ring.owner))
  /-- It lets a higher candidate pass. -/
  | pass {e' : Elector} {m : Member} (unknown : e.ring.coordinator = none)
      (ring : e'.ring = e.ring) (heard_eq : heard = some (.candidate m))
      (higher : e.ring.owner < m) (mem : m ∈ e.ring.members) :
      Conduct e heard e' (.forward (.candidate m))
  /-- It hears itself as candidate. -/
  | win (unknown : e.ring.coordinator = none)
      (heard_eq : heard = some (.candidate e.ring.owner)) :
      Conduct e heard e.lead (.won (some (.elected e.ring.owner)))
  /-- It is alone. -/
  | winAlone (unknown : e.ring.coordinator = none) (heard_eq : heard = none)
      (alone : e.ring.hasSuccessor = false) : Conduct e heard e.lead (.won none)
  /-- It hears the outcome for the first time and passes it on. -/
  | learn {l : Member} (unknown : e.ring.coordinator = none)
      (heard_eq : heard = some (.elected l)) (mem : l ∈ e.ring.members) (ne : l ≠ e.ring.owner) :
      Conduct e heard { e with ring := { e.ring with coordinator := some l } }.abort
        (.forward (.elected l))
  /-- It hears from others that it is elected. -/
  | learnOwn (unknown : e.ring.coordinator = none)
      (heard_eq : heard = some (.elected e.ring.owner)) : Conduct e heard e.lead (.won none)

end Election

open Election

namespace Elector

variable {e : Elector}

theorem lead_ring (h : e.ring.owner ∈ e.ring.members) :
    e.lead.ring = { e.ring with coordinator := some e.ring.owner } := by
  rw [lead, Ring.setCoordinator_of_mem h]
  rfl

theorem abort_conduct (e : Elector) : Conduct e none e.abort .ignore := by
  by_cases h : e.ring.coordinator = none
  · exact .rest h rfl (by simp)
  · exact .settled h rfl fun _ => rfl

theorem initiate_conduct (e : Elector) : Conduct e none e.initiate.1 e.initiate.2 := by
  by_cases h : e.ring.coordinator = none
  · simp only [initiate, h, Option.isSome_none, Bool.false_eq_true, ↓reduceIte]
    cases hs : e.ring.hasSuccessor with
    | false => exact .winAlone h rfl hs
    | true =>
      simp only [Bool.not_true, Bool.false_eq_true, ↓reduceIte]
      split
      · exact .rest h rfl (by simp)
      · exact .stand h rfl (fun _ => hs) (by simp)
  · rw [initiate, if_pos (Option.isSome_iff_ne_none.mpr h)]
    exact .settled h rfl id

theorem onRemoved_conduct (e : Elector) : Conduct e none e.onRemoved.1 e.onRemoved.2 := by
  by_cases h : e.ring.coordinator = none
  · have hi := e.abort.initiate_conduct
    simp only [onRemoved, h, Option.isSome_none, Bool.false_eq_true, ↓reduceIte]
    -- Aborting touches the flags only, so the outcomes of `initiate` are those of `e`.
    generalize he : e.abort.initiate.1 = e' at hi
    generalize ha : e.abort.initiate.2 = a at hi
    cases hi with
    | settled known => exact absurd h known
    | rest _ ring stranger => exact .rest h ring stranger
    | stand _ ring accompanied lower => exact .stand h ring accompanied lower
    | winAlone _ heard_eq alone => exact .winAlone h heard_eq alone
    | pass _ _ heard_eq => cases heard_eq
    | win _ heard_eq => cases heard_eq
    | learn _ heard_eq => cases heard_eq
    | learnOwn _ heard_eq => cases heard_eq
  · rw [onRemoved, if_pos (Option.isSome_iff_ne_none.mpr h)]
    exact .settled h rfl id

/-- Who has lost the coordinator starts over at once. -/
theorem onRemoved_ne_ignore (h : e.ring.coordinator = none) : e.onRemoved.2 ≠ .ignore := by
  have hidle : ¬ (e.abort.inProgress = true ∧ e.abort.stalled + 1 < stallLimit) := by
    rintro ⟨hprogress, _⟩
    cases hprogress
  have hunknown : e.abort.ring.coordinator = none := h
  rw [onRemoved, h, initiate, hunknown, if_neg hidle]
  simp only [Option.isSome_none, Bool.false_eq_true, ↓reduceIte]
  split <;> simp

theorem onCandidate_conduct (e : Elector) (m : Member) :
    Conduct e (some (.candidate m)) (e.onCandidate m).1 (e.onCandidate m).2 := by
  by_cases h : e.ring.coordinator = none
  · simp only [onCandidate, h, Option.isSome_none, Bool.false_eq_true, ↓reduceIte]
    by_cases hm : m = e.ring.owner
    · subst hm
      rw [if_pos rfl]
      exact .win h rfl
    · rw [if_neg hm]
      split
      · rename_i hlow
        refine .stand h rfl (by simp) ?_
        rintro t ⟨⟩
        exact ⟨m, rfl, hm, hlow.imp id Ring.not_contains_iff.mp⟩
      · rename_i hhigh
        rw [not_or, Ring.not_contains_iff, not_not] at hhigh
        exact .pass h rfl rfl (lt_of_le_of_ne (not_lt.mp hhigh.1) (Ne.symm hm)) hhigh.2
  · rw [onCandidate, if_pos (Option.isSome_iff_ne_none.mpr h)]
    exact .settled h rfl id

theorem onElected_conduct (e : Elector) (l : Member) :
    Conduct e (some (.elected l)) (e.onElected l).1 (e.onElected l).2 := by
  by_cases h : e.ring.coordinator = none
  · simp only [onElected, h, Option.isSome_none, Bool.false_eq_true, ↓reduceIte]
    by_cases hl : l ∈ e.ring.members
    · rw [Ring.setCoordinator_of_mem hl]
      by_cases ho : l = e.ring.owner
      · subst ho
        simp only [Bool.not_true, Bool.false_eq_true, ↓reduceIte, Ring.isCoordinator,
          beq_self_eq_true]
        have hlead : e.lead =
            { e with ring := { e.ring with coordinator := some e.ring.owner } }.abort := by
          rw [lead, Ring.setCoordinator_of_mem hl]
        exact hlead ▸ .learnOwn h rfl
      · simp only [Bool.not_true, Bool.false_eq_true, ↓reduceIte, Ring.isCoordinator,
          beq_iff_eq, Option.some.injEq, ho]
        exact .learn h rfl hl ho
    · rw [Ring.setCoordinator_of_not_mem hl]
      refine .rest h rfl ?_
      rintro t ⟨⟩
      exact ⟨l, rfl, hl⟩
  · rw [onElected, if_pos (Option.isSome_iff_ne_none.mpr h)]
    exact .settled h rfl id

theorem onToken_conduct (e : Elector) (t : Token) :
    Conduct e (some t) (e.onToken t).1 (e.onToken t).2 := by
  cases t with
  | candidate m => exact e.onCandidate_conduct m
  | elected l => exact e.onElected_conduct l

theorem remove_eq (e : Elector) (m : Member) :
    e.remove m = if (e.ring.remove m).2 then
      Elector.onRemoved { e with ring := (e.ring.remove m).1 }
    else ({ e with ring := (e.ring.remove m).1 }, .ignore) := rfl

/-- Removing a member is a step from the smaller ring. -/
theorem remove_conduct (e : Elector) (m : Member) :
    Conduct { e with ring := (e.ring.remove m).1 } none (e.remove m).1 (e.remove m).2 := by
  rw [remove_eq]
  split
  · exact onRemoved_conduct _
  · by_cases h : (e.ring.remove m).1.coordinator = none
    · exact .rest h rfl (by simp)
    · exact .settled h rfl id

/-- A member that knows no coordinator without the removed one starts an election. -/
theorem remove_ne_ignore {m : Member} (hm : m ∈ e.ring.members) (ho : m ≠ e.ring.owner)
    (hk : (e.ring.remove m).1.coordinator = none) : (e.remove m).2 ≠ .ignore := by
  have hgone : (e.ring.remove m).2 = true := by
    rw [Ring.remove, if_neg ho]
    exact hm
  rw [remove_eq, if_pos hgone]
  exact onRemoved_ne_ignore hk

end Elector

namespace Election.Conduct

variable {e e' : Elector} {heard : Option Token} {a : Action}

theorem owner_eq (h : Conduct e heard e' a) : e'.ring.owner = e.ring.owner := by
  cases h with
  | settled _ ring => rw [ring]
  | rest _ ring => rw [ring]
  | stand _ ring => rw [ring]
  | pass _ ring => rw [ring]
  | win => exact Ring.setCoordinator_owner _ _
  | winAlone => exact Ring.setCoordinator_owner _ _
  | learn => rfl
  | learnOwn => exact Ring.setCoordinator_owner _ _

theorem members_eq (h : Conduct e heard e' a) : e'.ring.members = e.ring.members := by
  cases h with
  | settled _ ring => rw [ring]
  | rest _ ring => rw [ring]
  | stand _ ring => rw [ring]
  | pass _ ring => rw [ring]
  | win => exact Ring.setCoordinator_members _ _
  | winAlone => exact Ring.setCoordinator_members _ _
  | learn => rfl
  | learnOwn => exact Ring.setCoordinator_members _ _

/-- Who knows the coordinator does not wait for one. -/
theorem calm (h : Conduct e heard e' a)
    (hcalm : e.ring.coordinator ≠ none → e.inProgress = false)
    (hknown : e'.ring.coordinator ≠ none) : e'.inProgress = false := by
  cases h with
  | settled known _ calm => exact calm (hcalm known)
  | rest unknown ring => exact absurd (ring ▸ unknown) hknown
  | stand unknown ring => exact absurd (ring ▸ unknown) hknown
  | pass unknown ring => exact absurd (ring ▸ unknown) hknown
  | win => rfl
  | winAlone => rfl
  | learn => rfl
  | learnOwn => rfl

/-- A known coordinator is kept. -/
theorem keeps {l : Member} (h : Conduct e heard e' a) (hl : e.ring.coordinator = some l) :
    e'.ring.coordinator = some l := by
  have hne : e.ring.coordinator ≠ none := by simp [hl]
  cases h with
  | settled _ ring => rw [ring, hl]
  | rest unknown => exact absurd unknown hne
  | stand unknown => exact absurd unknown hne
  | pass unknown => exact absurd unknown hne
  | win unknown => exact absurd unknown hne
  | winAlone unknown => exact absurd unknown hne
  | learn unknown => exact absurd unknown hne
  | learnOwn unknown => exact absurd unknown hne

/-- A coordinator is known from before, or it is the member itself, or it was heard of. -/
theorem knows {l : Member} (h : Conduct e heard e' a) (hown : e.ring.owner ∈ e.ring.members)
    (hl : e'.ring.coordinator = some l) :
    e.ring.coordinator = some l ∨ l = e.ring.owner ∨ heard = some (.elected l) := by
  have hlead := Elector.lead_ring hown
  cases h with
  | settled _ ring => exact Or.inl (ring ▸ hl)
  | rest _ ring => exact Or.inl (ring ▸ hl)
  | stand _ ring => exact Or.inl (ring ▸ hl)
  | pass _ ring => exact Or.inl (ring ▸ hl)
  | win =>
    rw [hlead] at hl
    exact Or.inr (Or.inl (Option.some.inj hl).symm)
  | winAlone =>
    rw [hlead] at hl
    exact Or.inr (Or.inl (Option.some.inj hl).symm)
  | learn _ heard_eq => exact Or.inr (Or.inr (Option.some.inj hl ▸ heard_eq))
  | learnOwn =>
    rw [hlead] at hl
    exact Or.inr (Or.inl (Option.some.inj hl).symm)

/-- A known coordinator is a member. -/
theorem coordinator_mem {l : Member} (h : Conduct e heard e' a)
    (hown : e.ring.owner ∈ e.ring.members)
    (hmem : ∀ l, e.ring.coordinator = some l → l ∈ e.ring.members)
    (hl : e'.ring.coordinator = some l) : l ∈ e'.ring.members := by
  rw [h.members_eq]
  obtain hold | rfl | hheard := h.knows hown hl
  · exact hmem l hold
  · exact hown
  · subst hheard
    by_contra hstranger
    -- Who hears of a stranger goes on without a coordinator.
    cases h with
    | settled known ring => exact hstranger (hmem l (ring ▸ hl))
    | rest unknown ring => cases (ring ▸ hl).symm.trans unknown
    | stand unknown ring => cases (ring ▸ hl).symm.trans unknown
    | pass _ _ heard_eq => cases heard_eq
    | win _ heard_eq => cases heard_eq
    | winAlone _ heard_eq => cases heard_eq
    | learn _ heard_eq mem =>
      cases heard_eq
      exact hstranger mem
    | learnOwn _ heard_eq =>
      cases heard_eq
      exact hstranger hown

/-- A member becomes coordinator in the step that it wins by. -/
theorem isWon_iff (h : Conduct e heard e' a) (hown : e.ring.owner ∈ e.ring.members)
    (hnot : e.ring.coordinator ≠ some e.ring.owner) :
    a.isWon = true ↔ e'.ring.coordinator = some e'.ring.owner := by
  rw [h.owner_eq]
  have hlead : e.lead.ring.coordinator = some e.ring.owner := by rw [Elector.lead_ring hown]
  cases h with
  | settled _ ring => exact iff_of_false Bool.false_ne_true (ring ▸ hnot)
  | rest _ ring => exact iff_of_false Bool.false_ne_true (ring ▸ hnot)
  | stand _ ring => exact iff_of_false Bool.false_ne_true (ring ▸ hnot)
  | pass _ ring => exact iff_of_false Bool.false_ne_true (ring ▸ hnot)
  | win => exact iff_of_true rfl hlead
  | winAlone => exact iff_of_true rfl hlead
  | learn _ _ _ ne => exact iff_of_false Bool.false_ne_true fun heq => ne (Option.some.inj heq)
  | learnOwn => exact iff_of_true rfl hlead

/-- Who tells the outcome knows it, and has won or heard it. -/
theorem tells {l : Member} (h : Conduct e heard e' a) (hown : e.ring.owner ∈ e.ring.members)
    (ht : a.token? = some (.elected l)) :
    e'.ring.coordinator = some l ∧ (l = e.ring.owner ∨ heard = some (.elected l)) := by
  cases h with
  | settled => cases ht
  | rest => cases ht
  | stand => cases ht
  | pass => cases ht
  | win =>
    cases ht
    rw [Elector.lead_ring hown]
    exact ⟨rfl, Or.inl rfl⟩
  | winAlone => cases ht
  | learn _ heard_eq =>
    cases ht
    exact ⟨rfl, Or.inr heard_eq⟩
  | learnOwn => cases ht

end Election.Conduct

end ReplicaRing
