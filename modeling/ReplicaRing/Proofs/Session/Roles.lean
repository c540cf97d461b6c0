import ReplicaRing.Proofs.Session.InitialRing
import ReplicaRing.Proofs.Session.Standing

/-!
# Who leads, and who is known to lead

A duty changes the ring of a member, and what follows is a step of the election. Both together keep
a standing sound: the owner and the coordinator are members, the role runs just where the ring names
its owner, and nobody waits for an outcome that it knows. A coordinator is given up only when it is
removed, and a member that a removal leaves alone leads.
-/
namespace ReplicaRing

namespace Ring

variable {r : Ring} {m k x : Member}

/-- What a duty changes in the ring, before the election goes on. -/
def changed (r : Ring) : Session.Duty → Ring
  | .add m => (r.add m).1
  | .remove m => (r.remove m).1
  | .token _ | .startElection | .stop => r

@[simp] theorem changed_owner (r : Ring) (duty : Session.Duty) :
    (r.changed duty).owner = r.owner := by
  cases duty <;> simp [changed, add]

/-- Everybody can be removed but the owner. -/
theorem mem_changed_remove :
    k ∈ (r.changed (.remove m)).members ↔ k ∈ r.members ∧ (k = m → m = r.owner) := by
  by_cases hm : m = r.owner
  · rw [changed, remove, if_pos hm]
    tauto
  · rw [changed, mem_remove hm]
    tauto

theorem owner_mem_changed (h : r.owner ∈ r.members) (duty : Session.Duty) :
    r.owner ∈ (r.changed duty).members := by
  cases duty with
  | add m => exact mem_add.mpr (.inr h)
  | remove m => exact mem_changed_remove.mpr ⟨h, Eq.symm⟩
  | token t => exact h
  | startElection => exact h
  | stop => exact h

/-- The coordinator is forgotten if it is removed, and only then. -/
theorem changed_coordinator (h : ∀ x, r.coordinator = some x → x ∈ r.members)
    (duty : Session.Duty) :
    (r.changed duty).coordinator = r.coordinator.filter (· ∈ (r.changed duty).members) := by
  have hkept {r' : Ring} (hmem : ∀ x, r.coordinator = some x → x ∈ r'.members) :
      r.coordinator = r.coordinator.filter (· ∈ r'.members) := by
    cases hc : r.coordinator with
    | none => rfl
    | some x => rw [Option.filter_some, if_pos (decide_eq_true (hmem x hc))]
  cases duty with
  | add m => exact hkept fun x hx => mem_add.mpr (.inr (h x hx))
  | remove m =>
    by_cases hm : m = r.owner
    · have hsame : r.changed (.remove m) = r := by rw [changed, remove, if_pos hm]
      rw [hsame]
      exact hkept h
    · rw [changed, remove_coordinator hm]
      cases hc : r.coordinator with
      | none => simp
      | some x => simp [Option.filter_some, mem_remove hm, h x hc]
  | token t => exact hkept h
  | startElection => exact hkept h
  | stop => exact hkept h

end Ring

namespace Elector

variable {e : Elector} {m : Member}

/-- Whoever is left alone leads. -/
theorem remove_survivor (hown : e.ring.owner ∈ e.ring.members)
    (hmem : ∀ x, e.ring.coordinator = some x → x ∈ e.ring.members) (hm : m ∈ e.ring.members)
    (ho : m ≠ e.ring.owner) (halone : ∀ k ∈ (e.ring.remove m).1.members, k = e.ring.owner) :
    (e.remove m).1.ring.coordinator = some e.ring.owner := by
  have hconduct := e.remove_conduct m
  set e₁ : Elector := { e with ring := (e.ring.remove m).1 } with he₁
  have howner : e₁.ring.owner = e.ring.owner := Ring.remove_owner _ _
  have hown₁ : e₁.ring.owner ∈ e₁.ring.members := by
    rw [howner]
    exact (Ring.mem_remove ho).mpr ⟨Ne.symm ho, hown⟩
  cases hk : e₁.ring.coordinator with
  | some x =>
    have hx : x ∈ e₁.ring.members := by
      have hcoordinator := Ring.remove_coordinator (r := e.ring) ho
      change e₁.ring.coordinator = _ at hcoordinator
      rw [hk] at hcoordinator
      split at hcoordinator
      · cases hcoordinator
      · rename_i hne
        refine (Ring.mem_remove ho).mpr ⟨?_, hmem x hcoordinator.symm⟩
        rintro rfl
        exact hne hcoordinator.symm
    rw [hconduct.keeps hk, halone x hx]
  | none =>
    have hactive := remove_ne_ignore hm ho hk
    have hlead : e₁.lead.ring.coordinator = some e.ring.owner := by
      rw [lead_ring hown₁, howner]
    generalize he' : (e.remove m).1 = e' at hconduct ⊢
    generalize ha : (e.remove m).2 = a at hconduct hactive
    cases hconduct with
    | settled known => exact absurd hk known
    | rest => exact absurd rfl hactive
    | stand _ _ accompanied =>
      obtain ⟨k, hk, hne⟩ := Ring.exists_ne (accompanied rfl) e.ring.owner
      exact absurd (halone k hk) hne
    | winAlone => exact hlead
    | pass _ _ heard_eq => cases heard_eq
    | win _ heard_eq => cases heard_eq
    | learn _ heard_eq => cases heard_eq
    | learnOwn _ heard_eq => cases heard_eq

/-- A duty changes the ring, and then it is a step of the election. -/
theorem perform_conduct (e : Elector) (duty : Session.Duty) :
    ∃ heard, Election.Conduct { e with ring := e.ring.changed duty } heard
      (Session.perform e duty).1 (Session.perform e duty).2 := by
  have hrest (e : Elector) : Election.Conduct e none e .ignore := by
    by_cases h : e.ring.coordinator = none
    · exact .rest h rfl (by simp)
    · exact .settled h rfl id
  cases duty with
  | add m => exact ⟨none, hrest _⟩
  | remove m => exact ⟨none, e.remove_conduct m⟩
  | token t => exact ⟨some t, e.onToken_conduct t⟩
  | startElection => exact ⟨none, e.initiate_conduct⟩
  | stop => exact ⟨none, hrest e⟩

end Elector

namespace Standing

variable {s s' s'' : Standing} {duty : Session.Duty} {m : Member}

def ring (s : Standing) : Ring := s.elector.ring

/-- A token cannot be handed on. -/
def abort (s : Standing) : Standing := { s with elector := s.elector.abort }

/-- The role starts where the ring names the owner. -/
def promote (s : Standing) : Standing := { s with leads := s.leads || s.ring.isCoordinator }

/-- A duty is done. -/
def after (s : Standing) (duty : Session.Duty) : Standing :=
  let s' : Standing := { s with elector := (Session.perform s.elector duty).1 }
  if (Session.perform s.elector duty).2.isWon then s'.promote else s'

/-- The owner and the known coordinator are members; the role runs just where the ring names the
owner; and nobody who knows a coordinator waits for one. -/
structure Sound (s : Standing) : Prop where
  owner : s.ring.owner ∈ s.ring.members
  coordinator : ∀ x, s.ring.coordinator = some x → x ∈ s.ring.members
  leads : s.leads = true ↔ s.ring.coordinator = some s.ring.owner
  calm : s.ring.coordinator ≠ none → s.elector.inProgress = false

/-- What may have become of a standing: a coordinator is given up only when it is removed, and who
is left alone by a removal leads. -/
structure Follows (s s' : Standing) : Prop where
  owner : s'.ring.owner = s.ring.owner
  kept : ∀ x, s.ring.coordinator = some x →
    s'.ring.coordinator = some x ∨ (x ∈ s.ring.members ∧ x ∉ s'.ring.members)
  survivor : (∃ k ∈ s.ring.members, k ∉ s'.ring.members) →
    (∀ k ∈ s'.ring.members, k = s'.ring.owner) → s'.ring.coordinator = some s'.ring.owner

namespace Follows

theorem refl (s : Standing) : s.Follows s :=
  ⟨rfl, fun _ => .inl, fun ⟨_, hin, hout⟩ => absurd hin hout⟩

/-- Aborting an election changes nothing of this. -/
theorem abort (h : s.Follows s') : s.Follows s'.abort := ⟨h.owner, h.kept, h.survivor⟩

/-- One after the other, as long as nobody comes back who was removed. -/
theorem trans (h : s.Follows s') (h' : s'.Follows s'') (hs : s.Sound) (hs'' : s''.Sound)
    (hgone : ∀ k ∈ s.ring.members, k ∉ s'.ring.members → k ∉ s''.ring.members) :
    s.Follows s'' := by
  have hkept : ∀ x, s.ring.coordinator = some x →
      s''.ring.coordinator = some x ∨ (x ∈ s.ring.members ∧ x ∉ s''.ring.members) := by
    intro x hx
    obtain hx' | ⟨hin, hout⟩ := h.kept x hx
    · exact (h'.kept x hx').imp_right fun hgone => ⟨hs.coordinator x hx, hgone.2⟩
    · exact .inr ⟨hin, hgone x hin hout⟩
  refine ⟨h'.owner.trans h.owner, hkept, fun ⟨k, hin, hout⟩ halone => ?_⟩
  by_cases hlater : ∃ k ∈ s'.ring.members, k ∉ s''.ring.members
  · exact h'.survivor hlater halone
  · push Not at hlater
    have hbefore : ∀ k ∈ s'.ring.members, k = s'.ring.owner := fun k hk =>
      (halone k (hlater k hk)).trans h'.owner
    have hlead := h.survivor ⟨k, hin, fun hk => hout (hlater k hk)⟩ hbefore
    rw [h'.owner]
    exact (h'.kept _ hlead).resolve_right fun hgone => hgone.2 (h'.owner ▸ hs''.owner)

/-- Who leads goes on leading. -/
theorem leads (h : s.Follows s') (hs' : s'.Sound)
    (hlead : s.ring.coordinator = some s.ring.owner) :
    s'.ring.coordinator = some s.ring.owner :=
  (h.kept _ hlead).resolve_right fun hgone => hgone.2 (h.owner ▸ hs'.owner)

end Follows

theorem isCoordinator_iff {r : Ring} : r.isCoordinator = true ↔ r.coordinator = some r.owner :=
  beq_iff_eq

theorem elector_after (s : Standing) (duty : Session.Duty) :
    (s.after duty).elector = (Session.perform s.elector duty).1 := by
  unfold after
  split <;> rfl

theorem leads_after (s : Standing) (duty : Session.Duty) :
    (s.after duty).leads = (s.leads || ((Session.perform s.elector duty).2.isWon &&
      (Session.perform s.elector duty).1.ring.isCoordinator)) := by
  unfold after
  split
  · rename_i hwon
    rw [hwon, Bool.true_and]
    rfl
  · rename_i hwon
    rw [Bool.not_eq_true] at hwon
    rw [hwon, Bool.false_and, Bool.or_false]

/-- The members change only as the duty says. -/
theorem members_after (s : Standing) (duty : Session.Duty) :
    (s.after duty).ring.members = (s.ring.changed duty).members := by
  obtain ⟨heard, hconduct⟩ := s.elector.perform_conduct duty
  rw [ring, elector_after, hconduct.members_eq]
  rfl

theorem owner_after (s : Standing) (duty : Session.Duty) :
    (s.after duty).ring.owner = s.ring.owner := by
  obtain ⟨heard, hconduct⟩ := s.elector.perform_conduct duty
  rw [ring, elector_after, hconduct.owner_eq]
  exact Ring.changed_owner _ duty

theorem Sound.abort (h : s.Sound) : s.abort.Sound := ⟨h.owner, h.coordinator, h.leads, fun _ => rfl⟩

/-- A coordinator that is still a member is still known when the election goes on. -/
theorem Sound.changed_coordinator_iff (h : s.Sound) (duty : Session.Duty) {x : Member} :
    (s.ring.changed duty).coordinator = some x ↔
      s.ring.coordinator = some x ∧ x ∈ (s.ring.changed duty).members := by
  rw [Ring.changed_coordinator h.coordinator, Option.filter_eq_some_iff, decide_eq_true_eq]

/-- The role starts in the step by which the ring names its owner. -/
theorem Sound.after (h : s.Sound) (duty : Session.Duty) : (s.after duty).Sound := by
  obtain ⟨heard, hconduct⟩ := s.elector.perform_conduct duty
  have hown : s.ring.owner ∈ (s.ring.changed duty).members := Ring.owner_mem_changed h.owner duty
  have hmem : ∀ x, (s.ring.changed duty).coordinator = some x →
      x ∈ (s.ring.changed duty).members := fun x hx => ((h.changed_coordinator_iff duty).mp hx).2
  have howner : (s.ring.changed duty).owner = s.ring.owner := Ring.changed_owner _ duty
  constructor
  case owner =>
    rw [owner_after, members_after]
    exact hown
  case coordinator =>
    intro x hx
    rw [ring, elector_after] at hx ⊢
    exact hconduct.coordinator_mem (howner ▸ hown) hmem hx
  case leads =>
    rw [leads_after, owner_after, ring, elector_after]
    cases hleads : s.leads with
    | true =>
      have hlead := (h.changed_coordinator_iff duty).mpr ⟨h.leads.mp hleads, hown⟩
      exact iff_of_true (Bool.true_or _) (hconduct.keeps hlead)
    | false =>
      have hnot : (s.ring.changed duty).coordinator ≠ some s.ring.owner := fun hlead => by
        have hleads' := h.leads.mpr ((h.changed_coordinator_iff duty).mp hlead).1
        rw [hleads] at hleads'
        cases hleads'
      have hwon := hconduct.isWon_iff (howner ▸ hown) (howner.symm ▸ hnot)
      rw [hconduct.owner_eq] at hwon
      change _ ↔ _ = some (s.ring.changed duty).owner at hwon
      rw [howner] at hwon
      rw [Bool.false_or, Bool.and_eq_true, hwon, isCoordinator_iff, hconduct.owner_eq]
      change _ ∧ _ = some (s.ring.changed duty).owner ↔ _
      rw [howner, and_self]
  case calm =>
    rw [ring, elector_after]
    refine hconduct.calm fun hknown => h.calm ?_
    obtain ⟨x, hx⟩ := Option.ne_none_iff_exists'.mp hknown
    rw [((h.changed_coordinator_iff duty).mp hx).1]
    exact Option.some_ne_none x

theorem Sound.follows_after (h : s.Sound) (duty : Session.Duty) : s.Follows (s.after duty) := by
  obtain ⟨heard, hconduct⟩ := s.elector.perform_conduct duty
  constructor
  case owner => exact owner_after s duty
  case kept =>
    intro x hx
    rw [members_after]
    by_cases hmem : x ∈ (s.ring.changed duty).members
    · rw [ring, elector_after]
      exact .inl (hconduct.keeps ((h.changed_coordinator_iff duty).mpr ⟨hx, hmem⟩))
    · exact .inr ⟨h.coordinator x hx, hmem⟩
  case survivor =>
    rintro ⟨k, hin, hout⟩ halone
    rw [owner_after, members_after] at halone
    rw [members_after] at hout
    rw [owner_after, ring, elector_after]
    cases duty with
    | remove m =>
      rw [Ring.mem_changed_remove, not_and, Classical.not_imp] at hout
      obtain ⟨rfl, hm⟩ := hout hin
      exact Elector.remove_survivor h.owner h.coordinator hin hm halone
    | add m => exact absurd (Ring.mem_add.mpr (.inr hin)) hout
    | token t => exact absurd hin hout
    | startElection => exact absurd hin hout
    | stop => exact absurd hin hout

end Standing

end ReplicaRing
