import Mathlib.Data.Set.Function
import ReplicaRing.Proofs.Session.Incarnations

/-!
# One incarnation at each endpoint

A ring that has at most one member at each endpoint keeps to that, whatever is heard, as long as
nobody else is said to join at the owner's own endpoint: a joiner replaces who was there, and
nothing else brings anybody. A ring that a member builds from such a snapshot begins that way, even
if the snapshot lists incarnations that the member had before.
-/
namespace ReplicaRing

/-- At most one member at each endpoint. -/
def Ring.OnePerEndpoint (r : Ring) : Prop := Set.InjOn Member.endpoint {m | m ∈ r.members}

/-- What a snapshot lists at the joiner's own endpoint is not taken, so it may be anything. -/
theorem Session.onePerEndpoint_initialRing {identity : Member} {snapshot : Snapshot}
    (hsnapshot : Set.InjOn Member.endpoint
      {m | m ∈ snapshot.members ∧ m.endpoint ≠ identity.endpoint}) :
    (initialRing identity (some snapshot)).OnePerEndpoint := by
  have hmembers := (Ring.ofSnapshot_spec identity snapshot).2.1
  have hown {m : Member} (hm : m ∈ (Ring.ofSnapshot identity snapshot).members)
      (heq : m.endpoint = identity.endpoint) : m = identity := by
    obtain ⟨-, hkept⟩ | rfl := (hmembers m).mp hm
    · by_contra hne
      exact hkept ⟨beq_iff_eq.mpr heq, hne⟩
    · rfl
  have hothers {m : Member} (hm : m ∈ (Ring.ofSnapshot identity snapshot).members)
      (hne : m.endpoint ≠ identity.endpoint) :
      m ∈ snapshot.members ∧ m.endpoint ≠ identity.endpoint := by
    obtain ⟨hlisted, -⟩ | rfl := (hmembers m).mp hm
    · exact ⟨hlisted, hne⟩
    · exact absurd rfl hne
  intro a ha b hb heq
  by_cases ha' : a.endpoint = identity.endpoint
  · rw [hown ha ha', hown hb (heq ▸ ha')]
  · exact hsnapshot (hothers ha ha') (hothers hb (heq ▸ ha')) heq

namespace Cluster

variable {c c' : Cluster} {name : String} {s s' : Standing} {owner m : Member}

/-! ### Matters that bring nobody -/

/-- Nobody comes, and the owner stays. -/
structure Wanes (s s' : Standing) : Prop where
  owner : s'.ring.owner = s.ring.owner
  keeps : s.ring.owner ∈ s.ring.members → s.ring.owner ∈ s'.ring.members
  subset : ∀ k ∈ s'.ring.members, k ∈ s.ring.members

theorem Wanes.refl (s : Standing) : Wanes s s := ⟨rfl, id, fun _ => id⟩

theorem wanes_fulfil (h : c.standing? name = some s) {duty : Session.Duty} (hstop : duty ≠ .stop)
    (hadd : ∀ m, duty ≠ .add m) :
    ∃ s', ((fulfil name duty).run c).2.standing? name = some s' ∧ Wanes s s' := by
  obtain ⟨s', h', howner, hmembers⟩ := ring_fulfil h duty hstop
  refine ⟨s', h', howner, fun hown => hmembers ▸ Ring.owner_mem_changed hown duty, fun k hk => ?_⟩
  rw [hmembers] at hk
  cases duty with
  | add m => exact absurd rfl (hadd m)
  | remove m => exact (Ring.mem_changed_remove.mp hk).1
  | token t => exact hk
  | startElection => exact hk
  | stop => exact hk

/-- All events bring nobody but a joiner, and all are survived but the word of the own crash. -/
theorem wanes_handleEvent (h : c.standing? name = some s) {event : Event}
    (hjoin : event.kind ≠ .join) (hcrash : event ≠ ⟨.crash, s.ring.owner⟩) :
    ∃ s', ((handleEvent name event).run c).2.standing? name = some s' ∧ Wanes s s' := by
  obtain ⟨session, hsession, rfl⟩ := Option.map_eq_some_iff.mp (standing?_eq c name ▸ h)
  rw [handleEvent_run, hsession]
  dsimp only
  have hnothing (hduties : Session.duties session.ring event = []) :
      ∃ s', (((Session.duties session.ring event).forM (fulfil name)).run c).2.standing? name =
        some s' ∧ Wanes session.standing s' := by
    rw [hduties]
    exact ⟨_, h, .refl _⟩
  have hduty (duty : Session.Duty) (hduties : Session.duties session.ring event = [duty])
      (hstop : duty ≠ .stop) (hadd : ∀ m, duty ≠ .add m) :
      ∃ s', (((Session.duties session.ring event).forM (fulfil name)).run c).2.standing? name =
        some s' ∧ Wanes session.standing s' := by
    rw [hduties]
    exact wanes_fulfil h hstop hadd
  obtain ⟨kind, m⟩ := event
  cases kind with
  | join => exact absurd rfl hjoin
  | leave =>
    by_cases hm : m = session.ring.owner
    · exact hnothing (if_pos hm)
    · exact hduty (.remove m) (if_neg hm) nofun nofun
  | crash =>
    have hm : m ≠ session.ring.owner := fun hm => hcrash (hm ▸ rfl)
    exact hduty (.remove m) (if_neg hm) nofun nofun
  | electionId => exact hduty _ rfl nofun nofun
  | elected => exact hduty _ rfl nofun nofun
  | ping => exact hnothing rfl
  | ack => exact hnothing rfl
  | memberListRequest => exact hnothing rfl
  | introducerCheckAlive => exact hnothing rfl

theorem wanes_reportCrash (h : c.standing? name = some s) (suspect : Member) :
    ∃ s', ((reportCrash name suspect).run c).2.standing? name = some s' ∧ Wanes s s' := by
  obtain ⟨session, hsession, rfl⟩ := Option.map_eq_some_iff.mp (standing?_eq c name ▸ h)
  rw [reportCrash_run, hsession]
  dsimp only
  split
  · refine standing?_bind (P := fun o => ∃ s', o = some s' ∧ Wanes session.standing s')
      (Aside.forIn fun m _ => ?_) fun _ c₁ h₁ => wanes_fulfil (h₁.trans h) nofun nofun
    exact .ite (aside_write.bind fun _ => .pure _) (.pure _)
  · exact ⟨_, h, .refl _⟩

theorem wanes_handle (h : c.standing? name = some s) {matter : Matter}
    (hjoin : ∀ m, matter ≠ .event ⟨.join, m⟩) (hcrash : matter ≠ .event ⟨.crash, s.ring.owner⟩) :
    ∃ s', ((matter.handle name).run c).2.standing? name = some s' ∧ Wanes s s' := by
  cases matter with
  | event e =>
    refine wanes_handleEvent h (fun hkind => hjoin e.subject ?_) fun he => hcrash (he ▸ rfl)
    rw [← hkind]
  | suspect m => exact wanes_reportCrash h m
  | election => exact wanes_fulfil h nofun nofun
  | forward token =>
    obtain hsame | habort := standing?_forward h token
    · exact ⟨s, hsame, .refl s⟩
    · exact ⟨s.abort, habort, rfl, id, fun _ => id⟩

/-- Word of its own crash stops a participant. -/
theorem standing?_ownCrash (h : c.standing? name = some s) :
    ((Matter.handle name (.event ⟨.crash, s.ring.owner⟩)).run c).2.standing? name = none := by
  obtain ⟨session, hsession, rfl⟩ := Option.map_eq_some_iff.mp (standing?_eq c name ▸ h)
  change ((handleEvent name ⟨.crash, session.ring.owner⟩).run c).2.standing? name = none
  rw [handleEvent_run, hsession]
  have hduties : Session.duties session.ring ⟨.crash, session.ring.owner⟩ = [.stop] := if_pos rfl
  dsimp only
  rw [hduties]
  exact standing?_fulfil_stop h

/-! ### A whole session -/

/-- Nobody else is said to join at the endpoint of `owner`. -/
def Matter.Spares (owner : Member) (matter : Matter) : Prop :=
  ∀ m, matter = .event ⟨.join, m⟩ → m.endpoint = owner.endpoint → m = owner

/-- From a group to what it becomes while a participant deals with one matter after the other, none
of which disputes the endpoint of `owner`. In between anything may happen in the group that leaves
the participant where it stands. -/
inductive Undisputed (name : String) (owner : Member) : Cluster → Cluster → Prop
  | refl (c : Cluster) : Undisputed name owner c c
  | deal {c c' : Cluster} (h : Undisputed name owner c c') (matter : Matter)
      (spares : matter.Spares owner) : Undisputed name owner c ((matter.handle name).run c').2
  | elsewhere {c c' c'' : Cluster} (h : Undisputed name owner c c')
      (same : c''.standing? name = c'.standing? name) : Undisputed name owner c c''

/-- The ring of `owner`, who is in it, has at most one member at each endpoint. -/
structure Single (owner : Member) (s : Standing) : Prop where
  owned : s.ring.owner = owner
  mem : owner ∈ s.ring.members
  onePerEndpoint : s.ring.OnePerEndpoint

theorem Wanes.single (h : Wanes s s') (hs : Single owner s) : Single owner s' where
  owned := h.owner.trans hs.owned
  mem := by
    have hkeeps := h.keeps
    rw [hs.owned] at hkeeps
    exact hkeeps hs.mem
  onePerEndpoint := hs.onePerEndpoint.mono h.subset

/-- A joiner is the only one at its endpoint. -/
theorem single_join (h : c.standing? name = some s) (hs : Single owner s)
    (hother : m.endpoint = owner.endpoint → m = owner) :
    ∃ s', ((Matter.handle name (.event ⟨.join, m⟩)).run c).2.standing? name = some s' ∧
      Single owner s' ∧
      ∀ k, k ∈ s'.ring.members ↔ k = m ∨ (k ∈ s.ring.members ∧ k.endpoint ≠ m.endpoint) := by
  obtain ⟨s', h', howner, hmembers⟩ := ring_join h (hs.owned.symm ▸ hother)
  refine ⟨s', h', ⟨howner.trans hs.owned, (hmembers owner).mpr ?_, ?_⟩, hmembers⟩
  · by_cases hm : m = owner
    · exact .inl hm.symm
    · exact .inr ⟨hs.mem, fun heq => hm (hother heq.symm)⟩
  · intro a ha b hb heq
    obtain rfl | ⟨ha, hane⟩ := (hmembers a).mp ha
    · obtain rfl | ⟨-, hbne⟩ := (hmembers b).mp hb
      · rfl
      · exact absurd heq.symm hbne
    · obtain rfl | ⟨hb, -⟩ := (hmembers b).mp hb
      · exact absurd heq hane
      · exact hs.onePerEndpoint ha hb heq

/-- What one matter leaves of a single ring, if it leaves any. -/
theorem single_handle (h : c.standing? name = some s) (hs : Single owner s) {matter : Matter}
    (hspares : matter.Spares owner)
    (hafter : ((matter.handle name).run c).2.standing? name = some s') : Single owner s' := by
  by_cases hjoin : ∃ m, matter = .event ⟨.join, m⟩
  · obtain ⟨m, rfl⟩ := hjoin
    obtain ⟨found, hfound, hsingle, -⟩ := single_join h hs (hspares m rfl)
    cases hfound.symm.trans hafter
    exact hsingle
  · by_cases hcrash : matter = .event ⟨.crash, s.ring.owner⟩
    · rw [hcrash, standing?_ownCrash h] at hafter
      cases hafter
    · obtain ⟨found, hfound, hwanes⟩ := wanes_handle h (not_exists.mp hjoin) hcrash
      cases hfound.symm.trans hafter
      exact hwanes.single hs

theorem Undisputed.single (hlife : Undisputed name owner c c') (h : c.standing? name = some s)
    (hs : Single owner s) (h' : c'.standing? name = some s') : Single owner s' := by
  induction hlife generalizing s' with
  | refl =>
    cases h.symm.trans h'
    exact hs
  | elsewhere _ same ih => exact ih (same.symm.trans h')
  | @deal c' before matter hspares ih =>
    cases hbefore : c'.standing? name with
    | none =>
      rw [standing?_handle_none hbefore] at h'
      cases h'
    | some s₁ => exact single_handle hbefore (ih hbefore) hspares h'

/-- **One incarnation per endpoint.** A session whose initial ring has at most one member at each
endpoint keeps to that, with its owner among them, as long as it deals with no join of somebody else
at its own endpoint. A joiner is the only one at its endpoint from then on, all other endpoints are
left alone, and no other matter brings anybody. From a snapshot that has at most one member at each
endpoint, but for that of the joiner, comes such an initial ring. -/
theorem one_incarnation_per_endpoint (name : String) (owner : Member)
    (snapshot : Option Snapshot) :
    ((Session.initialRing owner snapshot).OnePerEndpoint → ∀ c c' s s',
      c.standing? name = some s → s.ring = Session.initialRing owner snapshot →
      Undisputed name owner c c' → c'.standing? name = some s' →
        s'.ring.OnePerEndpoint ∧ s'.ring.owner = owner ∧ owner ∈ s'.ring.members ∧
        (∀ m, (m.endpoint = owner.endpoint → m = owner) →
          ∃ s'', ((Matter.handle name (.event ⟨.join, m⟩)).run c').2.standing? name = some s'' ∧
            ∀ k, k ∈ s''.ring.members ↔
              k = m ∨ (k ∈ s'.ring.members ∧ k.endpoint ≠ m.endpoint)) ∧
        ∀ matter, (∀ m, matter ≠ .event ⟨.join, m⟩) →
          match ((Matter.handle name matter).run c').2.standing? name with
          | some s'' => ∀ k ∈ s''.ring.members, k ∈ s'.ring.members
          | none => matter = .event ⟨.crash, owner⟩) ∧
    ∀ listed, snapshot = some listed → Set.InjOn Member.endpoint
      {m | m ∈ listed.members ∧ m.endpoint ≠ owner.endpoint} →
        (Session.initialRing owner snapshot).OnePerEndpoint := by
  refine ⟨fun hone c c' s s' h hring hlife h' => ?_, ?_⟩
  · have hbegin : Single owner s := by
      refine ⟨?_, ?_, ?_⟩ <;> rw [hring]
      · exact Session.initialRing_owner owner snapshot
      · exact Session.owner_mem_initialRing owner snapshot
      · exact hone
    have hs' := hlife.single h hbegin h'
    refine ⟨hs'.onePerEndpoint, hs'.owned, hs'.mem, fun m hother => ?_, fun matter hjoin => ?_⟩
    · obtain ⟨s'', h'', -, hmembers⟩ := single_join h' hs' hother
      exact ⟨s'', h'', hmembers⟩
    · by_cases hcrash : matter = .event ⟨.crash, s'.ring.owner⟩
      · rw [hcrash, standing?_ownCrash h', hs'.owned]
      · obtain ⟨s'', h'', hwanes⟩ := wanes_handle h' hjoin hcrash
        rw [h'']
        exact hwanes.subset
  · rintro listed rfl hlisted
    exact Session.onePerEndpoint_initialRing hlisted

/-- A member comes back with a snapshot that still lists what it was before, and then another one
comes back. -/
theorem one_incarnation_per_endpoint_of_return :
    let before : Member := ⟨"127.0.0.7", 9000, 1⟩
    let me : Member := ⟨"127.0.0.7", 9000, 5⟩
    let older : Member := ⟨"127.0.0.3", 9000, 2⟩
    let newer : Member := ⟨"127.0.0.3", 9000, 9⟩
    let snapshot : Snapshot := ⟨[older, before], some older⟩
    let session : Session :=
      { elector := { ring := Session.initialRing me (some snapshot) }
        store := { root := [] }
        detector := { owner := me } }
    let c : Cluster := { disk := {}, participants := [("me", { config := {}, session })] }
    session.ring.OnePerEndpoint ∧ c.standing? "me" = some session.standing ∧
      ∃ s, ((Matter.handle "me" (.event ⟨.join, newer⟩)).run c).2.standing? "me" = some s ∧
        s.ring.OnePerEndpoint ∧ me ∈ s.ring.members ∧ newer ∈ s.ring.members ∧
        older ∉ s.ring.members := by
  intro before me older newer snapshot session c
  obtain ⟨hkeeps, hbegins⟩ := one_incarnation_per_endpoint "me" me (some snapshot)
  have hlisted {m : Member} (hm : m ∈ snapshot.members ∧ m.endpoint ≠ me.endpoint) : m = older := by
    obtain rfl | hbefore := List.mem_cons.mp hm.1
    · rfl
    · exact absurd (congrArg Member.endpoint (List.mem_singleton.mp hbefore)) hm.2
  have hone := hbegins snapshot rfl fun a ha b hb _ => (hlisted ha).trans (hlisted hb).symm
  have hbegin : c.standing? "me" = some session.standing := rfl
  have hspares : (Matter.event ⟨.join, newer⟩).Spares me := by
    rintro _ heq hsame
    cases heq
    exact absurd hsame (by decide)
  obtain ⟨-, -, -, hjoin, -⟩ := hkeeps hone c c _ _ hbegin rfl (.refl c) hbegin
  obtain ⟨s, hs, hmembers⟩ := hjoin newer (by decide)
  obtain ⟨hone', -, hme, -⟩ := hkeeps hone c _ _ s hbegin rfl (.deal (.refl c) _ hspares) hs
  refine ⟨hone, hbegin, s, hs, hone', hme, (hmembers newer).mpr (.inl rfl), fun holder => ?_⟩
  obtain heq | ⟨-, hne⟩ := (hmembers older).mp holder
  · exact absurd heq (by decide)
  · exact hne rfl

end Cluster

end ReplicaRing
