import ReplicaRing.Proofs.Session.Roles

/-!
# What a participant makes of what it meets

An event is done duty by duty. Whether a token finds a taker, and what the coordinator's role learns
when it starts, depends on the rest of the group; where the participant stands afterwards does not,
but for an election that is given up when a token cannot be handed on. So the invariants of a
session hold whatever the group is like.
-/
namespace ReplicaRing.Cluster

variable {c : Cluster} {name : String} {s s' : Standing} {duty : Session.Duty} {m : Member}

theorem standing?_eq (c : Cluster) (name : String) :
    c.standing? name = (session? name c).1.map Session.standing := by
  change Option.join (Option.map _ (c.participants.lookup name)) =
    ((c.participants.lookup name).bind (·.session)).map Session.standing
  cases c.participants.lookup name <;> rfl

theorem AsideAt.standing? {α : Type} {a : Act α} (h : AsideAt a c) :
    (a.run c).2.standing? name = c.standing? name :=
  congrArg (fun seated => (seated name).join) h

theorem standing?_updateSession {f : Session → Session} {g : Standing → Standing}
    (hf : ∀ s, (f s).standing = g s.standing) :
    ((updateSession name f).run c).2.standing? name = (c.standing? name).map g := by
  rw [updateSession, Cluster.standing?, seated_updateParticipant, if_pos rfl, Cluster.standing?,
    seated]
  cases c.participants.lookup name with
  | none => rfl
  | some p =>
    change (p.session.map f).map _ = (p.session.map _).map g
    rw [Option.map_map, Option.map_map]
    exact Option.map_congr fun s _ => hf s

/-- What goes before and leaves the participant where it stands does not matter. -/
theorem standing?_bind {α β : Type} {a : Act α} {f : α → Act β} {P : Option Standing → Prop}
    (ha : Aside a)
    (hf : ∀ x c', c'.standing? name = c.standing? name → P (((f x).run c').2.standing? name)) :
    P (((a >>= f).run c).2.standing? name) :=
  hf _ _ (ha c).standing?

/-- The role runs from now on. -/
theorem standing?_startCoordinator (c : Cluster) (name : String) (placement : Placement) :
    ((startCoordinator (.participant name) placement).run c).2.standing? name =
      (c.standing? name).map fun s => { s with leads := true } := by
  refine standing?_bind (P := (· = _)) aside_ringOf fun ring c₁ h₁ => ?_
  refine standing?_bind (P := (· = _)) aside_recover fun k c₂ h₂ => ?_
  refine standing?_bind (P := (· = _)) aside_note fun _ c₃ h₃ => ?_
  rw [← h₁, ← h₂, ← h₃]
  exact standing?_updateSession fun _ => rfl

theorem takeRole_run (name : String) (c : Cluster) :
    (takeRole name).run c = (match (participant? name c).1 with
      | none => pure ()
      | some p =>
        if p.session.any fun s => s.ring.isCoordinator && s.role.isNone then
          startCoordinator (.participant name) { factor := p.config.replicationFactor }
        else pure () : Act Unit).run c := rfl

theorem standing?_takeRole (h : c.standing? name = some s) :
    ((takeRole name).run c).2.standing? name = some s.promote := by
  obtain ⟨session, hsession, rfl⟩ := Option.map_eq_some_iff.mp (standing?_eq c name ▸ h)
  obtain ⟨p, hp, hjoined⟩ := Option.bind_eq_some_iff.mp hsession
  have hfound : (participant? name c).1 = some p := hp
  rw [takeRole_run, hfound]
  dsimp only
  rw [hjoined, Option.any_some]
  have hpromote : session.standing.promote =
      { session.standing with leads := session.role.isSome || session.ring.isCoordinator } := rfl
  split
  · rename_i hstarts
    rw [standing?_startCoordinator, h, Option.map_some, hpromote]
    rw [Bool.and_eq_true] at hstarts
    rw [hstarts.1, Bool.or_true]
  · rename_i hkeeps
    refine h.trans (congrArg some ?_)
    rw [hpromote]
    cases hrole : session.role with
    | none =>
      rw [hrole, Option.isNone_none, Bool.and_true, Bool.not_eq_true] at hkeeps
      simp [Session.standing, hrole, hkeeps]
    | some k => simp [Session.standing, hrole]

theorem forward_run (name : String) (token : Election.Token) (c : Cluster) :
    (forward name token).run c = (match (session? name c).1.bind (·.ring.successor?) with
      | some successor => do
        if ← send successor (.membership token.event) then return
        else updateSession name fun s => { s with elector := s.elector.abort }
      | none => updateSession name fun s => { s with elector := s.elector.abort } :
        Act Unit).run c := rfl

/-- A token that finds no taker ends the election in which it was sent. -/
theorem standing?_forward (h : c.standing? name = some s) (token : Election.Token) :
    ((forward name token).run c).2.standing? name = some s ∨
      ((forward name token).run c).2.standing? name = some s.abort := by
  have habort (c : Cluster) (hc : c.standing? name = some s) :
      ((updateSession name fun s => { s with elector := s.elector.abort }).run c).2.standing? name =
        some s.abort := by
    rw [standing?_updateSession (g := Standing.abort) fun _ => rfl, hc]
    rfl
  unfold forward
  refine standing?_bind (P := fun o => o = some s ∨ o = some s.abort) aside_session?
    fun session c₁ h₁ => ?_
  split
  · refine standing?_bind (P := fun o => o = some s ∨ o = some s.abort) aside_send
      fun sent c₂ h₂ => ?_
    split
    · exact .inl (h₂.trans (h₁.trans h))
    · exact .inr (habort c₂ (h₂.trans (h₁.trans h)))
  · exact .inr (habort c₁ (h₁.trans h))

/-- What is sent when a step of the election has been done. -/
theorem standing?_tell (h : c.standing? name = some s) (token? : Option Election.Token) :
    let tell : Act Unit := match token? with
      | some token => forward name token
      | none => pure ()
    (tell.run c).2.standing? name = some s ∨ (tell.run c).2.standing? name = some s.abort := by
  cases token? with
  | none => exact .inl h
  | some token => exact standing?_forward h token

theorem standing?_act (h : c.standing? name = some s) (action : Election.Action) :
    let s' := if action.isWon then s.promote else s
    ((act name action).run c).2.standing? name = some s' ∨
      ((act name action).run c).2.standing? name = some s'.abort := by
  intro s'
  unfold act
  by_cases hwon : action.isWon = true
  · simp only [hwon]
    refine standing?_tell (c := ((takeRole name).run c).2) ?_ _
    rw [standing?_takeRole h]
    exact congrArg some (if_pos hwon).symm
  · simp only [hwon]
    exact standing?_tell (h.trans (congrArg some (if_neg hwon).symm)) _

theorem fulfil_run (name : String) (duty : Session.Duty) (c : Cluster) :
    (fulfil name duty).run c = (match (session? name c).1 with
      | none => pure ()
      | some s =>
        if duty = .stop then updateParticipant name fun p => { p with session := none }
        else do
          updateSession name fun s' => { s' with elector := (Session.perform s.elector duty).1 }
          act name (Session.perform s.elector duty).2 : Act Unit).run c := rfl

theorem standing?_fulfil (h : c.standing? name = some s) (hduty : duty ≠ .stop) :
    ((fulfil name duty).run c).2.standing? name = some (s.after duty) ∨
      ((fulfil name duty).run c).2.standing? name = some (s.after duty).abort := by
  obtain ⟨session, hsession, rfl⟩ := Option.map_eq_some_iff.mp (standing?_eq c name ▸ h)
  rw [fulfil_run, hsession]
  simp only [hduty, ↓reduceIte]
  have hchanged : ((updateSession name fun s =>
      { s with elector := (Session.perform session.elector duty).1 }).run c).2.standing? name =
        some { session.standing with elector := (Session.perform session.elector duty).1 } := by
    rw [standing?_updateSession (g := fun s =>
      { s with elector := (Session.perform session.elector duty).1 }) fun _ => rfl, h]
    rfl
  exact standing?_act hchanged _

theorem standing?_fulfil_stop (h : c.standing? name = some s) :
    ((fulfil name .stop).run c).2.standing? name = none := by
  obtain ⟨session, hsession, rfl⟩ := Option.map_eq_some_iff.mp (standing?_eq c name ▸ h)
  rw [fulfil_run, hsession]
  simp only [↓reduceIte]
  rw [Cluster.standing?, seated_updateParticipant, if_pos rfl]
  cases c.participants.lookup name <;> rfl

/-! ### Whole events -/

/-- One duty, but for that to stop. -/
theorem sound_fulfil (h : c.standing? name = some s) (hs : s.Sound) (duty : Session.Duty)
    (hduty : duty ≠ .stop) :
    ∃ s', ((fulfil name duty).run c).2.standing? name = some s' ∧ s'.Sound ∧ s.Follows s' ∧
      s'.ring.members = (s.ring.changed duty).members := by
  have hmembers := s.members_after duty
  have hfollows := hs.follows_after duty
  obtain hafter | hafter := standing?_fulfil h hduty
  · exact ⟨_, hafter, hs.after duty, hfollows, hmembers⟩
  · exact ⟨_, hafter, (hs.after duty).abort, hfollows.abort, hmembers⟩

/-- A joiner replaces others, and nobody else is new. -/
theorem sound_replace (h : c.standing? name = some s) (hs : s.Sound) {stale : List Member}
    (hstale : ∀ k ∈ stale, k ≠ m) :
    ∃ s', (((stale.map Session.Duty.remove ++ [Session.Duty.add m]).forM
        (fulfil name)).run c).2.standing? name = some s' ∧
      s'.Sound ∧ s.Follows s' ∧ ∀ k ∈ s'.ring.members, k = m ∨ k ∈ s.ring.members := by
  induction stale generalizing c s with
  | nil =>
    obtain ⟨s', h', hs', hfollows, hmembers⟩ := sound_fulfil h hs (.add m) (by simp)
    refine ⟨s', h', hs', hfollows, fun k hk => ?_⟩
    rw [hmembers] at hk
    exact Ring.mem_add.mp hk
  | cons old stale ih =>
    obtain ⟨s₁, h₁, hs₁, hfollows₁, hmembers₁⟩ :=
      sound_fulfil h hs (.remove old) (by simp)
    obtain ⟨s', h', hs', hfollows', hnew⟩ := ih h₁ hs₁ fun k hk =>
      hstale k (List.mem_cons_of_mem old hk)
    refine ⟨s', h', hs', hfollows₁.trans hfollows' hs hs' fun k hin hout hback => ?_,
      fun k hk => (hnew k hk).imp_right fun hk => ?_⟩
    · -- Only the removed one is missing, and it is not the joiner.
      obtain rfl | hin' := hnew k hback
      · rw [hmembers₁, Ring.mem_changed_remove, not_and, Classical.not_imp] at hout
        exact hstale old List.mem_cons_self (hout hin).1.symm
      · exact hout hin'
    · rw [hmembers₁, Ring.mem_changed_remove] at hk
      exact hk.1

/-- A duty, if there is one. -/
theorem sound_forM (h : c.standing? name = some s) (hs : s.Sound) (duties : List Session.Duty)
    (hduties : duties = [] ∨ ∃ duty, duties = [duty])
    (hafter : ((duties.forM (fulfil name)).run c).2.standing? name = some s') :
    s'.Sound ∧ s.Follows s' := by
  obtain rfl | ⟨duty, rfl⟩ := hduties
  · cases h.symm.trans hafter
    exact ⟨hs, .refl s⟩
  · have hafter : ((fulfil name duty).run c).2.standing? name = some s' := hafter
    by_cases hduty : duty = .stop
    · subst hduty
      rw [standing?_fulfil_stop h] at hafter
      cases hafter
    · obtain ⟨found, hfound, hsound, hfollows, -⟩ := sound_fulfil h hs duty hduty
      cases hfound.symm.trans hafter
      exact ⟨hsound, hfollows⟩

theorem handleEvent_run (name : String) (event : Event) (c : Cluster) :
    (handleEvent name event).run c = (match (session? name c).1 with
      | none => pure ()
      | some s => (Session.duties s.ring event).forM (fulfil name) : Act Unit).run c := rfl

theorem sound_handleEvent (h : c.standing? name = some s) (hs : s.Sound) {event : Event}
    (hafter : ((handleEvent name event).run c).2.standing? name = some s') :
    s'.Sound ∧ s.Follows s' := by
  obtain ⟨session, hsession, rfl⟩ := Option.map_eq_some_iff.mp (standing?_eq c name ▸ h)
  rw [handleEvent_run, hsession] at hafter
  obtain ⟨kind, m⟩ := event
  cases kind with
  | join =>
    have hstale : ∀ k ∈ session.ring.toList.filter fun known => known.sameEndpoint m ∧ known ≠ m,
        k ≠ m := fun k hk => (of_decide_eq_true (List.mem_filter.mp hk).2).2
    obtain ⟨found, hfound, hsound, hfollows, -⟩ := sound_replace h hs hstale
    cases hfound.symm.trans hafter
    exact ⟨hsound, hfollows⟩
  | leave =>
    refine sound_forM h hs _ ?_ hafter
    by_cases hm : m = session.ring.owner <;> simp [Session.duties, hm]
  | crash =>
    refine sound_forM h hs _ ?_ hafter
    by_cases hm : m = session.ring.owner <;> simp [Session.duties, hm]
  | electionId => exact sound_forM h hs _ (.inr ⟨_, rfl⟩) hafter
  | elected => exact sound_forM h hs _ (.inr ⟨_, rfl⟩) hafter
  | ping => exact sound_forM h hs _ (.inl rfl) hafter
  | ack => exact sound_forM h hs _ (.inl rfl) hafter
  | memberListRequest => exact sound_forM h hs _ (.inl rfl) hafter
  | introducerCheckAlive => exact sound_forM h hs _ (.inl rfl) hafter

theorem reportCrash_run (name : String) (suspect : Member) (c : Cluster) :
    (reportCrash name suspect).run c = (match (session? name c).1 with
      | none => pure ()
      | some s => if s.ring.contains suspect then do
          for m in s.ring.toList do
            if m ≠ s.identity then write (.message m (.membership ⟨.crash, suspect⟩))
          fulfil name (.remove suspect)
        else pure () : Act Unit).run c := rfl

/-- A suspect is removed when all others have been told. -/
theorem sound_reportCrash (h : c.standing? name = some s) (hs : s.Sound) {suspect : Member}
    (hafter : ((reportCrash name suspect).run c).2.standing? name = some s') :
    s'.Sound ∧ s.Follows s' := by
  obtain ⟨session, hsession, rfl⟩ := Option.map_eq_some_iff.mp (standing?_eq c name ▸ h)
  rw [reportCrash_run, hsession] at hafter
  dsimp only at hafter
  split at hafter
  · revert hafter
    refine standing?_bind (P := fun o => o = some s' → s'.Sound ∧ session.standing.Follows s')
      (Aside.forIn fun m _ => ?_) fun _ c₁ h₁ hafter => ?_
    · exact .ite (aside_write.bind fun _ => .pure _) (.pure _)
    · obtain ⟨found, hfound, hsound, hfollows, -⟩ :=
        sound_fulfil (h₁.trans h) hs (.remove suspect) (by simp)
      cases hfound.symm.trans hafter
      exact ⟨hsound, hfollows⟩
  · cases h.symm.trans hafter
    exact ⟨hs, .refl _⟩

/-! ### The life of a session -/

/-- Something that a participant has to deal with. -/
inductive Matter
  | event (event : Event)
  /-- The failure detector has heard nothing of a member. -/
  | suspect (m : Member)
  /-- Nobody is known to lead. -/
  | election
  /-- A token goes to the successor, or fails to. -/
  | forward (token : Election.Token)

def Matter.handle (name : String) : Matter → Act Unit
  | event e => handleEvent name e
  | suspect m => reportCrash name m
  | election => fulfil name .startElection
  | forward token => Cluster.forward name token

/-- From a group to what it becomes while a participant deals with one matter after the other. In
between anything may happen in the group that leaves the participant where it stands. -/
inductive Lives (name : String) : Cluster → Cluster → Prop
  | refl (c : Cluster) : Lives name c c
  | deal {c c' : Cluster} (h : Lives name c c') (matter : Matter) :
      Lives name c ((matter.handle name).run c').2
  | elsewhere {c c' c'' : Cluster} (h : Lives name c c')
      (same : c''.standing? name = c'.standing? name) : Lives name c c''

theorem sound_handle (h : c.standing? name = some s) (hs : s.Sound) {matter : Matter}
    (hafter : ((matter.handle name).run c).2.standing? name = some s') :
    s'.Sound ∧ s.Follows s' := by
  cases matter with
  | event e => exact sound_handleEvent h hs hafter
  | suspect m => exact sound_reportCrash h hs hafter
  | election => exact sound_forM h hs [.startElection] (.inr ⟨_, rfl⟩) hafter
  | forward token =>
    obtain hsame | habort := standing?_forward h token
    · cases hsame.symm.trans hafter
      exact ⟨hs, .refl s⟩
    · cases habort.symm.trans hafter
      exact ⟨hs.abort, (Standing.Follows.refl s).abort⟩

/-- Whoever has stopped does nothing any more. -/
theorem standing?_handle_none (h : c.standing? name = none) (matter : Matter) :
    ((matter.handle name).run c).2.standing? name = none := by
  have hsession : (session? name c).1 = none := Option.map_eq_none_iff.mp (standing?_eq c name ▸ h)
  cases matter with
  | event e =>
    change ((handleEvent name e).run c).2.standing? name = none
    rw [handleEvent_run, hsession]
    exact h
  | suspect m =>
    change ((reportCrash name m).run c).2.standing? name = none
    rw [reportCrash_run, hsession]
    exact h
  | election =>
    change ((fulfil name .startElection).run c).2.standing? name = none
    rw [fulfil_run, hsession]
    exact h
  | forward token =>
    change ((forward name token).run c).2.standing? name = none
    rw [forward_run, hsession]
    exact (standing?_updateSession (g := Standing.abort) fun _ => rfl).trans (by rw [h]; rfl)

namespace Lives

variable {c' c'' : Cluster}

theorem trans (h : Lives name c c') (h' : Lives name c' c'') : Lives name c c'' := by
  induction h' with
  | refl => exact h
  | deal _ matter ih => exact ih.deal matter
  | elsewhere _ same ih => exact ih.elsewhere same

/-- Until it stops, a participant stays sound and keeps its owner, and goes on leading. -/
theorem sound (hlife : Lives name c c') (h : c.standing? name = some s) (hs : s.Sound)
    (h' : c'.standing? name = some s') :
    s'.Sound ∧ s'.ring.owner = s.ring.owner ∧
      (s.ring.coordinator = some s.ring.owner → s'.ring.coordinator = some s.ring.owner) := by
  induction hlife generalizing s' with
  | refl =>
    cases h.symm.trans h'
    exact ⟨hs, rfl, id⟩
  | elsewhere _ same ih => exact ih (same.symm.trans h')
  | @deal c' before matter ih =>
    cases hbefore : c'.standing? name with
    | none =>
      rw [standing?_handle_none hbefore] at h'
      cases h'
    | some s₁ =>
      obtain ⟨hs₁, howner, hlead⟩ := ih hbefore
      obtain ⟨hs', hfollows⟩ := sound_handle hbefore hs₁ h'
      refine ⟨hs', hfollows.owner.trans howner, fun hleads => ?_⟩
      rw [← howner]
      exact hfollows.leads hs' (howner ▸ hlead hleads)

end Lives

/-- How a session begins. -/
theorem sound_begin {identity : Member} {snapshot : Option Snapshot} :
    (Standing.promote ⟨{ ring := Session.initialRing identity snapshot }, false⟩).Sound where
  owner := by
    change (Session.initialRing identity snapshot).owner ∈ _
    rw [Session.initialRing_owner]
    exact Session.owner_mem_initialRing identity snapshot
  coordinator _ hx := Session.coordinator_mem_initialRing hx
  leads := by
    rw [Standing.promote, Bool.false_or]
    exact Standing.isCoordinator_iff
  calm _ := rfl

/-- **The invariants of a session.** A session begins alone or from any snapshot, and takes the role
if its ring names it. Whatever it deals with from then on, its owner and the coordinator that it
knows are members of its ring, the role runs just where the ring names the owner, and no election is
in progress while a coordinator is known. A coordinator is given up only in a step that removes it,
who is left alone by a removal leads, and whoever leads does so until it stops. -/
theorem session_stays_sound {identity : Member} {snapshot : Option Snapshot} {c' : Cluster}
    (hbegin : c.standing? name =
      some ⟨{ ring := Session.initialRing identity snapshot }, false⟩)
    (hlife : Lives name ((takeRole name).run c).2 c') (h : c'.standing? name = some s) :
    s.ring.owner = identity ∧ s.Sound ∧
      (∀ (matter : Matter) (s' : Standing),
        ((matter.handle name).run c').2.standing? name = some s' → s.Follows s') ∧
      (s.ring.coordinator = some identity → ∀ (c'' : Cluster) (s' : Standing),
        Lives name c' c'' → c''.standing? name = some s' →
          s'.ring.coordinator = some identity) := by
  obtain ⟨hs, howner, -⟩ := hlife.sound (standing?_takeRole hbegin) sound_begin h
  have howner : s.ring.owner = identity := howner.trans (Session.initialRing_owner _ _)
  refine ⟨howner, hs, fun matter s' h' => (sound_handle h hs h').2, ?_⟩
  intro hleads c'' s' hlife' h'
  rw [← howner] at hleads ⊢
  exact (hlife'.sound h hs h').2.2 hleads

/-- A member that joined another one finds it silent, and leads. -/
theorem survivor_stays_sound :
    let me : Member := ⟨"a", 1, 1⟩
    let other : Member := ⟨"b", 1, 1⟩
    let session : Session :=
      { elector := { ring := Session.initialRing me (some ⟨[other], some other⟩) }
        store := { root := [] }
        detector := { owner := me } }
    let c : Cluster := { disk := {}, participants := [("me", { config := {}, session })] }
    let c' := ((Matter.handle "me" (.suspect other)).run ((takeRole "me").run c).2).2
    c.standing? "me" = some ⟨session.elector, false⟩ ∧
      ∃ s, c'.standing? "me" = some s ∧ s.Sound ∧ s.ring.coordinator = some me ∧
        ∀ c'' s', Lives "me" c' c'' → c''.standing? "me" = some s' →
          s'.ring.coordinator = some me := by
  intro me other session c c'
  have hbegin : c.standing? "me" = some ⟨session.elector, false⟩ := rfl
  have hlife : Lives "me" ((takeRole "me").run c).2 c' := .deal (.refl _) (.suspect other)
  obtain ⟨s, hs⟩ : ∃ s, c'.standing? "me" = some s :=
    Option.isSome_iff_exists.mp (by decide +kernel)
  have hleads : (c'.standing? "me").map (·.ring.coordinator) = some (some me) := by decide +kernel
  rw [hs, Option.map_some, Option.some.injEq] at hleads
  obtain ⟨-, hsound, -, hkept⟩ := session_stays_sound hbegin hlife hs
  exact ⟨hbegin, s, hs, hsound, hleads, hkept hleads⟩

end ReplicaRing.Cluster
