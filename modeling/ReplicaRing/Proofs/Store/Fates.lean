import ReplicaRing.Proofs.Store.Orderly

/-!
# What becomes of receptions

A deletion that meets a name on its way in is remembered until the reception of that name has ended,
and no longer. So a reception ends well exactly if no deletion met it, however many others are under
way; and what it has brought stays until it is deleted.
-/
namespace ReplicaRing.Traffic

open Disk

variable {t : Traffic} {i : Nat} {r : Reception} {name : String} {content whole : Bytes}
  {event : Event} {events : List Event} {a : Act} {acts : List Act} {stage : Stage} {route : Route}
  {announced : Option UInt64}

@[simp] theorem run_nil : t.run [] = t := rfl

@[simp] theorem run_cons : t.run (event :: events) = (t.step event).run events := rfl

/-- What has begun keeps its place, and only its own acts change it. -/
theorem here_step (hr : t.receptions[i]? = some r) (hother : ∀ a, event ≠ .act i a) :
    (t.step event).receptions[i]? = some r := by
  obtain ⟨hi, -⟩ := List.getElem?_eq_some_iff.mp hr
  cases event with
  | serve request =>
    obtain ⟨-, heq⟩ | ⟨-, heq⟩ := t.serve_eq request <;> rw [step, heq] <;> exact hr
  | begin route other =>
    obtain ⟨-, heq⟩ | ⟨-, answer, -, heq⟩ := t.begin_eq route other <;> rw [step, heq] <;>
      exact (List.getElem?_append_left hi).trans hr
  | act j a =>
    have hj : j ≠ i := fun heq => hother a (heq ▸ rfl)
    obtain heq | ⟨r', store, disk, stage, -, -, heq⟩ := t.act_eq j a <;> rw [step, heq]
    · exact hr
    · exact (List.getElem?_set_ne hj).trans hr

/-! ### What is served -/

/-- What is served stays until it is deleted. -/
theorem serves_step (h : t.Orderly) (hserves : t.store.Serves t.disk name content)
    (hkept : event.deletes name = false) :
    (t.step event).store.Serves (t.step event).disk name content := by
  have haccepted := hserves.accepted
  cases event with
  | serve request =>
    obtain ⟨-, heq⟩ | ⟨hkind, heq⟩ := t.serve_eq request <;> rw [step, heq]
    · exact hserves
    · have hmissed : StoredName.belongsTo name request.file = false := by
        simpa [Event.deletes, hkind] using hkept
      refine hserves.touched (h.touches_delete request.file).1 ?_ rfl
        (Store.mem_files_delete (d := t.disk).mpr ⟨hserves.stored, hmissed⟩)
      simp only [List.mem_map, not_exists, not_and, Store.place_eq_iff]
      rintro other hother rfl
      rw [(mem_doomed.mp hother).2] at hmissed
      cases hmissed
  | begin route other =>
    obtain ⟨-, heq⟩ | ⟨-, answer, -, heq⟩ := t.begin_eq route other <;> rw [step, heq]
    · exact ⟨hserves.stored, haccepted, hserves.found⟩
    · exact hserves
  | act i a =>
    obtain heq | ⟨r, store, disk, stage, hr, hacts, heq⟩ := t.act_eq i a <;> rw [step, heq]
    · exact hserves
    · have hturns := h.turns hr hacts
      by_cases hname : name = r.name
      · -- Its reception can only end.
        subst hname
        obtain hstage | ⟨answer, hstage⟩ := (h.fares i r hr).of_served hserves.stored
        · obtain ⟨rfl, rfl, -⟩ := hacts.of_decided hstage
          exact ⟨hserves.stored, haccepted, hserves.found⟩
        · have hunderway := hr.2
          rw [hstage] at hunderway
          cases hunderway
      · exact hserves.touched hturns.touches
          (Store.place_not_mem (Store.not_isPartial_of_accepts haccepted) hname) hturns.root
          ((hturns.files name hname).mpr hserves.stored)

theorem serves_run (h : t.Orderly) (hserves : t.store.Serves t.disk name content)
    (hkept : ∀ event ∈ events, event.deletes name = false) :
    (t.run events).store.Serves (t.run events).disk name content := by
  induction events generalizing t with
  | nil => exact hserves
  | cons event events ih =>
    rw [List.forall_mem_cons] at hkept
    exact ih (h.step event) (serves_step h hserves hkept.1) hkept.2

/-- A request for a name is answered with this content. -/
def Answers (t : Traffic) (name : String) (content : Bytes) : Prop :=
  t.store.get t.disk name =
    { reply := some { FileMessage.ok with size := some (UInt64.ofNat content.length) }
      body := content
      notes := [.served name content.length] }

/-! ### Receptions that a deletion meets -/

/-- A reception ends in a step. -/
def Ends (t : Traffic) (event : Event) (i : Nat) (answer : FileKind) : Prop :=
  (∃ r, t.Underway i r) ∧
    ∃ r, (t.step event).receptions[i]? = some r ∧ r.stage = .ended answer

/-- A reception will not end well. -/
structure Cancelled (t : Traffic) (i : Nat) (r : Reception) : Prop where
  here : t.receptions[i]? = some r
  undecided : r.stage ≠ .decided .ok
  unkept : r.stage ≠ .ended .ok
  noted : r.stage.unpublished = true → r.name ∈ t.store.cancelled

theorem underway_of_unpublished (h : stage.unpublished = true) : stage.underway = true := by
  cases stage <;> first | rfl | cases h

/-- No act of a cancelled reception makes it end well. -/
theorem Cancelled.of_acts {s' : Store} {d' : Disk} (h : t.Cancelled i r)
    (hacts : r.Acts t.store t.disk a s' d' stage) :
    stage ≠ .decided .ok ∧ stage ≠ .ended .ok ∧
      (stage.unpublished = true → r.name ∈ s'.cancelled) := by
  have hnoted (hopen : r.stage.unpublished = true) (_ : stage.unpublished = true) :
      r.name ∈ t.store.cancelled := h.noted hopen
  have hfailed (hopen : r.stage.unpublished = true) :
      r.route.failed ≠ .decided .ok ∧ r.route.failed ≠ .ended .ok ∧
        (r.route.failed.unpublished = true → r.name ∈ t.store.cancelled) := by
    refine ⟨?_, ?_, fun _ => h.noted hopen⟩ <;> unfold Route.failed <;> cases r.route <;> nofun
  cases hacts with
  | offered hstage hs => exact ⟨nofun, nofun, hnoted (by rw [hstage]; rfl)⟩
  | refused hstage hs => exact hfailed (by rw [hstage]; rfl)
  | arrived bytes hstage => exact ⟨nofun, nofun, hnoted (by rw [hstage]; rfl)⟩
  | completed hstage hf => exact ⟨nofun, nofun, hnoted (by rw [hstage]; rfl)⟩
  | lost hstage hf => exact hfailed (by rw [hstage]; rfl)
  | aborted hstage => exact hfailed (by rw [hstage]; rfl)
  | stalled hstage => exact hfailed (by rw [hstage]; rfl)
  | published hstage =>
    have hdiscarded : ¬ (t.store.publish t.disk r.name).2.2 = true := fun hkept =>
      Store.publish_kept.mp hkept (h.noted (by rw [hstage]; rfl))
    rw [if_neg hdiscarded]
    exact ⟨nofun, nofun, nofun⟩
  | givenUp hstage => exact ⟨nofun, nofun, nofun⟩
  | finished hstage =>
    refine ⟨nofun, fun heq => h.undecided ?_, nofun⟩
    cases heq
    exact hstage

theorem Cancelled.step (ht : t.Orderly) (h : t.Cancelled i r) (event : Event) :
    ∃ r', r'.name = r.name ∧ (t.step event).Cancelled i r' := by
  have hunderway (hopen : r.stage.unpublished = true) : t.Underway i r :=
    ⟨h.here, underway_of_unpublished hopen⟩
  have hother (haway : ∀ a, event ≠ .act i a)
      (hnoted : r.stage.unpublished = true → r.name ∈ (t.step event).store.cancelled) :
      ∃ r', r'.name = r.name ∧ (t.step event).Cancelled i r' :=
    ⟨r, rfl, here_step h.here haway, h.undecided, h.unkept, hnoted⟩
  cases event with
  | serve request =>
    refine hother nofun fun hopen => ?_
    obtain ⟨-, heq⟩ | ⟨-, heq⟩ := t.serve_eq request <;> rw [Traffic.step, heq]
    · exact h.noted hopen
    · exact (Store.mem_cancelled_delete (d := t.disk)).mpr (.inl (h.noted hopen))
  | begin route name =>
    refine hother nofun fun hopen => ?_
    obtain ⟨⟨-, -, hfree⟩, heq⟩ | ⟨-, answer, -, heq⟩ := t.begin_eq route name <;>
      rw [Traffic.step, heq]
    · refine Store.mem_cancelled_beginReceiving.mpr ⟨?_, h.noted hopen⟩
      rintro rfl
      exact hfree (ht.cancelled _ (h.noted hopen))
    · exact h.noted hopen
  | act j a =>
    by_cases hj : j = i
    · subst hj
      obtain heq | ⟨r', store, disk, stage, hr', hacts, heq⟩ := t.act_eq j a <;>
        rw [Traffic.step, heq]
      · exact ⟨r, rfl, h⟩
      · cases hr'.1.symm.trans h.here
        obtain ⟨hi, -⟩ := List.getElem?_eq_some_iff.mp h.here
        obtain ⟨hundecided, hunkept, hnoted⟩ := h.of_acts hacts
        exact ⟨{ r with stage }, rfl, List.getElem?_set_self hi, hundecided, hunkept, hnoted⟩
    · refine hother (fun a heq => hj (Event.act.inj heq).1) fun hopen => ?_
      obtain heq | ⟨r', store, disk, stage, hr', hacts, heq⟩ := t.act_eq j a <;>
        rw [Traffic.step, heq]
      · exact h.noted hopen
      · refine ((ht.turns hr' hacts).cancelled r.name fun hname => hj ?_).mpr (h.noted hopen)
        exact ht.distinct j i r' r hr' (hunderway hopen) hname.symm

theorem Cancelled.run (ht : t.Orderly) (h : t.Cancelled i r) (events : List Event) :
    ∃ r', r'.name = r.name ∧ (t.run events).Cancelled i r' := by
  induction events generalizing t r with
  | nil => exact ⟨r, rfl, h⟩
  | cons event events ih =>
    obtain ⟨r', hname, h'⟩ := h.step ht event
    obtain ⟨r'', hname', h''⟩ := ih (ht.step event) h'
    exact ⟨r'', hname'.trans hname, h''⟩

/-- A deletion meets a name on its way in. -/
theorem cancelled_of_deletes (h : t.Orderly) (hr : t.receptions[i]? = some r)
    (hopen : r.stage.unpublished = true) (hdeletes : event.deletes r.name = true) :
    (t.step event).Cancelled i r := by
  cases event with
  | serve request =>
    simp only [Event.deletes, Bool.and_eq_true, beq_iff_eq] at hdeletes
    have hreceiving : r.name ∈ t.store.receiving :=
      (h.listed _).mpr ⟨i, r, ⟨hr, underway_of_unpublished hopen⟩, rfl⟩
    obtain ⟨hkind, -⟩ | ⟨-, heq⟩ := t.serve_eq request
    · exact absurd hdeletes.1 hkind
    · rw [step, heq]
      refine ⟨hr, ?_, ?_, fun _ => (Store.mem_cancelled_delete (d := t.disk)).mpr
        (.inr ⟨hreceiving, hdeletes.2⟩)⟩ <;>
        · intro hstage
          rw [hstage] at hopen
          cases hopen
  | begin route name => cases hdeletes
  | act j a => cases hdeletes

/-- How a reception ends. -/
theorem Ends.eq {answer : FileKind} (hends : t.Ends event i answer) (hr : t.Underway i r) :
    (r.stage = .asking ∧ answer = .fail ∨ r.stage = .decided answer) ∧
      (t.step event).store = t.store.endReceiving r.name ∧ (t.step event).disk = t.disk := by
  obtain ⟨-, r', hr', hended⟩ := hends
  obtain ⟨hi, -⟩ := List.getElem?_eq_some_iff.mp hr.1
  have hchanged (hsame : (t.step event).receptions[i]? = some r) : False := by
    have hunderway := hr.2
    cases hr'.symm.trans hsame
    rw [hended] at hunderway
    cases hunderway
  obtain ⟨a, rfl⟩ : ∃ a, event = .act i a := by
    by_contra hother
    exact hchanged (here_step hr.1 fun a heq => hother ⟨a, heq⟩)
  obtain heq | ⟨r₁, store, disk, stage, hr₁, hacts, heq⟩ := t.act_eq i a <;>
    rw [step, heq] at hchanged hr' ⊢
  · exact (hchanged hr.1).elim
  · cases hr₁.1.symm.trans hr.1
    rw [List.getElem?_set_self hi, Option.some.injEq] at hr'
    subst hr'
    cases hacts with
    | givenUp hstage =>
      cases hended
      exact ⟨.inl ⟨hstage, rfl⟩, rfl, rfl⟩
    | finished hstage =>
      cases hended
      exact ⟨.inr hstage, rfl, rfl⟩
    | refused | lost | aborted | stalled =>
      obtain hfailed | hfailed := unpublished_failed r.route <;> rw [hfailed] at hended <;>
        cases hended
    | _ => cases hended

/-- When a cancelled reception ends, nothing is left of it. -/
theorem Cancelled.ends {answer : FileKind} (ht : t.Orderly) (h : t.Cancelled i r)
    (hends : t.Ends event i answer) :
    answer ≠ .ok ∧ (t.step event).store.Lacks (t.step event).disk r.name := by
  obtain ⟨r', hr⟩ := hends.1
  cases hr.1.symm.trans h.here
  obtain ⟨hstage, hstore, hdisk⟩ := hends.eq hr
  have hfares := ht.fares i r hr
  unfold Reception.Fares at hfares
  have hlacks : answer ≠ .ok ∧ t.store.Lacks t.disk r.name := by
    obtain ⟨hasking, rfl⟩ | hdecided := hstage
    · rw [hasking] at hfares
      exact ⟨nofun, hfares⟩
    · rw [hdecided] at hfares
      have hanswer : answer ≠ .ok := fun hok => h.undecided (hok ▸ hdecided)
      exact ⟨hanswer, hfares hanswer⟩
  rw [hstore, hdisk]
  exact ⟨hlacks.1, hlacks.2.unserved, hlacks.2.gone⟩

/-! ### Receptions that no deletion meets -/

theorem Reception.Acts.cancelled_subset {s s' : Store} {d d' : Disk}
    (h : r.Acts s d a s' d' stage) (hmem : name ∈ s'.cancelled) : name ∈ s.cancelled := by
  cases h with
  | published hstage =>
    unfold Store.publish at hmem
    split at hmem
    · exact (Std.ExtTreeSet.mem_erase.mp hmem).2
    · exact hmem
  | givenUp hstage => exact (Store.mem_cancelled_endReceiving.mp hmem).2
  | finished hstage => exact (Store.mem_cancelled_endReceiving.mp hmem).2
  | _ => exact hmem

/-- A name is noted for deletion only by an event that deletes it. -/
theorem spared_step (h : name ∉ t.store.cancelled) (hkept : event.deletes name = false) :
    name ∉ (t.step event).store.cancelled := by
  cases event with
  | serve request =>
    obtain ⟨-, heq⟩ | ⟨hkind, heq⟩ := t.serve_eq request <;> rw [step, heq]
    · exact h
    · intro hmem
      obtain hmem | ⟨-, hhit⟩ := (Store.mem_cancelled_delete (d := t.disk)).mp hmem
      · exact h hmem
      · simp [Event.deletes, hkind, hhit] at hkept
  | begin route other =>
    obtain ⟨-, heq⟩ | ⟨-, answer, -, heq⟩ := t.begin_eq route other <;> rw [step, heq]
    · exact fun hmem => h (Store.mem_cancelled_beginReceiving.mp hmem).2
    · exact h
  | act j a =>
    obtain heq | ⟨r', store, disk, stage, hr', hacts, heq⟩ := t.act_eq j a <;> rw [step, heq]
    · exact h
    · exact fun hmem => h (hacts.cancelled_subset hmem)

theorem spared_run (h : name ∉ t.store.cancelled)
    (hkept : ∀ event ∈ events, event.deletes name = false) :
    name ∉ (t.run events).store.cancelled := by
  induction events generalizing t with
  | nil => exact h
  | cons event events ih =>
    rw [List.forall_mem_cons] at hkept
    exact ih (spared_step h hkept.1) hkept.2

/-- What is left to do in a stage until the whole body is stored and the reception has ended. -/
def Remains (announced : Option UInt64) (whole : Bytes) : Stage → List Act → Prop
  | .asking, acts => ∃ pieces : List Bytes, pieces.flatten = whole ∧
      acts = .offer announced :: (pieces.map .arrive ++ [.close, .publish, .finish])
  | .collecting size _ body, acts => size = announced ∧ ∃ pieces : List Bytes,
      body ++ pieces.flatten = whole ∧ acts = pieces.map .arrive ++ [.close, .publish, .finish]
  | .complete body, acts => body = whole ∧ acts = [.publish, .finish]
  | .decided answer, acts => answer = .ok ∧ acts = [.finish]
  | .ended answer, acts => answer = .ok ∧ acts = []

theorem Remains.eq_ended (h : Remains announced whole stage []) : stage = .ended .ok := by
  cases stage with
  | asking => obtain ⟨pieces, -, hacts⟩ := h; cases hacts
  | collecting size inflow body =>
    obtain ⟨-, pieces, -, hacts⟩ := h
    exact absurd hacts.symm (List.append_ne_nil_of_right_ne_nil _ (List.cons_ne_nil _ _))
  | complete body => cases h.2
  | decided answer => cases h.2
  | ended answer => rw [h.1]

/-- A reception will end well if it acts so, and nothing deletes its name. -/
structure Thrives (t : Traffic) (i : Nat) (r : Reception) (announced : Option UInt64)
    (whole : Bytes) (acts : List Act) : Prop where
  here : t.receptions[i]? = some r
  remains : Remains announced whole r.stage acts
  spared : r.name ∉ t.store.cancelled
  served : r.stage.unpublished = false → t.store.Serves t.disk r.name whole

/-- Whatever else happens leaves it so. -/
theorem Thrives.step_other (ht : t.Orderly) (h : t.Thrives i r announced whole acts)
    (hother : ∀ a, event ≠ .act i a) (hkept : event.deletes r.name = false) :
    (t.step event).Thrives i r announced whole acts := by
  exact ⟨here_step h.here hother, h.remains, spared_step h.spared hkept,
    fun hclosed => serves_step ht (h.served hclosed) hkept⟩

theorem Thrives.next {store : Store} {disk : Disk} (hr : t.receptions[i]? = some r)
    (ha : r.act t.store t.disk a = some (store, disk, stage))
    (hremains : Remains announced whole stage acts)
    (hspared : r.name ∉ store.cancelled)
    (hserved : stage.unpublished = false → store.Serves disk r.name whole) :
    (t.step (.act i a)).Thrives i { r with stage } announced whole acts := by
  obtain ⟨hi, -⟩ := List.getElem?_eq_some_iff.mp hr
  have heq : t.step (.act i a) =
      { store, disk, receptions := t.receptions.set i { r with stage } } := by
    unfold step act
    simp only [hr, ha]
  rw [heq]
  exact ⟨List.getElem?_set_self hi, hremains, hspared, hserved⟩

/-- Its next act brings it on. -/
theorem Thrives.step_self (ht : t.Orderly) (h : t.Thrives i r announced whole (a :: acts))
    (hfits : Fits (PartialName.ofName r.name)) (hwhole : Announces announced whole.length) :
    ∃ stage, (t.step (.act i a)).Thrives i { r with stage } announced whole acts := by
  obtain ⟨name, route, stage⟩ := r
  obtain ⟨here, hremains, hspared, hserved⟩ := h
  have hfares (hunderway : stage.underway = true) := ht.fares i _ ⟨here, hunderway⟩
  have haccepted (hunderway : stage.underway = true) : Store.accepts name = true :=
    ht.accepted i ⟨name, route, stage⟩ ⟨here, hunderway⟩
  cases stage with
  | asking =>
    obtain ⟨pieces, rfl, hacts⟩ := hremains
    obtain ⟨rfl, rfl⟩ := List.cons.inj hacts
    obtain ⟨d', inflow, hs⟩ : ∃ d' inflow,
        Transfer.start t.disk (t.store.path name) = (d', .ok inflow) :=
      ⟨_, _, Transfer.start_eq_ok.mpr
        ⟨_, Store.fileTarget_inTransit (haccepted rfl) hfits ht.root (ht.files _), rfl, rfl⟩⟩
    exact ⟨_, .next here (act_offer hs) ⟨rfl, pieces, rfl, rfl⟩ hspared nofun⟩
  | collecting size inflow body =>
    obtain ⟨rfl, pieces, rfl, hacts⟩ := hremains
    cases pieces with
    | nil =>
      obtain ⟨rfl, rfl⟩ := List.cons.inj hacts
      obtain ⟨-, hreceives⟩ := hfares rfl
      rw [List.flatten_nil, List.append_nil] at hwhole ⊢
      obtain ⟨d', hf⟩ := Transfer.exists_finish ht.tree hreceives.collects hreceives.reached hwhole
        (Store.fileTarget_path (haccepted rfl) (Store.fits_of_ofName hfits) ht.root (ht.files _))
      exact ⟨_, .next here (act_close hf) ⟨rfl, rfl⟩ hspared nofun⟩
    | cons piece pieces =>
      obtain ⟨rfl, rfl⟩ := List.cons.inj hacts
      exact ⟨_, .next here rfl ⟨rfl, pieces, by simp, rfl⟩ hspared nofun⟩
  | complete body =>
    obtain ⟨rfl, hacts⟩ := hremains
    obtain ⟨rfl, rfl⟩ := List.cons.inj hacts
    have hkept := Store.publish_of_kept (d := t.disk) hspared
    have ha : Reception.act ⟨name, route, .complete body⟩ t.store t.disk .publish =
        some ({ t.store with files := t.store.files.insert name }, t.disk, .decided .ok) := by
      unfold Reception.act
      simp only [hkept, ↓reduceIte]
    exact ⟨_, .next here ha ⟨rfl, rfl⟩ hspared fun _ =>
      ⟨Std.ExtTreeSet.mem_insert_self, haccepted rfl, (hfares rfl).2⟩⟩
  | decided answer =>
    obtain ⟨rfl, hacts⟩ := hremains
    obtain ⟨rfl, rfl⟩ := List.cons.inj hacts
    have hserves := hserved rfl
    exact ⟨.ended .ok, .next here rfl ⟨rfl, rfl⟩
      (fun hmem => hspared (Store.mem_cancelled_endReceiving.mp hmem).2)
      fun _ => ⟨hserves.stored, hserves.accepted, hserves.found⟩⟩
  | ended answer => cases hremains.2

theorem Thrives.run (ht : t.Orderly) (h : t.Thrives i r announced whole (actsOf i events))
    (hfits : Fits (PartialName.ofName r.name)) (hwhole : Announces announced whole.length)
    (hkept : ∀ event ∈ events, event.deletes r.name = false) :
    ∃ stage, (t.run events).Thrives i { r with stage } announced whole [] := by
  induction events generalizing t r with
  | nil => exact ⟨r.stage, h⟩
  | cons event events ih =>
    rw [List.forall_mem_cons] at hkept
    by_cases hself : ∃ a, event = .act i a
    · obtain ⟨a, rfl⟩ := hself
      have hacts : actsOf i (.act i a :: events) = a :: actsOf i events := by simp [actsOf]
      rw [hacts] at h
      obtain ⟨stage, h'⟩ := h.step_self ht hfits hwhole
      obtain ⟨stage, h''⟩ := ih (ht.step _) h' hfits hkept.2
      exact ⟨stage, h''⟩
    · have hacts : actsOf i (event :: events) = actsOf i events := by
        cases event with
        | act j a =>
          have hj : j ≠ i := fun heq => hself ⟨a, heq ▸ rfl⟩
          simp [actsOf, hj]
        | _ => rfl
      rw [hacts] at h
      exact ih (ht.step event) (h.step_other ht (fun a heq => hself ⟨a, heq⟩) hkept.1) hfits hkept.2

/-! ### The fates of all receptions -/

theorem Orderly.mem_receiving_iff (h : t.Orderly) : name ∉ t.store.receiving ↔ t.Idle name := by
  rw [h.listed]
  exact ⟨fun hnone i r hr hname => hnone ⟨i, r, hr, hname⟩,
    fun hidle ⟨i, r, hr, hname⟩ => hidle i r hr hname⟩

theorem begins_iff (h : t.Orderly) :
    (t.step (.begin route name)).receptions[t.receptions.length]? = some ⟨name, route, .asking⟩ ↔
      Store.accepts name = true ∧ name ∉ t.store.files ∧ t.Idle name := by
  rw [← h.mem_receiving_iff]
  obtain ⟨hfree, heq⟩ | ⟨hbusy, answer, -, heq⟩ := t.begin_eq route name <;>
    rw [step, heq, List.getElem?_concat_length]
  · exact iff_of_true rfl hfree
  · exact iff_of_false nofun hbusy

/-- What has ended stays so. -/
theorem ended_step (hr : t.receptions[i]? = some r) (hended : r.stage.underway = false) :
    (t.step event).receptions[i]? = some r := by
  by_cases hself : ∃ a, event = .act i a
  · obtain ⟨a, rfl⟩ := hself
    obtain heq | ⟨r', store, disk, stage, hr', -, -⟩ := t.act_eq i a
    · rw [step, heq]
      exact hr
    · cases hr.symm.trans hr'.1
      rw [hr'.2] at hended
      cases hended
  · exact here_step hr fun a heq => hself ⟨a, heq⟩

theorem ended_run (hr : t.receptions[i]? = some r) (hended : r.stage.underway = false) :
    (t.run events).receptions[i]? = some r := by
  induction events generalizing t with
  | nil => exact hr
  | cons event events ih => exact ih (ended_step hr hended)

/-- A reception that has begun and was not deleted is not noted for deletion. -/
theorem spared_of_asking (hasking : ((t.step (.begin route name)).run events).receptions[
      t.receptions.length]? = some ⟨name, route, .asking⟩)
    (hkept : ∀ event ∈ events, event.deletes name = false) :
    name ∉ ((t.step (.begin route name)).run events).store.cancelled := by
  obtain ⟨-, heq⟩ | ⟨-, answer, -, heq⟩ := t.begin_eq route name
  · refine spared_run ?_ hkept
    rw [step, heq]
    exact fun hmem => (Store.mem_cancelled_beginReceiving.mp hmem).1 rfl
  · have hended : (t.step (.begin route name)).receptions[t.receptions.length]? =
        some ⟨name, route, .ended answer⟩ := by
      rw [step, heq]
      exact List.getElem?_concat_length
    cases hasking.symm.trans (ended_run hended rfl)

/-- When nothing is on its way, the folder has what is served. -/
theorem Orderly.quiet (h : t.Orderly) (hquiet : ∀ i r, ¬ t.Underway i r) :
    t.store.receiving = ∅ ∧ t.store.cancelled = ∅ ∧
      ∀ name, name ∈ t.store.files ↔ PartialName.isPartial name = false ∧
        ∃ content, (name, .file content) ∈ t.disk.children t.store.root := by
  have hreceiving (name : String) : name ∉ t.store.receiving :=
    h.mem_receiving_iff.mpr fun i r hr => absurd hr (hquiet i r)
  refine ⟨Std.ExtTreeSet.ext_mem fun name => ?_, Std.ExtTreeSet.ext_mem fun name => ?_,
    fun name => ?_⟩
  · exact iff_of_false (hreceiving name) Std.ExtTreeSet.not_mem_empty
  · exact iff_of_false (fun hmem => hreceiving name (h.cancelled name hmem))
      Std.ExtTreeSet.not_mem_empty
  · simp only [mem_children]
    constructor
    · intro hmem
      obtain ⟨content, hserves⟩ := h.serves name hmem
      exact ⟨Store.not_isPartial_of_accepts hserves.accepted, content,
        ((Store.lookup_path hserves.accepted).mp hserves.found).2.2⟩
    · rintro ⟨hpartial, content, hentry⟩
      by_contra hunserved
      have hnone := h.onDisk name hpartial hunserved fun i r hr => absurd hr (hquiet i r)
      rw [Store.place, hentry] at hnone
      cases hnone

/-- **Receptions and deletions.** In every run of a store from when it was opened:

* no two receptions of a name are under way, and one begins if the name may be stored, is not served
  and is not on its way, whatever was deleted before;
* a reception that a deletion meets before it has published does not end well, and when it ends its
  name is neither served nor on the disk;
* a reception that no deletion meets ends well if a sender is heard out, has sent as much as it
  announced, and the disk takes the names; then the name is answered with exactly these bytes;
* what is served is answered with the same bytes until it is deleted;
* when nothing is on its way, the store serves exactly the files of its folder that are no siblings
  of others, and has noted nothing.

A store is opened in an empty folder. Only where the path of the folder names `..` is that not
certain: a store at `x/..` where there is no `x` finds what is beside it. -/
theorem receptions_and_deletions {d₀ d : Disk} {folder : FilePath} {s : Store} (htree : d₀.IsTree)
    (hopen : Store.openAt d₀ folder = (d, .ok s))
    (hfolder : ".." ∉ pieces folder.text.toList ∨ d.children s.root = []) (before : List Event) :
    let t := run { store := s, disk := d } before
    (∀ i j r r', t.Underway i r → t.Underway j r' → r.name = r'.name → i = j) ∧
    (∀ route name,
      (t.step (.begin route name)).receptions[t.receptions.length]? = some ⟨name, route, .asking⟩ ↔
        Store.accepts name = true ∧ name ∉ t.store.files ∧ t.Idle name) ∧
    (∀ i name route stage event rest last answer,
      t.receptions[i]? = some ⟨name, route, stage⟩ → stage.unpublished = true →
      event.deletes name = true → ((t.step event).run rest).Ends last i answer →
      answer ≠ .ok ∧ (((t.step event).run rest).step last).store.Lacks
        (((t.step event).run rest).step last).disk name) ∧
    (∀ route name during later announced (pieces : List Bytes),
      let asked := (t.step (.begin route name)).run during
      asked.receptions[t.receptions.length]? = some ⟨name, route, .asking⟩ →
      (∀ event ∈ during ++ later, event.deletes name = false) →
      actsOf t.receptions.length later =
        .offer announced :: (pieces.map .arrive ++ [.close, .publish, .finish]) →
      Announces announced pieces.flatten.length → Fits (PartialName.ofName name) →
      (asked.run later).receptions[t.receptions.length]? = some ⟨name, route, .ended .ok⟩ ∧
        (asked.run later).Answers name pieces.flatten) ∧
    (∀ name ∈ t.store.files, ∃ content, ∀ later,
      (∀ event ∈ later, event.deletes name = false) → (t.run later).Answers name content) ∧
    ((∀ i r, ¬ t.Underway i r) → t.store.receiving = ∅ ∧ t.store.cancelled = ∅ ∧
      ∀ name, name ∈ t.store.files ↔ PartialName.isPartial name = false ∧
        ∃ content, (name, .file content) ∈ t.disk.children t.store.root) := by
  intro t
  have hempty : d.children s.root = [] := hfolder.elim (children_opened htree hopen) id
  have ht : t.Orderly := (orderly_opened htree hopen hempty).run before
  refine ⟨ht.distinct, fun route name => begins_iff ht, ?_, ?_, ?_, ht.quiet⟩
  · intro i name route stage event rest last answer hr hopen hdeletes hends
    have hmet := cancelled_of_deletes ht hr hopen hdeletes
    obtain ⟨r', hname, hcancelled⟩ := hmet.run (ht.step event) rest
    obtain rfl : r'.name = name := hname
    exact hcancelled.ends ((ht.step event).run rest) hends
  · intro route name during later announced pieces asked hasking hkept hacts hwhole hfits
    rw [List.forall_mem_append] at hkept
    have hasked : asked.Orderly := (ht.step _).run during
    have hthrives : asked.Thrives t.receptions.length ⟨name, route, .asking⟩ announced
        pieces.flatten (actsOf t.receptions.length later) :=
      ⟨hasking, ⟨pieces, rfl, hacts⟩, spared_of_asking hasking hkept.1, nofun⟩
    obtain ⟨stage, hended⟩ := hthrives.run hasked hfits hwhole hkept.2
    obtain rfl : stage = .ended .ok := hended.remains.eq_ended
    exact ⟨hended.here, (hended.served rfl).get⟩
  · intro name hmem
    obtain ⟨content, hserves⟩ := ht.serves name hmem
    exact ⟨content, fun later hkept => (serves_run ht hserves hkept).get⟩

/-- A put is deleted while its bytes come, and nothing is left of it. A later put of the name is
stored. -/
theorem put_after_discarded_put :
    let name := "a_1.txt"
    let t₀ : Traffic := { store := { root := ["s"] }, disk := (Store.openAt {} ⟨[], "/s"⟩).1 }
    let delete : Event := .serve (FileMessage.request .delete .fileServer "a.txt")
    let t := t₀.run [.begin .put name, .act 0 (.offer none), .act 0 (.arrive [1]), delete,
      .act 0 .close, .act 0 .publish, .act 0 .finish]
    let t' := (t.step (.begin .put name)).run [.act 1 (.offer (some 2)), .act 1 (.arrive [2]),
      .begin .copy "b_1.txt", .act 1 (.arrive [3]), .act 1 .close, .act 1 .publish, .act 1 .finish]
    t.receptions = [⟨name, .put, .ended .fail⟩] ∧ t.store.Lacks t.disk name ∧
      t'.receptions[1]? = some ⟨name, .put, .ended .ok⟩ ∧ t'.Answers name [2, 3] := by
  intro name t₀ delete t t'
  have hopen : Store.openAt {} ⟨[], "/s"⟩ = (t₀.disk, .ok t₀.store) := by decide +kernel
  have hfolder : ".." ∉ pieces "/s".toList := by decide +kernel
  have hreceptions : t.receptions = [⟨name, .put, .ended .fail⟩] := by decide +kernel
  have hlacks : t.store.Lacks t.disk name := by
    obtain ⟨-, -, hmet, -⟩ := receptions_and_deletions isTree_empty hopen (.inl hfolder)
      [.begin .put name, .act 0 (.offer none), .act 0 (.arrive [1])]
    have hmet := hmet 0 name .put (.collecting none ⟨0, 1⟩ [1]) delete
      [.act 0 .close, .act 0 .publish] (.act 0 .finish) .fail (by decide +kernel) rfl
      (by decide +kernel) ⟨⟨⟨name, .put, .decided .fail⟩, by decide +kernel, rfl⟩,
        ⟨name, .put, .ended .fail⟩, by decide +kernel, rfl⟩
    simp only [run_cons, run_nil] at hmet
    simp only [t, run_cons, run_nil]
    exact hmet.2
  have hfits : Fits (PartialName.ofName name) := ⟨by decide +kernel, by decide +kernel⟩
  obtain ⟨-, -, -, hstored, -⟩ := receptions_and_deletions isTree_empty hopen (.inl hfolder)
    [.begin .put name, .act 0 (.offer none), .act 0 (.arrive [1]), delete,
      .act 0 .close, .act 0 .publish, .act 0 .finish]
  have hlater := hstored .put name []
    [.act 1 (.offer (some 2)), .act 1 (.arrive [2]),
      .begin .copy "b_1.txt", .act 1 (.arrive [3]), .act 1 .close, .act 1 .publish, .act 1 .finish]
    (some 2) [[2], [3]]
  simp only [run_nil, List.nil_append] at hlater
  have hasking : (t.step (.begin .put name)).receptions[t.receptions.length]? =
      some ⟨name, .put, .asking⟩ := by decide +kernel
  have hlength : t.receptions.length = 1 := by rw [hreceptions]; rfl
  have hstored := hlater hasking (by decide +kernel) (by decide +kernel) (by decide) hfits
  rw [hlength] at hstored
  exact ⟨hreceptions, hlacks, hstored⟩

end ReplicaRing.Traffic
