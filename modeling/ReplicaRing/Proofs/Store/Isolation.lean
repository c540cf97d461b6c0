import ReplicaRing.Proofs.Store.Confinement
import ReplicaRing.Proofs.Store.Fates

/-!
# Names keep apart

A store has checked all names that it has noted, and two of them share neither file nor sibling. So
what is done for one name leaves the bytes of all others, whatever was in the folder before. Only a
deletion reaches further than the name that it carries: it is also for all versions of the file of
that name.
-/
namespace ReplicaRing

open Disk

variable {s s' : Store} {d d' : Disk} {name other target : String} {names : List String}

namespace Store

/-- A name has two paths, and no other name has one of them. -/
theorem paths_apart (hname : accepts name = true) (hother : accepts other = true)
    (hne : name ≠ other) :
    ∀ p ∈ [s.path name, (s.path name).inTransit],
      p ∉ [s.path other, (s.path other).inTransit] := by
  have hpath {a b : String} : s.path a = s.path b ↔ a = b := by simp [path]
  simp only [inTransit_path hname, inTransit_path hother, List.mem_cons, List.not_mem_nil, or_false,
    forall_eq_or_imp, forall_eq, not_or, hpath]
  exact ⟨⟨hne, (ofName_ne_of_accepts hname).symm⟩, ofName_ne_of_accepts hother,
    fun heq => hne (PartialName.ofName_injective heq)⟩

theorem touches_publish (h : accepts name = true) :
    d.Touches (s.publish d name).2.1 [s.place name] := by
  unfold publish
  split
  · exact touches_tryRemove h
  · exact .refl d _

theorem touches_delete (hfiles : ∀ name ∈ s.files, accepts name = true) :
    d.Touches (s.delete d target).2.1 ((Traffic.doomed s target).map s.place) :=
  touches_removeAll fun name hname => hfiles name (Traffic.mem_doomed.mp hname).1

end Store

namespace Traffic

variable {t t' : Traffic} {i j : Nat} {r : Reception} {a : Act} {stage : Stage} {event : Event}
  {places : List Location}

/-- All names that are noted were checked, no two receptions bring one name, and what has come of a
file is in its sibling. -/
structure Apart (t : Traffic) : Prop where
  tree : t.disk.IsTree
  stored : ∀ name ∈ t.store.files, Store.accepts name = true
  accepted : ∀ i r, t.Underway i r → Store.accepts r.name = true
  listed : ∀ name, name ∈ t.store.receiving ↔ ∃ i r, t.Underway i r ∧ r.name = name
  distinct : ∀ i j r r', t.Underway i r → t.Underway j r' → r.name = r'.name → i = j
  receives : ∀ i r announced inflow body, t.Underway i r →
    r.stage = .collecting announced inflow body → t.store.Receives t.disk r.name inflow body

theorem Apart.received (h : t.Apart) (hmem : name ∈ t.store.receiving) :
    Store.accepts name = true := by
  obtain ⟨i, r, hr, rfl⟩ := (h.listed name).mp hmem
  exact h.accepted i r hr

/-- A reception has gone on, or has begun, and has kept to its name. -/
structure Minds (s s' : Store) (d d' : Disk) (r : Reception) : Prop where
  root : s'.root = s.root
  touches : d.Touches d' [s.transit r.name, s.place r.name]
  accepted : Store.accepts r.name = true
  files : ∀ other, other ≠ r.name → (other ∈ s'.files ↔ other ∈ s.files)
  receiving : ∀ other, other ≠ r.name → (other ∈ s'.receiving ↔ other ∈ s.receiving)
  listed : r.name ∈ s'.receiving ↔ r.stage.underway = true
  receives : ∀ announced inflow body, r.stage = .collecting announced inflow body →
    s'.Receives d' r.name inflow body

theorem Apart.alter (ht : t.Apart) (h : t.Alters t' i r)
    (hown : Minds t.store t'.store t.disk t'.disk r) : t'.Apart where
  tree := hown.touches.tree ht.tree
  stored name hmem := by
    by_cases hname : name = r.name
    · exact hname ▸ hown.accepted
    · exact ht.stored name ((hown.files name hname).mp hmem)
  accepted j r' hr' := by
    by_cases hself : r'.name = r.name
    · exact hself ▸ hown.accepted
    · exact ht.accepted j r' ((h.underway_other hself).mp hr')
  listed := h.listed ht.listed hown.listed hown.receiving
  distinct := h.distinct ht.distinct
  receives j r' announced inflow body hr' hstage := by
    by_cases hself : r'.name = r.name
    · obtain ⟨-, rfl, -⟩ := (h.underway_self hself).mp hr'
      exact hown.receives announced inflow body hstage
    · have hr := (h.underway_other hself).mp hr'
      refine (ht.receives j r' announced inflow body hr hstage).touched hown.touches
        (Store.not_prefix_transit_of_ne hown.accepted hself) hown.root ?_
      exact (hown.receiving _ hself).mpr ((ht.listed _).mpr ⟨j, r', hr, rfl⟩)

/-! ### One step -/

/-- Bytes come and go, and the store is as it was. -/
theorem Apart.minds_disk (h : t.Apart) (hr : t.Underway i r)
    (htouch : t.disk.Touches d' [t.store.transit r.name, t.store.place r.name])
    (hstage : stage.underway = true)
    (hreceives : ∀ announced inflow body, stage = .collecting announced inflow body →
      t.store.Receives d' r.name inflow body) :
    Minds t.store t.store t.disk d' { r with stage } where
  root := rfl
  touches := htouch
  accepted := h.accepted i r hr
  files _ _ := Iff.rfl
  receiving _ _ := Iff.rfl
  listed := iff_of_true ((h.listed _).mpr ⟨i, r, hr, rfl⟩) hstage
  receives := hreceives

theorem Apart.minds_failed (h : t.Apart) (hr : t.Underway i r)
    (htouch : t.disk.Touches d' [t.store.transit r.name]) :
    Minds t.store t.store t.disk d' { r with stage := r.route.failed } := by
  obtain hfailed | hfailed := unpublished_failed r.route <;> rw [hfailed]
  · exact h.minds_disk hr (htouch.mono (by simp)) rfl nofun
  · exact h.minds_disk hr (htouch.mono (by simp)) rfl nofun

theorem Apart.minds_ended (h : t.Apart) (hr : t.Underway i r) (answer : FileKind) :
    Minds t.store (t.store.endReceiving r.name) t.disk t.disk
      { r with stage := .ended answer } where
  root := rfl
  touches := .refl _ _
  accepted := h.accepted i r hr
  files _ _ := Iff.rfl
  receiving _ hne := Store.mem_receiving_endReceiving.trans (and_iff_right (Ne.symm hne))
  listed := iff_of_false (fun hmem => (Store.mem_receiving_endReceiving.mp hmem).1 rfl) nofun
  receives := nofun

theorem Apart.minds_published (h : t.Apart) (hr : t.Underway i r) (answer : FileKind) :
    Minds t.store (t.store.publish t.disk r.name).1 t.disk (t.store.publish t.disk r.name).2.1
      { r with stage := .decided answer } where
  root := by
    unfold Store.publish
    split <;> rfl
  touches := (Store.touches_publish (h.accepted i r hr)).mono (by simp)
  accepted := h.accepted i r hr
  files _ hne := by
    unfold Store.publish
    split
    · exact mem_erase_of_ne hne
    · exact mem_insert_of_ne hne
  receiving _ _ := by
    unfold Store.publish
    split <;> exact Iff.rfl
  listed := by
    refine iff_of_true ?_ rfl
    unfold Store.publish
    split <;> exact (h.listed _).mpr ⟨i, r, hr, rfl⟩
  receives := nofun

theorem Apart.minds (h : t.Apart) (hr : t.Underway i r)
    (ha : r.Acts t.store t.disk a s' d' stage) : Minds t.store s' t.disk d' { r with stage } := by
  have haccepted := h.accepted i r hr
  have hlisted : r.name ∈ t.store.receiving := (h.listed _).mpr ⟨i, r, hr, rfl⟩
  cases ha with
  | offered hstage hs =>
    obtain ⟨hreceives, htouch⟩ := Store.receives_start haccepted hs hlisted rfl
    refine h.minds_disk hr (htouch.mono (by simp)) rfl fun _ _ _ heq => ?_
    cases heq
    exact hreceives
  | refused hstage hs => exact h.minds_failed hr (Transfer.start_error hs ▸ .refl _ _)
  | arrived bytes hstage =>
    obtain ⟨hreceives, htouch⟩ := (h.receives i r _ _ _ hr hstage).collect bytes
    refine h.minds_disk hr (htouch.mono (by simp)) rfl fun _ _ _ heq => ?_
    cases heq
    exact hreceives
  | completed hstage hf =>
    obtain ⟨-, -, htouch, -⟩ := (h.receives i r _ _ _ hr hstage).finish_ok h.tree hf
    exact h.minds_disk hr htouch rfl nofun
  | lost hstage hf =>
    exact h.minds_failed hr ((h.receives i r _ _ _ hr hstage).finish_error hf)
  | aborted hstage =>
    have hreceives := h.receives i r _ _ _ hr hstage
    have hclosed := touches_close hreceives.collects.opened
    exact h.minds_failed hr (hclosed.trans
      (Transfer.touches_abandon (hclosed.folders.resolve_eq_ok.mp hreceives.reached)))
  | stalled hstage =>
    exact h.minds_failed hr (touches_close (h.receives i r _ _ _ hr hstage).collects.opened)
  | published hstage => exact h.minds_published hr _
  | givenUp hstage => exact h.minds_ended hr _
  | finished hstage => exact h.minds_ended hr _

theorem Apart.act (h : t.Apart) (i : Nat) (a : Act) : (t.act i a).Apart := by
  obtain heq | ⟨r, store, disk, stage, hr, hacts, heq⟩ := t.act_eq i a <;> rw [heq]
  · exact h
  · exact h.alter (alters_set hr fun j r' hr' => h.distinct j i r' r hr' hr) (h.minds hr hacts)

theorem Apart.begin (h : t.Apart) (route : Route) (name : String) : (t.begin route name).Apart := by
  obtain ⟨⟨haccepted, -, hfree⟩, heq⟩ | ⟨-, answer, -, heq⟩ := t.begin_eq route name <;> rw [heq]
  · have hidle (j : Nat) (r' : Reception) (hr' : t.Underway j r') : r'.name ≠ name :=
      fun hname => hfree ((h.listed name).mpr ⟨j, r', hr', hname⟩)
    refine h.alter (alters_concat hidle) ?_
    exact {
      root := rfl
      touches := .refl _ _
      accepted := haccepted
      files := fun _ _ => Iff.rfl
      receiving := fun other hne =>
        Store.mem_receiving_beginReceiving.trans (or_iff_right (Ne.symm hne))
      listed := iff_of_true (Store.mem_receiving_beginReceiving.mpr (.inl rfl)) rfl
      receives := nofun }
  · refine ⟨h.tree, h.stored, ?_, ?_, ?_, ?_⟩ <;> simp only [underway_concat_ended]
    · exact h.accepted
    · exact h.listed
    · exact h.distinct
    · exact h.receives

theorem Apart.serve (h : t.Apart) (request : FileMessage) : (t.serve request).Apart := by
  obtain ⟨-, heq⟩ | ⟨-, heq⟩ := t.serve_eq request <;> rw [heq]
  · exact h
  · have htouch : t.disk.Touches (t.store.delete t.disk request.file).2.1
        ((doomed t.store request.file).map t.store.place) := Store.touches_delete h.stored
    refine ⟨htouch.tree h.tree, fun name hmem => ?_, h.accepted, h.listed, h.distinct,
      fun i r announced inflow body hr hstage => ?_⟩
    · exact h.stored name (Store.mem_files_delete (d := t.disk).mp hmem).1
    · refine (h.receives i r announced inflow body hr hstage).touched htouch ?_ rfl
        ((h.listed _).mpr ⟨i, r, hr, rfl⟩)
      simp only [List.mem_map, forall_exists_index, and_imp, forall_apply_eq_imp_iff₂]
      exact fun other hother =>
        Store.not_prefix_transit (h.stored other (mem_doomed.mp hother).1)

theorem Apart.step (h : t.Apart) (event : Event) : (t.step event).Apart := by
  cases event with
  | serve request => exact h.serve request
  | begin route name => exact h.begin route name
  | act i a => exact h.act i a

theorem Apart.run (h : t.Apart) (events : List Event) : (t.run events).Apart := by
  induction events generalizing t with
  | nil => exact h
  | cons event events ih => exact ih (h.step event)

/-! ### Other names -/

/-- Whether an event is for a name: a deletion for the names that it deletes, all else for the name
that it carries. -/
def Concerns (t : Traffic) (name : String) : Event → Prop
  | .serve request => request.kind = .delete ∧ StoredName.belongsTo name request.file = true
  | .begin _ other => other = name
  | .act i _ => (t.receptions[i]?).map (·.name) = some name

instance (t : Traffic) (name : String) (event : Event) : Decidable (t.Concerns name event) :=
  match event with
  | .serve request => inferInstanceAs (Decidable (request.kind = .delete ∧ _))
  | .begin _ other => inferInstanceAs (Decidable (other = name))
  | .act i _ => inferInstanceAs (Decidable ((t.receptions[i]?).map (·.name) = some name))

/-- No event is for a name. -/
def Spares (t : Traffic) (name : String) : List Event → Prop
  | [] => True
  | event :: events => ¬ t.Concerns name event ∧ (t.step event).Spares name events

instance decidableSpares (t : Traffic) (name : String) (events : List Event) :
    Decidable (t.Spares name events) :=
  match events with
  | [] => .isTrue trivial
  | event :: events =>
    have := decidableSpares (t.step event) name events
    inferInstanceAs (Decidable (¬ t.Concerns name event ∧ _))

/-- What is there of a name is there as before. -/
structure Same (t t' : Traffic) (name : String) : Prop where
  root : t'.store.root = t.store.root
  folder : t'.disk.entry? t.store.root = t.disk.entry? t.store.root
  file : t'.disk.entry? (t.store.place name) = t.disk.entry? (t.store.place name)
  sibling : t'.disk.entry? (t.store.transit name) = t.disk.entry? (t.store.transit name)
  stored : name ∈ t'.store.files ↔ name ∈ t.store.files

theorem Same.refl (t : Traffic) (name : String) : t.Same t name := ⟨rfl, rfl, rfl, rfl, Iff.rfl⟩

theorem Same.trans {t'' : Traffic} (h : t.Same t' name) (h' : t'.Same t'' name) :
    t.Same t'' name := by
  obtain ⟨hroot, hfolder, hfile, hsibling, hstored⟩ := h'
  simp only [Store.place, Store.transit, h.root] at hroot hfolder hfile hsibling
  exact ⟨hroot, hfolder.trans h.folder, hfile.trans h.file, hsibling.trans h.sibling,
    hstored.trans h.stored⟩

/-- It is served as before. -/
theorem Same.get (h : t.Same t' name) (hname : Store.accepts name = true) :
    t'.store.get t'.disk name = t.store.get t.disk name := by
  refine Store.get_congr hname h.root ?_ h.folder h.file
  rw [Bool.eq_iff_iff, Store.contains, Store.contains, ← Std.ExtTreeSet.mem_iff_contains,
    ← Std.ExtTreeSet.mem_iff_contains]
  exact h.stored

/-- What touches other entries of the folder only. -/
theorem Same.of_touches (ht : t.disk.Touches t'.disk (names.map t.store.place))
    (hroot : t'.store.root = t.store.root) (hfile : name ∉ names)
    (hsibling : PartialName.ofName name ∉ names)
    (hstored : name ∈ t'.store.files ↔ name ∈ t.store.files) : t.Same t' name := by
  have haway {other : String} (h : other ∉ names) :
      t.store.place other ∉ names.map t.store.place := by
    simp only [List.mem_map, not_exists, not_and, Store.place_eq_iff]
    exact fun k hk heq => h (heq ▸ hk)
  refine ⟨hroot, ht.elsewhere _ ?_, ht.elsewhere _ (haway hfile), ht.elsewhere _ (haway hsibling),
    hstored⟩
  simp [Store.place]

theorem Apart.same_act (h : t.Apart) (hname : Store.accepts name = true)
    (hother : ¬ t.Concerns name (.act i a)) : t.Same (t.act i a) name := by
  obtain heq | ⟨r, store, disk, stage, hr, hacts, heq⟩ := t.act_eq i a <;> rw [heq]
  · exact .refl t name
  · have hminds := h.minds hr hacts
    have hne : name ≠ r.name := fun heq => hother (by rw [Concerns, hr.1, heq]; rfl)
    have haccepted := h.accepted i r hr
    have htouch : t.disk.Touches disk ([PartialName.ofName r.name, r.name].map t.store.place) :=
      hminds.touches
    refine .of_touches htouch hminds.root ?_ ?_ (hminds.files name hne)
    · simp only [List.mem_cons, List.not_mem_nil, or_false, not_or]
      exact ⟨(Store.ofName_ne_of_accepts hname).symm, hne⟩
    · simp only [List.mem_cons, List.not_mem_nil, or_false, not_or]
      exact ⟨fun heq => hne (PartialName.ofName_injective heq),
        Store.ofName_ne_of_accepts haccepted⟩

theorem Apart.same_serve (h : t.Apart) {request : FileMessage}
    (hother : ¬ t.Concerns name (.serve request)) : t.Same (t.serve request) name := by
  obtain ⟨-, heq⟩ | ⟨hkind, heq⟩ := t.serve_eq request <;> rw [heq]
  · exact .refl t name
  · have hkept : StoredName.belongsTo name request.file = false :=
      Bool.eq_false_iff.mpr fun hhit => hother ⟨hkind, hhit⟩
    refine .of_touches (Store.touches_delete h.stored) rfl (fun hmem => ?_) (fun hmem => ?_) ?_
    · rw [(mem_doomed.mp hmem).2] at hkept
      cases hkept
    · exact Store.ofName_ne_of_accepts (h.stored _ (mem_doomed.mp hmem).1) rfl
    · exact (Store.mem_files_delete (d := t.disk)).trans (and_iff_left hkept)

theorem Apart.same_step (h : t.Apart) (hname : Store.accepts name = true)
    (hother : ¬ t.Concerns name event) : t.Same (t.step event) name := by
  cases event with
  | serve request => exact h.same_serve hother
  | begin route other =>
    change t.Same (t.begin route other) name
    obtain ⟨-, heq⟩ | ⟨-, answer, -, heq⟩ := t.begin_eq route other <;> rw [heq]
    · exact ⟨rfl, rfl, rfl, rfl, Iff.rfl⟩
    · exact ⟨rfl, rfl, rfl, rfl, Iff.rfl⟩
  | act i a => exact h.same_act hname hother

theorem Apart.same_run (h : t.Apart) (hname : Store.accepts name = true) {events : List Event}
    (hspares : t.Spares name events) : t.Same (t.run events) name := by
  induction events generalizing t with
  | nil => exact .refl t name
  | cons event events ih =>
    exact (h.same_step hname hspares.1).trans (ih (h.step event) hspares.2)

theorem Apart.root_step (h : t.Apart) (event : Event) :
    (t.step event).store.root = t.store.root := by
  cases event with
  | serve request =>
    change (t.serve request).store.root = _
    obtain ⟨-, heq⟩ | ⟨-, heq⟩ := t.serve_eq request <;> rw [heq]
    rfl
  | begin route name =>
    change (t.begin route name).store.root = _
    obtain ⟨-, heq⟩ | ⟨-, answer, -, heq⟩ := t.begin_eq route name <;> rw [heq]
    rfl
  | act i a =>
    change (t.act i a).store.root = _
    obtain heq | ⟨r, store, disk, stage, hr, hacts, heq⟩ := t.act_eq i a <;> rw [heq]
    exact (h.minds hr hacts).root

theorem Apart.root_run (h : t.Apart) (events : List Event) :
    (t.run events).store.root = t.store.root := by
  induction events generalizing t with
  | nil => rfl
  | cons event events ih => exact (ih (h.step event)).trans (h.root_step event)

/-! ### A store that was opened -/

theorem apart_opened {d₀ : Disk} {folder : FilePath} (ht : d₀.IsTree)
    (hopen : Store.openAt d₀ folder = (d, .ok s)) : Apart { store := s, disk := d } := by
  obtain ⟨hroot, hs⟩ := opened_eq hopen
  have hnobody (i : Nat) (r : Reception) : ¬ Underway { store := s, disk := d } i r :=
    fun hr => nomatch hr.1
  have hnothing (name : String) : name ∉ s.files ∧ name ∉ s.receiving := by
    rw [hs]
    exact ⟨Std.ExtTreeSet.not_mem_empty, Std.ExtTreeSet.not_mem_empty⟩
  exact {
    tree := (openEmpty_ok ht hroot).1
    stored := fun name hmem => absurd hmem (hnothing name).1
    accepted := fun i r hr => absurd hr (hnobody i r)
    listed := fun name => iff_of_false (hnothing name).2 fun ⟨i, r, hr, _⟩ => hnobody i r hr
    distinct := fun i _ r _ hr => absurd hr (hnobody i r)
    receives := fun i r _ _ _ hr => absurd hr (hnobody i r) }

/-- **Confinement and isolation.** In every run of a store, whatever names come from others:

* all that happens next, and all requests that are served in one step, use nothing of the disk but
  the paths that the store owns, which are those of names that it accepts and of their siblings, and
  handles of open siblings;
* such a path is a plain name in the folder of the store, and leads to an entry of that folder
  whatever is on the disk;
* all names that are served or on their way in are accepted, and two names that are accepted share
  no path;
* while nothing is done for a name, its file and its sibling stay as they are, and it is served as
  before. A deletion is for the name that it carries and for all versions of it. -/
theorem store_is_confined {d₀ : Disk} {folder : FilePath} (htree : d₀.IsTree)
    (hopen : Store.openAt d₀ folder = (d, .ok s)) (before : List Event) :
    let t := run { store := s, disk := d } before
    t.store.root = s.root ∧
    (∀ event, Within t.scope (t.program event)) ∧
    (∀ request, Within t.scope fun d =>
      let (s', d', answer) := t.store.serve d request
      (d', s', answer)) ∧
    (∀ p, t.scope.paths p → p.folder = s.root ∧ Plain p.text ∧
      ∀ (disk : Disk) (target : Target), disk.resolve p = .ok target →
        target.location = s.root ++ [p.text]) ∧
    (∀ handle, t.scope.handles handle → ∃ name, Store.accepts name = true ∧
      t.disk.openFiles[handle]? = some (t.store.transit name)) ∧
    (∀ name, name ∈ t.store.files ∨ name ∈ t.store.receiving → Store.accepts name = true) ∧
    (∀ name other, Store.accepts name = true → Store.accepts other = true → name ≠ other →
      ∀ p ∈ [t.store.path name, (t.store.path name).inTransit],
        p ∉ [t.store.path other, (t.store.path other).inTransit]) ∧
    ∀ name later, Store.accepts name = true → t.Spares name later →
      t.Same (t.run later) name ∧
        (t.run later).store.get (t.run later).disk name = t.store.get t.disk name := by
  intro t
  have hopened := apart_opened htree hopen
  have ht : t.Apart := hopened.run before
  have hroot : t.store.root = s.root := hopened.root_run before
  refine ⟨hroot, within_program ht.stored ht.accepted,
    Store.within_serve t.owns_scope ht.stored, fun p hp => ?_, ?_, ?_,
    fun name other => Store.paths_apart, fun name later hname hspares => ?_⟩
  · rw [← hroot]
    exact ⟨hp.plain.1, hp.plain.2, fun _ _ => hp.location⟩
  · rintro handle ⟨i, r, announced, inflow, body, hr, hstage, rfl⟩
    have hreceives := ht.receives i r announced inflow body hr hstage
    exact ⟨r.name, hreceives.accepted, hreceives.collects.opened⟩
  · rintro name (hmem | hmem)
    · exact ht.stored name hmem
    · exact ht.received hmem
  · have hsame := ht.same_run hname hspares
    exact ⟨hsame, hsame.get hname⟩

/-- A name that was stored, while others are put, named badly, read and deleted. -/
theorem stored_among_others :
    let name := "a_1.txt"
    let t₀ : Traffic := { store := { root := ["s"] }, disk := (Store.openAt {} ⟨[], "/s"⟩).1 }
    let t := t₀.run [.begin .put name, .act 0 (.offer none), .act 0 (.arrive [1]), .act 0 .close,
      .act 0 .publish, .act 0 .finish]
    let t' := t.run [.begin .put "../s/a_1.txt", .begin .put ".a_1.txt.partial",
      .begin .copy "b_1.txt", .act 3 (.offer none), .act 3 (.arrive [2]),
      .serve (FileMessage.request .get .fileServer "../s/a_1.txt"), .act 3 .close, .act 3 .publish,
      .serve (FileMessage.request .delete .fileServer "b.txt"), .act 3 .finish]
    Store.openAt {} ⟨[], "/s"⟩ = (t₀.disk, .ok t₀.store) ∧ t'.Answers name [1] ∧
      t'.disk.entry? ["s", "b_1.txt"] = none := by
  intro name t₀ t t'
  have hopen : Store.openAt {} ⟨[], "/s"⟩ = (t₀.disk, .ok t₀.store) := by decide +kernel
  obtain ⟨-, -, -, -, -, -, -, hisolated⟩ := store_is_confined isTree_empty hopen
    [.begin .put name, .act 0 (.offer none), .act 0 (.arrive [1]), .act 0 .close,
      .act 0 .publish, .act 0 .finish]
  obtain ⟨-, hget⟩ := hisolated name [.begin .put "../s/a_1.txt", .begin .put ".a_1.txt.partial",
    .begin .copy "b_1.txt", .act 3 (.offer none), .act 3 (.arrive [2]),
    .serve (FileMessage.request .get .fileServer "../s/a_1.txt"), .act 3 .close, .act 3 .publish,
    .serve (FileMessage.request .delete .fileServer "b.txt"), .act 3 .finish]
    (by decide +kernel) (by decide +kernel)
  have hanswers : t.Answers name [1] := by unfold Answers; decide +kernel
  exact ⟨hopen, hget.trans hanswers, by decide +kernel⟩

/-- A deletion is for more names than the one that it carries: the bytes of a version of the file go
with it. -/
theorem deletion_reaches_versions :
    let t₀ : Traffic := { store := { root := ["s"] }, disk := (Store.openAt {} ⟨[], "/s"⟩).1 }
    let t := t₀.run [.begin .put "a_1.txt", .act 0 (.offer none), .act 0 (.arrive [49]),
      .act 0 .close, .act 0 .publish, .act 0 .finish]
    let t' := t.step (.serve (FileMessage.request .delete .fileServer "a.txt"))
    Store.openAt {} ⟨[], "/s"⟩ = (t₀.disk, .ok t₀.store) ∧ "a.txt" ≠ "a_1.txt" ∧
      Store.accepts "a.txt" = true ∧ Store.accepts "a_1.txt" = true ∧
      t.Answers "a_1.txt" [49] ∧
      t.disk.entry? (t.store.place "a_1.txt") = some (.file [49]) ∧
      t'.store.Lacks t'.disk "a_1.txt" := by
  intro t₀ t t'
  refine ⟨by decide +kernel, by decide, by decide +kernel, by decide +kernel, ?_, by decide +kernel,
    ⟨by decide +kernel, by decide +kernel⟩⟩
  unfold Answers
  decide +kernel

end Traffic

end ReplicaRing
