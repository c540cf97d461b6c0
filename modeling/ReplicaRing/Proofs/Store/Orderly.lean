import ReplicaRing.Proofs.Deletion
import ReplicaRing.Proofs.Disk.Folders
import ReplicaRing.Proofs.Store.Traffic

/-!
# Receptions keep apart

No two receptions of a store bring the same name, so what one of them does leaves the others as they
are. At any time the folder of the store has the files that are served, a whole file that is not
published yet, and siblings in which bytes are collected; and the store has noted names only for
receptions that have not ended.
-/
namespace ReplicaRing

open Disk

variable {s s' : Store} {d d' : Disk} {name other : String} {places : List Location}
  {request : FileMessage}

namespace Store

/-- Nothing is stored under a name, not even a file that is not served. -/
structure Lacks (s : Store) (d : Disk) (name : String) : Prop where
  unserved : name ∉ s.files
  gone : d.entry? (s.place name) = none

theorem mem_cancelled_delete {target : String} :
    name ∈ (s.delete d target).1.cancelled ↔
      name ∈ s.cancelled ∨ name ∈ s.receiving ∧ StoredName.belongsTo name target = true := by
  have hcancelled : (s.delete d target).1.cancelled =
      s.cancelled.insertMany (s.receiving.filter (StoredName.belongsTo · target)).toList := rfl
  rw [hcancelled, Std.ExtTreeSet.mem_insertMany_list, List.contains_iff_mem,
    Std.ExtTreeSet.mem_toList, mem_filter_iff]

/-! ### The entries of two names -/

theorem not_prefix_transit (h : accepts name = true) : ¬ s.place name <+: s.transit other := by
  rw [transit, place_prefix_iff]
  exact fun heq => ofName_ne_of_accepts h heq.symm

theorem place_ne_transit (h : PartialName.isPartial name = false) :
    s.place name ≠ s.transit other := by
  rw [transit, Ne, place_eq_iff]
  rintro rfl
  rw [PartialName.isPartial_ofName] at h
  cases h

theorem place_not_mem_transit (h : accepts name = true) : s.place name ∉ [s.transit other] := by
  rw [List.mem_singleton]
  exact place_ne_transit (not_isPartial_of_accepts h)

theorem place_not_mem (h : PartialName.isPartial other = false) (hne : other ≠ name) :
    s.place other ∉ [s.transit name, s.place name] := by
  simp only [List.mem_cons, List.not_mem_nil, or_false, not_or, place_eq_iff]
  exact ⟨place_ne_transit h, hne⟩

theorem not_prefix_transit_of_ne (h : accepts name = true) (hne : other ≠ name) :
    ∀ k ∈ [s.transit name, s.place name], ¬ k <+: s.transit other := by
  simp only [List.mem_cons, List.not_mem_nil, or_false, forall_eq_or_imp, forall_eq]
  refine ⟨?_, not_prefix_transit h⟩
  rw [transit, transit, place_prefix_iff]
  exact fun heq => hne (PartialName.ofName_injective heq).symm

/-! ### What a store does -/

theorem Lacks.touched (h : s.Lacks d name) (ht : d.Touches d' places)
    (haway : s.place name ∉ places) (hroot : s'.root = s.root)
    (hfiles : name ∈ s'.files → name ∈ s.files) : s'.Lacks d' name := by
  refine ⟨fun hmem => h.unserved (hfiles hmem), ?_⟩
  rw [place, hroot, ← place, ht.elsewhere _ haway, h.gone]

/-- A file that was deleted on its way in is removed when it is published. -/
theorem publish_of_cancelled {content : Bytes} (h : name ∈ s.cancelled)
    (hname : accepts name = true) (hfound : d.lookup (s.path name) = .ok (.file content)) :
    ∃ d', s.publish d name =
        ({ s with files := s.files.erase name, cancelled := s.cancelled.erase name }, d', false) ∧
      d.Touches d' [s.place name] ∧ d'.entry? (s.place name) = none := by
  obtain ⟨d', hr⟩ := exists_remove hfound
  have htouch := touches_tryRemove (d := d) (s := s) hname
  rw [hr] at htouch
  refine ⟨d', ?_, htouch, (entry?_remove_path hname hr).trans (if_pos rfl)⟩
  unfold publish
  rw [if_pos (Std.ExtTreeSet.mem_iff_contains.mp h), hr]
  rfl

theorem publish_kept : (s.publish d name).2.2 = true ↔ name ∉ s.cancelled := by
  unfold publish
  rw [Std.ExtTreeSet.mem_iff_contains]
  split <;> simp [*]

end Store

namespace Traffic

variable {t t' : Traffic} {i j : Nat} {r r' : Reception} {stage : Stage} {a : Act}

/-- What the store has of a reception. -/
def Reception.Fares (s : Store) (d : Disk) (r : Reception) : Prop :=
  match r.stage with
  | .asking => s.Lacks d r.name
  | .collecting _ inflow body => s.Lacks d r.name ∧ s.Receives d r.name inflow body
  | .complete body => r.name ∉ s.files ∧ d.lookup (s.path r.name) = .ok (.file body)
  | .decided answer => answer ≠ .ok → s.Lacks d r.name
  | .ended _ => True

/-- Every reception has what is its own, and nothing else is in the store. -/
structure Orderly (t : Traffic) : Prop where
  tree : t.disk.IsTree
  root : t.disk.entry? t.store.root = some .folder
  files : ∀ name, t.disk.entry? (t.store.place name) ≠ some .folder
  serves : ∀ name ∈ t.store.files, ∃ content, t.store.Serves t.disk name content
  listed : ∀ name, name ∈ t.store.receiving ↔ ∃ i r, t.Underway i r ∧ r.name = name
  cancelled : ∀ name ∈ t.store.cancelled, name ∈ t.store.receiving
  distinct : ∀ i j r r', t.Underway i r → t.Underway j r' → r.name = r'.name → i = j
  accepted : ∀ i r, t.Underway i r → Store.accepts r.name = true
  fares : ∀ i r, t.Underway i r → r.Fares t.store t.disk
  onDisk : ∀ name, PartialName.isPartial name = false → name ∉ t.store.files →
    (∀ i r, t.Underway i r → r.name = name → ∀ body, r.stage ≠ .complete body) →
    t.disk.entry? (t.store.place name) = none

/-! ### One reception goes on -/

/-- A reception has gone on, or has begun. What it changes is its own. -/
structure Turns (s s' : Store) (d d' : Disk) (r : Reception) : Prop where
  root : s'.root = s.root
  touches : d.Touches d' [s.transit r.name, s.place r.name]
  accepted : Store.accepts r.name = true
  files : ∀ other, other ≠ r.name → (other ∈ s'.files ↔ other ∈ s.files)
  receiving : ∀ other, other ≠ r.name → (other ∈ s'.receiving ↔ other ∈ s.receiving)
  cancelled : ∀ other, other ≠ r.name → (other ∈ s'.cancelled ↔ other ∈ s.cancelled)
  listed : r.name ∈ s'.receiving ↔ r.stage.underway = true
  cleared : r.name ∈ s'.cancelled → r.stage.underway = true
  serves : r.name ∈ s'.files → ∃ content, s'.Serves d' r.name content
  fares : r.Fares s' d'
  onDisk : r.name ∉ s'.files → (∀ body, r.stage ≠ .complete body) →
    d'.entry? (s'.place r.name) = none

/-- What the store has of a reception is left alone. -/
theorem Reception.Fares.touched (h : r.Fares s d) (ht : d.Touches d' places)
    (hplace : s.place r.name ∉ places) (htransit : ∀ k ∈ places, ¬ k <+: s.transit r.name)
    (haccepted : Store.accepts r.name = true) (hroot : s'.root = s.root)
    (hfiles : r.name ∈ s'.files → r.name ∈ s.files) (hlisted : r.name ∈ s'.receiving) :
    r.Fares s' d' := by
  obtain ⟨name, route, stage⟩ := r
  cases stage with
  | asking => exact Store.Lacks.touched h ht hplace hroot hfiles
  | collecting announced inflow body =>
    exact ⟨h.1.touched ht hplace hroot hfiles, h.2.touched ht htransit hroot hlisted⟩
  | complete body =>
    refine ⟨fun hmem => h.1 (hfiles hmem), ?_⟩
    obtain ⟨hfits, hfolder, hentry⟩ := (Store.lookup_path haccepted).mp h.2
    refine (Store.lookup_path haccepted).mpr ⟨hfits, ?_, ?_⟩
    · rw [hroot]
      exact (ht.folders _).mp hfolder
    · rw [Store.place, hroot, ← Store.place, ht.elsewhere _ hplace, hentry]
  | decided answer => exact fun hne => (h hne).touched ht hplace hroot hfiles
  | ended answer => trivial

/-- Only the reception at a place is another one, or is new, and no other brings its name. -/
structure Alters (t t' : Traffic) (i : Nat) (r : Reception) : Prop where
  here : t'.receptions[i]? = some r
  others : ∀ j, j ≠ i → t'.receptions[j]? = t.receptions[j]?
  alone : ∀ j r', t.Underway j r' → (r'.name = r.name ↔ j = i)

theorem Alters.underway_self (h : t.Alters t' i r) (hname : r'.name = r.name) :
    t'.Underway j r' ↔ j = i ∧ r' = r ∧ r.stage.underway = true := by
  constructor
  · intro hr'
    have hj : j = i := by
      by_contra hj
      exact hj ((h.alone j r' ⟨(h.others j hj).symm.trans hr'.1, hr'.2⟩).mp hname)
    subst hj
    cases h.here.symm.trans hr'.1
    exact ⟨rfl, rfl, hr'.2⟩
  · rintro ⟨rfl, rfl, hunderway⟩
    exact ⟨h.here, hunderway⟩

theorem Alters.underway_other (h : t.Alters t' i r) (hname : r'.name ≠ r.name) :
    t'.Underway j r' ↔ t.Underway j r' := by
  by_cases hj : j = i
  · subst hj
    refine iff_of_false (fun hr' => hname ?_) fun hr' => hname ((h.alone j r' hr').mpr rfl)
    cases h.here.symm.trans hr'.1
    rfl
  · rw [Underway, Underway, h.others j hj]

/-- What is noted for one name is noted for the reception that brings it. -/
theorem Alters.listed (h : t.Alters t' i r)
    (hlisted : ∀ name, name ∈ s.receiving ↔ ∃ j r', t.Underway j r' ∧ r'.name = name)
    (hself : r.name ∈ s'.receiving ↔ r.stage.underway = true)
    (hothers : ∀ other, other ≠ r.name → (other ∈ s'.receiving ↔ other ∈ s.receiving))
    (name : String) : name ∈ s'.receiving ↔ ∃ j r', t'.Underway j r' ∧ r'.name = name := by
  by_cases hname : name = r.name
  · subst hname
    rw [hself]
    constructor
    · exact fun hunderway => ⟨i, r, ⟨h.here, hunderway⟩, rfl⟩
    · rintro ⟨j, r', hr', hname⟩
      exact ((h.underway_self hname).mp hr').2.2
  · rw [hothers name hname, hlisted]
    refine exists_congr fun j => exists_congr fun r' => and_congr_left fun heq => ?_
    exact (h.underway_other fun hself => hname (heq.symm.trans hself)).symm

theorem Alters.distinct (h : t.Alters t' i r)
    (hdistinct : ∀ j k r₁ r₂, t.Underway j r₁ → t.Underway k r₂ → r₁.name = r₂.name → j = k) :
    ∀ j k r₁ r₂, t'.Underway j r₁ → t'.Underway k r₂ → r₁.name = r₂.name → j = k := by
  intro j k r₁ r₂ h₁ h₂ hname
  by_cases hself : r₁.name = r.name
  · rw [((h.underway_self hself).mp h₁).1,
      ((h.underway_self (hname.symm.trans hself)).mp h₂).1]
  · exact hdistinct j k r₁ r₂ ((h.underway_other hself).mp h₁)
      ((h.underway_other fun heq => hself (hname.trans heq)).mp h₂) hname

/-- A reception that is under way goes on. -/
theorem alters_set (hr : t.Underway i r)
    (hdistinct : ∀ j r', t.Underway j r' → r'.name = r.name → j = i) :
    t.Alters ⟨s', d', t.receptions.set i { r with stage }⟩ i { r with stage } := by
  obtain ⟨hi, -⟩ := List.getElem?_eq_some_iff.mp hr.1
  refine ⟨List.getElem?_set_self hi, fun j hj => List.getElem?_set_ne (Ne.symm hj),
    fun j r' hr' => ⟨hdistinct j r' hr', ?_⟩⟩
  rintro rfl
  cases hr.1.symm.trans hr'.1
  rfl

theorem getElem?_append_of_ne {rs : List Reception} (hj : j ≠ rs.length) :
    (rs ++ [r])[j]? = rs[j]? := by
  obtain hlt | hlt := Nat.lt_or_gt_of_ne hj
  · exact List.getElem?_append_left hlt
  · rw [List.getElem?_eq_none (by simp; omega), List.getElem?_eq_none (by omega)]

/-- A reception begins. -/
theorem alters_concat (hfree : ∀ j r', t.Underway j r' → r'.name ≠ r.name) :
    t.Alters ⟨s', d', t.receptions ++ [r]⟩ t.receptions.length r := by
  refine ⟨List.getElem?_concat_length, fun j hj => getElem?_append_of_ne hj,
    fun j r' hr' => iff_of_false (hfree j r' hr') ?_⟩
  rintro rfl
  exact absurd (List.getElem?_eq_some_iff.mp hr'.1).1 (Nat.lt_irrefl _)

/-- A reception that has ended as soon as it begins makes no difference. -/
theorem underway_concat_ended {name : String} {route : Route} {answer : FileKind} :
    Underway ⟨s', d', t.receptions ++ [{ name, route, stage := .ended answer }]⟩ j r' ↔
      t.Underway j r' := by
  by_cases hj : j = t.receptions.length
  · subst hj
    simp only [Underway, List.getElem?_concat_length, List.getElem?_eq_none (Nat.le_refl _),
      Option.some.injEq, reduceCtorEq, false_and, iff_false, not_and]
    rintro rfl
    nofun
  · simp only [Underway, getElem?_append_of_ne hj]

/-- Only the reception at a place has gone on, or has begun, and no other brings its name. -/
structure Moves (t t' : Traffic) (i : Nat) (r : Reception) : Prop where
  here : t'.receptions[i]? = some r
  others : ∀ j, j ≠ i → t'.receptions[j]? = t.receptions[j]?
  alone : ∀ j r', t.Underway j r' → (r'.name = r.name ↔ j = i)
  turns : Turns t.store t'.store t.disk t'.disk r

theorem Moves.alters (h : t.Moves t' i r) : t.Alters t' i r := ⟨h.here, h.others, h.alone⟩

theorem Alters.moves (h : t.Alters t' i r) (hturns : Turns t.store t'.store t.disk t'.disk r) :
    t.Moves t' i r :=
  ⟨h.here, h.others, h.alone, hturns⟩

theorem Moves.underway_self (h : t.Moves t' i r) (hname : r'.name = r.name) :
    t'.Underway j r' ↔ j = i ∧ r' = r ∧ r.stage.underway = true :=
  h.alters.underway_self hname

theorem Moves.underway_other (h : t.Moves t' i r) (hname : r'.name ≠ r.name) :
    t'.Underway j r' ↔ t.Underway j r' :=
  h.alters.underway_other hname

/-- The others fare as before. -/
theorem Moves.fares (h : t.Moves t' i r) (ht : t.Orderly) (hname : r'.name ≠ r.name)
    (hr' : t.Underway j r') : r'.Fares t'.store t'.disk := by
  have haccepted := ht.accepted j r' hr'
  refine (ht.fares j r' hr').touched h.turns.touches
    (Store.place_not_mem (Store.not_isPartial_of_accepts haccepted) hname)
    (Store.not_prefix_transit_of_ne h.turns.accepted hname) haccepted h.turns.root
    (h.turns.files _ hname).mp ?_
  exact (h.turns.receiving _ hname).mpr ((ht.listed _).mpr ⟨j, r', hr', rfl⟩)

theorem Moves.onDisk (h : t.Moves t' i r) (ht : t.Orderly)
    (hpartial : PartialName.isPartial name = false) (hunserved : name ∉ t'.store.files)
    (hincomplete : ∀ j r', t'.Underway j r' → r'.name = name → ∀ body, r'.stage ≠ .complete body) :
    t'.disk.entry? (t'.store.place name) = none := by
  by_cases hname : name = r.name
  · subst hname
    refine h.turns.onDisk hunserved fun body hstage => ?_
    exact hincomplete i r ⟨h.here, by rw [hstage]; rfl⟩ rfl body hstage
  · rw [Store.place, h.turns.root, ← Store.place,
      h.turns.touches.elsewhere _ (Store.place_not_mem hpartial hname)]
    refine ht.onDisk name hpartial (fun hmem => hunserved ((h.turns.files name hname).mpr hmem))
      fun j r' hr' heq => ?_
    have hother : r'.name ≠ r.name := fun hself => hname (heq.symm.trans hself)
    exact hincomplete j r' ((h.underway_other hother).mpr hr') heq

/-- The state in which a reception has gone on is orderly. -/
theorem Orderly.turn (ht : t.Orderly) (h : t.Moves t' i r) : t'.Orderly where
  tree := h.turns.touches.tree ht.tree
  root := by
    rw [h.turns.root]
    exact (h.turns.touches.folders _).mp ht.root
  files name := by
    rw [Store.place, h.turns.root, ← Store.place]
    exact fun hfolder => ht.files name ((h.turns.touches.folders _).mpr hfolder)
  serves name hmem := by
    by_cases hname : name = r.name
    · exact hname ▸ h.turns.serves (hname ▸ hmem)
    · obtain ⟨content, hserves⟩ := ht.serves name ((h.turns.files name hname).mp hmem)
      exact ⟨content, hserves.touched h.turns.touches (Store.place_not_mem
        (Store.not_isPartial_of_accepts hserves.accepted) hname) h.turns.root hmem⟩
  listed := h.alters.listed ht.listed h.turns.listed h.turns.receiving
  cancelled name hmem := by
    by_cases hname : name = r.name
    · subst hname
      exact h.turns.listed.mpr (h.turns.cleared hmem)
    · exact (h.turns.receiving name hname).mpr
        (ht.cancelled name ((h.turns.cancelled name hname).mp hmem))
  distinct := h.alters.distinct ht.distinct
  accepted j r' hr' := by
    by_cases hself : r'.name = r.name
    · exact hself ▸ h.turns.accepted
    · exact ht.accepted j r' ((h.underway_other hself).mp hr')
  fares j r' hr' := by
    by_cases hself : r'.name = r.name
    · obtain ⟨-, rfl, -⟩ := (h.underway_self hself).mp hr'
      exact h.turns.fares
    · exact h.fares ht hself ((h.underway_other hself).mp hr')
  onDisk _ := h.onDisk ht

/-- A reception whose file is served is as good as over. -/
theorem Reception.Fares.of_served (h : r.Fares s d) (hmem : r.name ∈ s.files) :
    r.stage = .decided .ok ∨ ∃ answer, r.stage = .ended answer := by
  obtain ⟨name, route, stage⟩ := r
  cases stage with
  | asking => exact absurd hmem h.unserved
  | collecting announced inflow body => exact absurd hmem h.1.unserved
  | complete body => exact absurd hmem h.1
  | decided answer =>
    by_cases hanswer : answer = .ok
    · exact .inl (by rw [hanswer])
    · exact absurd hmem (h hanswer).unserved
  | ended answer => exact .inr ⟨answer, rfl⟩

/-! ### Requests that are served in one step -/

theorem serve_eq (t : Traffic) (request : FileMessage) :
    request.kind ≠ .delete ∧ t.serve request = t ∨ request.kind = .delete ∧ t.serve request =
      { t with
        store := (t.store.delete t.disk request.file).1
        disk := (t.store.delete t.disk request.file).2.1 } := by
  cases hkind : request.kind <;> simp [serve, Store.serve, hkind]

/-- The names that a deletion removes. -/
def doomed (s : Store) (target : String) : List String :=
  (s.files.filter (StoredName.belongsTo · target)).toList

theorem mem_doomed {target : String} :
    name ∈ doomed s target ↔ name ∈ s.files ∧ StoredName.belongsTo name target = true := by
  rw [doomed, Std.ExtTreeSet.mem_toList, mem_filter_iff]

theorem Orderly.touches_delete (h : t.Orderly) (target : String) :
    t.disk.Touches (t.store.delete t.disk target).2.1 ((doomed t.store target).map t.store.place) ∧
      ∀ name ∈ doomed t.store target,
        Disk.entry? (t.store.delete t.disk target).2.1 (t.store.place name) = none := by
  have haccepted : ∀ name ∈ doomed t.store target, Store.accepts name = true := fun name hmem => by
    obtain ⟨content, hserves⟩ := h.serves name (mem_doomed.mp hmem).1
    exact hserves.accepted
  refine ⟨Store.touches_removeAll haccepted,
    Store.gone_removeAll (nodup_toList _) haccepted fun name hmem => ?_⟩
  obtain ⟨content, hserves⟩ := h.serves name (mem_doomed.mp hmem).1
  exact ⟨content, hserves.found⟩

theorem Orderly.delete (h : t.Orderly) (target : String) :
    Orderly { t with
      store := (t.store.delete t.disk target).1
      disk := (t.store.delete t.disk target).2.1 } := by
  obtain ⟨htouch, hgone⟩ := h.touches_delete target
  have hplace {name : String} (hname : name ∉ doomed t.store target) :
      t.store.place name ∉ (doomed t.store target).map t.store.place := by
    simp only [List.mem_map, not_exists, not_and, Store.place_eq_iff]
    exact fun other hother heq => hname (heq ▸ hother)
  have hshrinks (name : String) (hmem : name ∈ (t.store.delete t.disk target).1.files) :
      name ∈ t.store.files := (Store.mem_files_delete (d := t.disk).mp hmem).1
  refine ⟨htouch.tree h.tree, (htouch.folders _).mp h.root,
    fun name hfolder => h.files name ((htouch.folders _).mpr hfolder), fun name hmem => ?_,
    h.listed, fun name hmem => ?_, h.distinct, h.accepted, fun i r hr => ?_,
    fun name hpartial hunserved hincomplete => ?_⟩
  · obtain ⟨hstored, hkept⟩ := Store.mem_files_delete (d := t.disk).mp hmem
    obtain ⟨content, hserves⟩ := h.serves name hstored
    refine ⟨content, hserves.touched htouch (hplace fun hdoomed => ?_) rfl hmem⟩
    rw [(mem_doomed.mp hdoomed).2] at hkept
    cases hkept
  · obtain hmem | ⟨hmem, -⟩ := Store.mem_cancelled_delete (d := t.disk).mp hmem
    · exact h.cancelled name hmem
    · exact hmem
  · have haccepted := h.accepted i r hr
    by_cases hdoomed : r.name ∈ doomed t.store target
    · unfold Reception.Fares
      obtain hstage | ⟨answer, hstage⟩ := (h.fares i r hr).of_served (mem_doomed.mp hdoomed).1
      · rw [hstage]
        exact fun hne => absurd rfl hne
      · rw [hstage]
        trivial
    · refine (h.fares i r hr).touched htouch (hplace hdoomed) ?_ haccepted rfl (hshrinks _)
        ((h.listed _).mpr ⟨i, r, hr, rfl⟩)
      simp only [List.mem_map, forall_exists_index, and_imp, forall_apply_eq_imp_iff₂]
      intro other hother
      obtain ⟨content, hserves⟩ := h.serves other (mem_doomed.mp hother).1
      exact Store.not_prefix_transit hserves.accepted
  · by_cases hdoomed : name ∈ doomed t.store target
    · exact hgone name hdoomed
    · refine (htouch.elsewhere _ (hplace hdoomed)).trans
        (h.onDisk name hpartial (fun hmem => ?_) hincomplete)
      have hkept : StoredName.belongsTo name target = false := by
        simpa [mem_doomed, hmem] using hdoomed
      exact hunserved (Store.mem_files_delete (d := t.disk).mpr ⟨hmem, hkept⟩)

/-! ### Acts -/

theorem Reception.Fares.unserved (h : r.Fares s d) (hstage : r.stage.unpublished = true) :
    r.name ∉ s.files := by
  intro hmem
  obtain heq | ⟨answer, heq⟩ := h.of_served hmem <;> rw [heq] at hstage <;> cases hstage

theorem unpublished_failed (route : Route) :
    route.failed = .asking ∨ route.failed = .decided .fail := by
  cases route
  · exact .inr rfl
  · exact .inl rfl

/-- A reception that was not published goes on. Only the disk changes. -/
theorem Orderly.turns_disk (h : t.Orderly) (hr : t.Underway i r)
    (hunserved : r.name ∉ t.store.files)
    (htouch : t.disk.Touches d' [t.store.transit r.name, t.store.place r.name])
    (hstage : stage.underway = true)
    (hfares : Reception.Fares t.store d' { r with stage })
    (honDisk : (∀ body, stage ≠ .complete body) → d'.entry? (t.store.place r.name) = none) :
    Turns t.store t.store t.disk d' { r with stage } where
  root := rfl
  touches := htouch
  accepted := h.accepted i r hr
  files _ _ := Iff.rfl
  receiving _ _ := Iff.rfl
  cancelled _ _ := Iff.rfl
  listed := iff_of_true ((h.listed _).mpr ⟨i, r, hr, rfl⟩) hstage
  cleared _ := hstage
  serves hmem := absurd hmem hunserved
  fares := hfares
  onDisk _ := honDisk

/-- Bytes are collected. Only the sibling was touched. -/
theorem Orderly.turns_collecting {announced : Option UInt64} {inflow : Inflow} {body : Bytes}
    (h : t.Orderly) (hr : t.Underway i r) (hlacks : t.store.Lacks t.disk r.name)
    (hreceives : t.store.Receives d' r.name inflow body)
    (htouch : t.disk.Touches d' [t.store.transit r.name]) :
    Turns t.store t.store t.disk d' { r with stage := .collecting announced inflow body } := by
  have hlacks' : t.store.Lacks d' r.name :=
    hlacks.touched htouch (Store.place_not_mem_transit (h.accepted i r hr)) rfl id
  exact h.turns_disk hr hlacks.unserved (htouch.mono (by simp)) rfl ⟨hlacks', hreceives⟩
    fun _ => hlacks'.gone

/-- The attempt of a sender has failed. Only the sibling was touched. -/
theorem Orderly.turns_failed (h : t.Orderly) (hr : t.Underway i r)
    (hlacks : t.store.Lacks t.disk r.name) (htouch : t.disk.Touches d' [t.store.transit r.name]) :
    Turns t.store t.store t.disk d' { r with stage := r.route.failed } := by
  have hlacks' : t.store.Lacks d' r.name :=
    hlacks.touched htouch (Store.place_not_mem_transit (h.accepted i r hr)) rfl id
  refine h.turns_disk hr hlacks.unserved (htouch.mono (by simp)) ?_ ?_ fun _ => hlacks'.gone <;>
    unfold Route.failed
  · cases r.route <;> rfl
  · cases r.route
    · exact fun _ => hlacks'
    · exact hlacks'

/-- A whole file is published, unless it was deleted. -/
theorem Orderly.turns_published {body : Bytes} (h : t.Orderly) (hr : t.Underway i r)
    (hunserved : r.name ∉ t.store.files)
    (hfound : t.disk.lookup (t.store.path r.name) = .ok (.file body)) :
    Turns t.store (t.store.publish t.disk r.name).1 t.disk (t.store.publish t.disk r.name).2.1
      { r with
        stage := .decided (if (t.store.publish t.disk r.name).2.2 then .ok else .fail) } := by
  have haccepted := h.accepted i r hr
  have hlisted : r.name ∈ t.store.receiving := (h.listed _).mpr ⟨i, r, hr, rfl⟩
  by_cases hcancelled : r.name ∈ t.store.cancelled
  · obtain ⟨d', heq, htouch, hgone⟩ := Store.publish_of_cancelled hcancelled haccepted hfound
    rw [heq]
    have hunserved' : r.name ∉ t.store.files.erase r.name :=
      fun hmem => hunserved (Std.ExtTreeSet.mem_erase.mp hmem).2
    exact {
      root := rfl
      touches := htouch.mono (by simp)
      accepted := haccepted
      files := fun _ => mem_erase_of_ne
      receiving := fun _ _ => Iff.rfl
      cancelled := fun _ => mem_erase_of_ne
      listed := iff_of_true hlisted rfl
      cleared := fun _ => rfl
      serves := fun hmem => absurd hmem hunserved'
      fares := fun _ => ⟨hunserved', hgone⟩
      onDisk := fun _ _ => hgone }
  · rw [Store.publish_of_kept hcancelled]
    have hstored : r.name ∈ t.store.files.insert r.name := Std.ExtTreeSet.mem_insert_self
    exact {
      root := rfl
      touches := .refl _ _
      accepted := haccepted
      files := fun _ => mem_insert_of_ne
      receiving := fun _ _ => Iff.rfl
      cancelled := fun _ _ => Iff.rfl
      listed := iff_of_true hlisted rfl
      cleared := fun _ => rfl
      serves := fun _ => ⟨body, hstored, haccepted, hfound⟩
      fares := fun hne => absurd rfl hne
      onDisk := fun hunserved => absurd hstored hunserved }

/-- The store is done with a reception. -/
theorem Orderly.turns_ended (h : t.Orderly) (hr : t.Underway i r)
    (hincomplete : ∀ body, r.stage ≠ .complete body) (answer : FileKind) :
    Turns t.store (t.store.endReceiving r.name) t.disk t.disk
      { r with stage := .ended answer } where
  root := rfl
  touches := .refl _ _
  accepted := h.accepted i r hr
  files _ _ := Iff.rfl
  receiving other hne :=
    Store.mem_receiving_endReceiving.trans (and_iff_right (Ne.symm hne))
  cancelled other hne :=
    Store.mem_cancelled_endReceiving.trans (and_iff_right (Ne.symm hne))
  listed := iff_of_false (fun hmem => (Store.mem_receiving_endReceiving.mp hmem).1 rfl) nofun
  cleared hmem := absurd rfl (Store.mem_cancelled_endReceiving.mp hmem).1
  serves hmem := by
    obtain ⟨content, hserves⟩ := h.serves r.name hmem
    exact ⟨content, hserves.stored, hserves.accepted, hserves.found⟩
  fares := trivial
  onDisk hunserved _ := by
    refine h.onDisk r.name (Store.not_isPartial_of_accepts (h.accepted i r hr)) hunserved
      fun j r' hr' hname body hstage => ?_
    obtain rfl := h.distinct i j r r' hr hr' hname.symm
    cases hr.1.symm.trans hr'.1
    exact hincomplete body hstage

theorem Orderly.turns (h : t.Orderly) (hr : t.Underway i r)
    (ha : r.Acts t.store t.disk a s' d' stage) : Turns t.store s' t.disk d' { r with stage } := by
  have hfares := h.fares i r hr
  have hlisted : r.name ∈ t.store.receiving := (h.listed _).mpr ⟨i, r, hr, rfl⟩
  unfold Reception.Fares at hfares
  cases ha with
  | offered hstage hs =>
    rw [hstage] at hfares
    obtain ⟨hreceives, htouch⟩ := Store.receives_start (h.accepted i r hr) hs hlisted rfl
    exact h.turns_collecting hr hfares hreceives htouch
  | refused hstage hs =>
    rw [hstage] at hfares
    exact h.turns_failed hr hfares (Transfer.start_error hs ▸ .refl _ _)
  | arrived bytes hstage =>
    rw [hstage] at hfares
    obtain ⟨hreceives, htouch⟩ := hfares.2.collect bytes
    exact h.turns_collecting hr hfares.1 hreceives htouch
  | completed hstage hf =>
    rw [hstage] at hfares
    obtain ⟨-, -, htouch, hfound⟩ := hfares.2.finish_ok h.tree hf
    exact h.turns_disk hr hfares.1.unserved htouch rfl ⟨hfares.1.unserved, hfound⟩
      fun hincomplete => absurd rfl (hincomplete _)
  | lost hstage hf =>
    rw [hstage] at hfares
    exact h.turns_failed hr hfares.1 (hfares.2.finish_error hf)
  | aborted hstage =>
    rw [hstage] at hfares
    have hclosed := touches_close hfares.2.collects.opened
    exact h.turns_failed hr hfares.1 (hclosed.trans
      (Transfer.touches_abandon (hclosed.folders.resolve_eq_ok.mp hfares.2.reached)))
  | stalled hstage =>
    rw [hstage] at hfares
    exact h.turns_failed hr hfares.1 (touches_close hfares.2.collects.opened)
  | published hstage =>
    rw [hstage] at hfares
    exact h.turns_published hr hfares.1 hfares.2
  | givenUp hstage => exact h.turns_ended hr (fun _ => by rw [hstage]; nofun) _
  | finished hstage => exact h.turns_ended hr (fun _ => by rw [hstage]; nofun) _

/-- What an act does, if it does anything. -/
theorem act_eq (t : Traffic) (i : Nat) (a : Act) :
    t.act i a = t ∨ ∃ r store disk stage, t.Underway i r ∧
      r.Acts t.store t.disk a store disk stage ∧
      t.act i a = { store, disk, receptions := t.receptions.set i { r with stage } } := by
  cases hr : t.receptions[i]? with
  | none =>
    unfold act
    rw [hr]
    exact .inl rfl
  | some r =>
    cases ha : r.act t.store t.disk a with
    | none =>
      exact .inl (by simp only [act, hr, ha])
    | some next =>
      obtain ⟨store, disk, stage⟩ := next
      have hacts := Reception.acts_of_act ha
      have hunderway : r.stage.underway = true := by
        cases hacts <;> simp only [*] <;> rfl
      refine .inr ⟨r, store, disk, stage, ⟨hr, hunderway⟩, hacts, ?_⟩
      unfold act
      simp only [hr, ha]

theorem Orderly.act (h : t.Orderly) (i : Nat) (a : Act) : (t.act i a).Orderly := by
  obtain heq | ⟨r, store, disk, stage, hr, hacts, heq⟩ := t.act_eq i a <;> rw [heq]
  · exact h
  · refine h.turn ((alters_set hr fun j r' hr' => h.distinct j i r' r hr' hr).moves ?_)
    exact h.turns hr hacts

/-- How a reception begins. -/
theorem begin_eq (t : Traffic) (route : Route) (name : String) :
    (Store.accepts name = true ∧ name ∉ t.store.files ∧ name ∉ t.store.receiving) ∧
        t.begin route name =
          { t with
            store := t.store.beginReceiving name
            receptions := t.receptions ++ [{ name, route, stage := .asking }] } ∨
      ¬ (Store.accepts name = true ∧ name ∉ t.store.files ∧ name ∉ t.store.receiving) ∧
        ∃ answer, answer ≠ .ok ∧ t.begin route name =
          { t with receptions := t.receptions ++ [{ name, route, stage := .ended answer }] } := by
  obtain ⟨hfree, heq⟩ | ⟨hbusy, answer, hanswer, heq⟩ := t.store.beginCopy_cases name
  · refine .inl ⟨hfree, ?_⟩
    unfold begin
    rw [heq]
    rfl
  · refine .inr ⟨hbusy, route.refusal answer, ?_, ?_⟩
    · cases route
      · nofun
      · exact hanswer
    · unfold begin
      rw [heq]
      rfl

theorem Orderly.begin (h : t.Orderly) (route : Route) (name : String) :
    (t.begin route name).Orderly := by
  obtain ⟨⟨haccepted, hunserved, hfree⟩, heq⟩ | ⟨-, answer, -, heq⟩ := t.begin_eq route name <;>
    rw [heq]
  · have hidle (j : Nat) (r' : Reception) (hr' : t.Underway j r') : r'.name ≠ name :=
      fun hname => hfree ((h.listed name).mpr ⟨j, r', hr', hname⟩)
    refine h.turn ((alters_concat hidle).moves ?_)
    exact {
      root := rfl
      touches := .refl _ _
      accepted := haccepted
      files := fun _ _ => Iff.rfl
      receiving := fun other hne =>
        Store.mem_receiving_beginReceiving.trans (or_iff_right (Ne.symm hne))
      cancelled := fun other hne =>
        Store.mem_cancelled_beginReceiving.trans (and_iff_right (Ne.symm hne))
      listed := iff_of_true (Store.mem_receiving_beginReceiving.mpr (.inl rfl)) rfl
      cleared := fun _ => rfl
      serves := fun hmem => absurd hmem hunserved
      fares := ⟨hunserved, h.onDisk name (Store.not_isPartial_of_accepts haccepted) hunserved
        fun j r' hr' hname => absurd hname (hidle j r' hr')⟩
      onDisk := fun _ _ => h.onDisk name (Store.not_isPartial_of_accepts haccepted) hunserved
        fun j r' hr' hname => absurd hname (hidle j r' hr') }
  · refine ⟨h.tree, h.root, h.files, h.serves, ?_, h.cancelled, ?_, ?_, ?_, ?_⟩ <;>
      simp only [underway_concat_ended]
    · exact h.listed
    · exact h.distinct
    · exact h.accepted
    · exact h.fares
    · exact h.onDisk

theorem Orderly.serve (h : t.Orderly) (request : FileMessage) : (t.serve request).Orderly := by
  obtain ⟨-, heq⟩ | ⟨-, heq⟩ := t.serve_eq request <;> rw [heq]
  · exact h
  · exact h.delete request.file

theorem Orderly.step (h : t.Orderly) (event : Event) : (t.step event).Orderly := by
  cases event with
  | serve request => exact h.serve request
  | begin route name => exact h.begin route name
  | act i a => exact h.act i a

theorem Orderly.run (h : t.Orderly) (events : List Event) : (t.run events).Orderly := by
  induction events generalizing t with
  | nil => exact h
  | cons event events ih => exact ih (h.step event)

/-! ### A store that was opened -/

theorem opened_eq {d₀ : Disk} {folder : FilePath} (hopen : Store.openAt d₀ folder = (d, .ok s)) :
    d₀.openEmpty folder = (d, .ok s.root) ∧ s = { root := s.root } := by
  unfold Store.openAt at hopen
  cases ho : d₀.openEmpty folder with
  | mk made result =>
    rw [ho] at hopen
    cases result with
    | error fault => cases hopen
    | ok root =>
      cases hopen
      exact ⟨rfl, rfl⟩

/-- A store is opened in an empty folder, where the path of the folder names no `..`. -/
theorem children_opened {d₀ : Disk} {folder : FilePath} (ht : d₀.IsTree)
    (hopen : Store.openAt d₀ folder = (d, .ok s)) (hfolder : ".." ∉ pieces folder.text.toList) :
    d.children s.root = [] :=
  children_openEmpty ht hfolder (opened_eq hopen).1

/-- A store in an empty folder. -/
theorem orderly_opened {folder : FilePath} {d₀ : Disk} (ht : d₀.IsTree)
    (hopen : Store.openAt d₀ folder = (d, .ok s)) (hempty : d.children s.root = []) :
    Orderly { store := s, disk := d } := by
  obtain ⟨hroot, hs⟩ := opened_eq hopen
  obtain ⟨htree, hfolder⟩ := openEmpty_ok ht hroot
  generalize s.root = root at hroot hempty hs htree hfolder
  subst hs
  have hnone (name : String) : d.entry? (root ++ [name]) = none := by
    cases he : d.entry? (root ++ [name]) with
    | none => rfl
    | some e =>
      have hmem := mem_children.mpr he
      rw [hempty] at hmem
      cases hmem
  have hnobody (i : Nat) (r : Reception) :
      ¬ Underway { store := { root }, disk := d } i r := fun hr => nomatch hr.1
  refine ⟨htree, hfolder, fun name => ?_, fun name hmem => ?_, fun name => ?_, fun name hmem => ?_,
    fun i _ r _ hr => absurd hr (hnobody i r), fun i r hr => absurd hr (hnobody i r),
    fun i r hr => absurd hr (hnobody i r), fun name _ _ _ => hnone name⟩
  · exact (hnone name).trans_ne nofun
  · exact absurd hmem Std.ExtTreeSet.not_mem_empty
  · exact iff_of_false Std.ExtTreeSet.not_mem_empty fun ⟨i, r, hr, _⟩ => hnobody i r hr
  · exact absurd hmem Std.ExtTreeSet.not_mem_empty

end Traffic

end ReplicaRing
