import ReplicaRing.Proofs.Disk.Programs
import ReplicaRing.Proofs.Store.Traffic

/-!
# What a store uses of the disk

A store uses the files of the names that it accepts and the siblings in which their bytes are
collected, all of them entries of its folder. Names that come from others are checked when a
reception begins and when a file is asked for; deletions and all that follows the beginning of a
reception go by names that were checked before.
-/
namespace ReplicaRing

open Disk

namespace Store

variable {s : Store} {d : Disk} {p : FilePath} {scope : Scope} {name : String} {t : Target}

/-- The path of the file of a name that is accepted, or of its sibling. -/
def Owns (s : Store) (p : FilePath) : Prop :=
  ∃ name, accepts name = true ∧ (p = s.path name ∨ p = (s.path name).inTransit)

theorem owns_path (h : accepts name = true) : s.Owns (s.path name) := ⟨name, h, .inl rfl⟩

theorem owns_inTransit (h : accepts name = true) : s.Owns (s.path name).inTransit :=
  ⟨name, h, .inr rfl⟩

/-- The paths of a store are plain names in its folder. -/
theorem Owns.plain (h : s.Owns p) : p.folder = s.root ∧ Plain p.text := by
  obtain ⟨name, haccepted, rfl | rfl⟩ := h
  · exact ⟨rfl, plain_of_accepts haccepted⟩
  · rw [inTransit_path haccepted]
    exact ⟨rfl, PartialName.plain_ofName (plain_of_accepts haccepted).no_slash⟩

/-- Whatever is on the disk, such a path leads to an entry of the folder of the store. -/
theorem Owns.location (h : s.Owns p) (ht : d.resolve p = .ok t) :
    t.location = s.root ++ [p.text] := by
  obtain ⟨folder, text⟩ := p
  obtain ⟨rfl, hplain⟩ := h.plain
  obtain ⟨-, -, rfl⟩ := (resolve_plain hplain).mp ht
  rfl

/-! ### Requests that are served in one step -/

theorem within_get (hs : ∀ p, s.Owns p → scope.paths p) (name : String) :
    Within scope fun d => (d, s.get d name) := by
  by_cases hstored : s.contains name = true
  · by_cases haccepted : accepts name = true
    · have hpath := hs _ (owns_path haccepted)
      have hread (size : Nat) :=
        let reply := some { FileMessage.ok with size := some (UInt64.ofNat size) }
        (Within.read hpath).either
          (fun body => .pure ({ reply, body, notes := [.served name body.length] } : Answer))
          fun fault => .pure ({ reply, fault := some (.io fault) } : Answer)
      refine ((Within.size hpath).either hread
        fun fault => .pure { fault := some (.io fault) }).congr fun d => ?_
      simp only [get, hstored, haccepted]
      cases d.size (s.path name) with
      | error fault => rfl
      | ok size =>
        dsimp only
        cases d.read (s.path name) <;> rfl
    · refine (Within.pure { fault := some (.invalidName name) }).congr fun d => ?_
      simp [get, hstored, haccepted]
  · refine (Within.pure { reply := some .fail }).congr fun d => ?_
    simp [get, hstored]

theorem within_removeAll (hs : ∀ p, s.Owns p → scope.paths p) {names : List String}
    (hnames : ∀ name ∈ names, accepts name = true) : Within scope (s.removeAll · names) := by
  unfold removeAll
  generalize ({} : Deletion) = r
  induction names generalizing r with
  | nil => exact .pure r
  | cons name names ih =>
    rw [List.forall_mem_cons] at hnames
    refine ((Within.remove (hs _ (owns_path hnames.1))).either
      (fun _ => ih hnames.2 { r with removed := r.removed + 1 })
      fun _ => ih hnames.2 { r with stuck := r.stuck ++ [name] }).congr fun d => ?_
    unfold attempt
    rw [List.foldl_cons]
    cases hr : d.remove (s.path name) <;> simp [hr]

/-- A deletion goes by the names that are stored. -/
theorem within_delete (hs : ∀ p, s.Owns p → scope.paths p)
    (hfiles : ∀ name ∈ s.files, accepts name = true) (target : String) :
    Within scope fun d =>
      let (s', d', r) := s.delete d target
      (d', s', r) := by
  have hdoomed : ∀ name ∈ (s.files.filter (StoredName.belongsTo · target)).toList,
      accepts name = true := fun name hname => by
    rw [Std.ExtTreeSet.mem_toList, mem_filter_iff] at hname
    exact hfiles name hname.1
  exact (within_removeAll hs hdoomed).map fun r =>
    ({ s with
        files := s.files.filter (!StoredName.belongsTo · target)
        cancelled := s.cancelled.insertMany
          (s.receiving.filter (StoredName.belongsTo · target)).toList }, r)

theorem within_serve (hs : ∀ p, s.Owns p → scope.paths p)
    (hfiles : ∀ name ∈ s.files, accepts name = true) (request : FileMessage) :
    Within scope fun d =>
      let (s', d', answer) := s.serve d request
      (d', s', answer) := by
  unfold serve
  split
  · exact (within_get hs request.file).map fun answer => (s, answer)
  · exact ((within_delete hs hfiles request.file).map fun (s', r) =>
      (s', ({ notes := r.notes request.file } : Answer))).congr fun _ => rfl
  · exact .pure _
  · exact .pure _

/-! ### Receptions -/

theorem within_publish (hs : ∀ p, s.Owns p → scope.paths p) (h : accepts name = true) :
    Within scope fun d =>
      let (s', d', kept) := s.publish d name
      (d', s', kept) := by
  unfold publish
  split
  · exact (Within.tryRemove (hs _ (owns_path h))).map fun _ =>
      ({ s with files := s.files.erase name, cancelled := s.cancelled.erase name }, false)
  · exact .pure _

end Store

namespace Traffic

variable {t : Traffic}

/-- What a store and its receptions may use: the paths of the store, and the handles of the files in
which bytes are collected. -/
def scope (t : Traffic) : Scope where
  paths := t.store.Owns
  handles h := ∃ i r announced inflow body,
    t.Underway i r ∧ r.stage = .collecting announced inflow body ∧ inflow.handle = h

theorem owns_scope (t : Traffic) : ∀ p, t.store.Owns p → t.scope.paths p := fun _ => id

/-- An event as a program of the disk. -/
def program (t : Traffic) (event : Event) (d : Disk) : Disk × Store × List Reception :=
  let t' := step { t with disk := d } event
  (t'.disk, t'.store, t'.receptions)

theorem step_eq_program (t : Traffic) (event : Event) :
    t.step event =
      let (disk, store, receptions) := t.program event t.disk
      { store, disk, receptions } :=
  rfl

/-- An act as a program, which says what has become of the store and the reception. -/
def Reception.program (r : Reception) (s : Store) (a : Act) (d : Disk) :
    Disk × Option (Store × Stage) :=
  match r.act s d a with
  | some (s', d', stage) => (d', some (s', stage))
  | none => (d, none)

theorem Reception.within_program {r : Reception} {s : Store} {scope : Scope}
    (hs : ∀ p, s.Owns p → scope.paths p)
    (hname : r.stage.underway = true → Store.accepts r.name = true)
    (hh : ∀ announced inflow body, r.stage = .collecting announced inflow body →
      scope.handles inflow.handle) (a : Act) : Within scope (r.program s a) := by
  obtain ⟨name, route, stage⟩ := r
  have hpath (h : stage.underway = true) := hs _ (Store.owns_path (s := s) (hname h))
  have htransit (h : stage.underway = true) := hs _ (Store.owns_inTransit (s := s) (hname h))
  cases stage with
  | asking =>
    cases a with
    | offer announced =>
      refine ((Transfer.within_start (htransit rfl)).either
        (fun inflow => .pure (some (s, Stage.collecting announced inflow [])))
        fun _ => .pure (some (s, route.failed))).congr fun d => ?_
      unfold Reception.program Reception.act
      cases hstart : Transfer.start d (s.path name) with
      | mk d' result => cases result <;> simp
    | finish => exact .pure (some (s.endReceiving name, Stage.ended .fail))
    | _ => exact .pure none
  | collecting announced inflow body =>
    have hh := hh announced inflow body rfl
    cases a with
    | arrive bytes =>
      exact (Transfer.within_collect hh bytes).map fun inflow' =>
        some (s, Stage.collecting announced inflow' (body ++ bytes))
    | close =>
      refine ((Transfer.within_finish (hpath rfl) (htransit rfl) hh announced).either
        (fun _ => .pure (some (s, Stage.complete body)))
        fun _ => .pure (some (s, route.failed))).congr fun d => ?_
      unfold Reception.program Reception.act
      cases hfinish : Transfer.finish d (s.path name) announced inflow with
      | mk d' result => cases result <;> simp [hfinish]
    | abort =>
      exact (Transfer.within_abandon_close (htransit rfl) hh).map fun _ => some (s, route.failed)
    | stall => exact (Transfer.within_stall hh).map fun _ => some (s, route.failed)
    | _ => exact .pure none
  | complete body =>
    cases a with
    | publish =>
      exact (Store.within_publish hs (hname rfl)).map fun (s', kept) =>
        some (s', Stage.decided (if kept then .ok else .fail))
    | _ => exact .pure none
  | decided answer =>
    cases a with
    | finish => exact .pure (some (s.endReceiving name, Stage.ended answer))
    | _ => exact .pure none
  | ended answer => cases a <;> exact .pure none

/-- Whatever happens at a store that has checked its names stays in its scope. -/
theorem within_program (hfiles : ∀ name ∈ t.store.files, Store.accepts name = true)
    (hunderway : ∀ i r, t.Underway i r → Store.accepts r.name = true) (event : Event) :
    Within t.scope (t.program event) := by
  cases event with
  | serve request =>
    exact (Store.within_serve t.owns_scope hfiles request).map
      fun (store, _) => (store, t.receptions)
  | begin route name =>
    exact (Within.pure ((t.begin route name).store, (t.begin route name).receptions)).congr
      fun _ => rfl
  | act i a =>
    cases hr : t.receptions[i]? with
    | none =>
      refine (Within.pure (t.store, t.receptions)).congr fun d => ?_
      simp [program, step, act, hr]
    | some r =>
      refine ((r.within_program t.owns_scope ?_ ?_ a).map fun
        | some (store, stage) => (store, t.receptions.set i { r with stage })
        | none => (t.store, t.receptions)).congr fun d => ?_
      · exact fun h => hunderway i r ⟨hr, h⟩
      · exact fun announced inflow body h => ⟨i, r, announced, inflow, body, ⟨hr, h ▸ rfl⟩, h, rfl⟩
      · cases ha : r.act t.store d a <;> simp [program, step, act, Reception.program, hr, ha]

end Traffic

end ReplicaRing
