import ReplicaRing.Proofs.Tenure.Origins

/-!
# What a deletion leaves behind

A deletion forgets a file and orders the recorded holders to delete what they hold. It does not
reach what the record does not list: the copies of a put that is not reported, and those that are
being made. Whatever is left when all orders have been served was unlisted when the file was
deleted, and what was stored and unlisted is left.
-/
namespace ReplicaRing

/-! ### Names and catalogs -/

namespace StoredName

open Text

theorem length_joinExtension_append (stem suffix : List Char) (extension : Option (List Char)) :
    (joinExtension (stem ++ suffix) extension).length =
      (joinExtension stem extension).length + suffix.length := by
  cases extension with
  | none => exact List.length_append
  | some extension =>
    simp only [joinExtension, List.length_append]
    omega

/-- A stored name is longer than the name of its file. -/
theorem ofVersion_ne_self (file : String) (v : UInt64) : ofVersion file v ≠ file := by
  intro heq
  have hlength := congrArg (·.toList.length) heq
  have hfile := congrArg List.length (joinExtension_splitExtension file.toList)
  simp only [ofVersion, String.toList_ofList, length_joinExtension_append, List.length_cons]
    at hlength
  omega

end StoredName

namespace Directory

variable {d : Directory} {file : String}

/-- Catalogs tell of a file if a name in them is a version of it. -/
theorem record?_foldl_recover (m : Member) (names : List String) :
    (names.foldl (·.recover m ·) d).record? file = none ↔
      d.record? file = none ∧ ∀ name ∈ names, ∀ v, StoredName.parse? name ≠ some (file, v) := by
  induction names generalizing d with
  | nil => simp only [List.foldl_nil, List.not_mem_nil, false_implies, implies_true, and_true]
  | cons name names ih =>
    have hfirst : (d.recover m name).record? file = none ↔
        d.record? file = none ∧ ∀ v, StoredName.parse? name ≠ some (file, v) := by
      cases hp : StoredName.parse? name with
      | none => simp only [recover_of_unversioned hp, reduceCtorEq, ne_eq, not_false_eq_true,
          implies_true, and_true]
      | some found =>
        obtain ⟨f, w⟩ := found
        rw [record?_recover hp]
        by_cases hf : f = file
        · subst hf
          rw [if_pos rfl]
          exact iff_of_false nofun fun h => h.2 w rfl
        · rw [if_neg hf]
          exact (and_iff_left fun v heq => hf (Prod.mk.inj (Option.some.inj heq)).1).symm
    rw [List.foldl_cons, ih, hfirst, and_assoc, List.forall_mem_cons]

theorem record?_rebuild (catalogs : List (Member × NameSet)) :
    (rebuild catalogs).record? file = none ↔
      ∀ catalog ∈ catalogs, ∀ name ∈ catalog.2, ∀ v, StoredName.parse? name ≠ some (file, v) := by
  have hall (d : Directory) :
      (catalogs.foldl (fun d catalog => catalog.2.toList.foldl (·.recover catalog.1 ·) d) d).record?
          file = none ↔ d.record? file = none ∧
        ∀ catalog ∈ catalogs, ∀ name ∈ catalog.2, ∀ v, StoredName.parse? name ≠ some (file, v) := by
    induction catalogs generalizing d with
    | nil => simp only [List.foldl_nil, List.not_mem_nil, false_implies, implies_true, and_true]
    | cons catalog catalogs ih =>
      simp only [List.foldl_cons, ih, record?_foldl_recover, Std.ExtTreeSet.mem_toList, and_assoc,
        List.forall_mem_cons]
  exact (hall {}).trans (and_iff_right record?_empty)

end Directory

namespace Tenure

variable {t t' : Tenure} {e : Event} {m : Member} {file name remote : String} {v : UInt64}
  {later : List Event}

/-- A coordinator that starts now, when every member tells what it stores. -/
def recovered (t : Tenure) : Coordinator :=
  Coordinator.recover (m := Id) t.coordinator.placement
    { catalog := fun m => some (t.stores.store m).files, copy := fun _ => none } t.members

theorem recovered_directory (t : Tenure) : t.recovered.directory =
    Directory.rebuild (t.members.map fun m => (m, (t.stores.store m).files)) := by
  have hanswers : t.members.mapM (m := Id) (fun m => pure (m, some (t.stores.store m).files)) =
      t.members.map fun m => (m, some (t.stores.store m).files) := List.mapM_pure
  have hcatalogs : t.recovered.directory = Directory.rebuild
      (List.filterMap (fun answer => answer.2.map (answer.1, ·))
        (t.members.mapM (m := Id) fun m => pure (m, some (t.stores.store m).files))) := rfl
  rw [hcatalogs, hanswers, List.filterMap_map, ← List.filterMap_eq_map]
  rfl

/-- A file comes back if a member stores a version of it. -/
theorem recovered_versions (t : Tenure) (file : String) : t.recovered.versions file = .fail ↔
    ∀ m ∈ t.members, ∀ name ∈ (t.stores.store m).files, ∀ v,
      StoredName.parse? name ≠ some (file, v) := by
  rw [Coordinator.versions_eq_fail_iff, recovered_directory, Directory.record?_rebuild,
    List.forall_mem_map]

/-! ### Copies that vanish -/

/-- Copies that the record of a file does not list: one that is stored, and whatever may still
become one, which is a put that is not reported, or an order to copy or a copy that is not
answered. -/
inductive Unlisted (t : Tenure) (file : String) (m : Member) (name : String) : Prop
  | stored (hstored : name ∈ (t.stores.store m).files)
      (hunheld : ∀ v, StoredName.ofVersion file v = name →
        ¬ t.coordinator.directory.Holds file v m)
  | sending (s : Sending) (hs : s ∈ t.sendings) (hname : s.put.storedName = name)
  | push (p : Push) (hp : p ∈ t.pushes) (hm : p.target = m) (hname : p.put.storedName = name)
  | report (r : FileMessage) (v : UInt64) (hr : r ∈ t.reports) (hversion : r.version = some v)
      (hname : StoredName.ofVersion r.file v = name)
  | order (o : CopyOrder) (ho : o ∈ t.orders) (hm : o.target = m) (hname : o.storedName = name)
  | copy (c : Copying) (hc : c ∈ t.copies) (hm : c.order.target = m)
      (hname : c.order.storedName = name)

/-- Nothing makes a member store a name, and if it does store it, an order to delete it is on its
way. -/
structure Vanishes (t : Tenure) (m : Member) (name : String) : Prop where
  sendings : ∀ s ∈ t.sendings, s.put.storedName ≠ name
  pushes : ∀ p ∈ t.pushes, p.target = m → p.put.storedName ≠ name
  reports : ∀ r ∈ t.reports, ∀ v, r.version = some v → StoredName.ofVersion r.file v ≠ name
  orders : ∀ o ∈ t.orders, o.target = m → o.storedName ≠ name
  copies : ∀ c ∈ t.copies, c.order.target = m → c.order.storedName ≠ name
  unheld : ∀ file v holder, t.coordinator.directory.Holds file v holder →
    StoredName.ofVersion file v ≠ name
  ordered : name ∈ (t.stores.store m).files →
    (m, name) ∈ t.deletions ∧ ∃ file v, StoredName.ofVersion file v = name

theorem file_eq_of_ofVersion {g : String} {w : UInt64}
    (hname : StoredName.parse? name = some (file, v)) (h : StoredName.ofVersion g w = name) :
    g = file := by
  rw [← h, StoredName.parse?_ofVersion] at hname
  exact (Prod.mk.inj (Option.some.inj hname)).1

namespace Vanishes

/-- The file has been deleted. -/
theorem delete (hfile : RemoteName.flatten remote = file)
    (hname : StoredName.parse? name = some (file, v)) (h : ¬ t.Unlisted file m name) :
    (t.delete remote).Vanishes m name where
  sendings s hs heq := h (.sending s hs heq)
  pushes p hp hm heq := h (.push p hp hm heq)
  reports r hr v hversion heq := h (.report r v hr hversion heq)
  orders o ho hm heq := h (.order o ho hm heq)
  copies c hc hm heq := h (.copy c hc hm heq)
  unheld g w holder hholds heq :=
    (Coordinator.holds_of_delete hholds).2 (hfile.trans (file_eq_of_ofVersion hname heq).symm)
  ordered hstored := by
    by_contra hnone
    refine h (.stored hstored fun w heq hholds =>
      hnone ⟨List.mem_append_right _ ?_, file, w, heq⟩)
    have horder : name ∈ (t.coordinator.delete file).2.ordersTo m :=
      Coordinator.mem_ordersTo_delete.mpr ⟨w, hholds, heq.symm⟩
    obtain ⟨⟨holder, target⟩, hlisted, htarget⟩ := List.mem_map.mp horder
    obtain ⟨hmem, hholder⟩ := List.mem_filter.mp hlisted
    cases of_decide_eq_true hholder
    cases htarget
    rw [← hfile] at hmem
    exact hmem

theorem stems (h : t.Vanishes m name) (hstems : t.Stems e t')
    (hname : StoredName.parse? name = some (file, v)) (hplans : e.plans file = false)
    (hkept : ∀ i, e ≠ .loseDeletion i) : t'.Vanishes m name where
  sendings s hs heq := by
    obtain hplan | ⟨old, hold, hput⟩ := hstems.sendings s hs
    · rw [file_eq_of_ofVersion hname heq, hplans] at hplan
      cases hplan
    · exact h.sendings old hold (hput ▸ heq)
  pushes p hp hm heq := by
    obtain ⟨old, hold, hput, htarget⟩ | ⟨⟨s, hs, hput⟩, -⟩ := hstems.pushes p hp
    · exact h.pushes old hold (htarget.trans hm) (hput ▸ heq)
    · exact h.sendings s hs (hput ▸ heq)
  reports r hr w hversion heq := by
    obtain hold | ⟨s, hs, hfile, hsaid⟩ := hstems.reports r hr
    · exact h.reports r hold w hversion heq
    · cases hversion.symm.trans hsaid
      rw [hfile] at heq
      exact h.sendings s hs heq
  orders o ho hm heq := by
    obtain hold | ⟨holder, hholds⟩ := hstems.orders o ho
    · exact h.orders o hold hm heq
    · exact h.unheld _ _ holder hholds heq
  copies c hc hm heq := by
    obtain ⟨old, hold, horder⟩ | ⟨ho, -⟩ := hstems.copies c hc
    · exact h.copies old hold (horder ▸ hm) (horder ▸ heq)
    · exact h.orders _ ho hm heq
  unheld g w holder hholds heq := by
    obtain ⟨other, hother⟩ | ⟨r, hr, hfile, hversion⟩ := hstems.holds g w holder hholds
    · exact h.unheld g w other hother heq
    · exact h.reports r hr w hversion (hfile ▸ heq)
  ordered hstored := by
    obtain hbrought | hfiles := hstems.files m name
    · obtain ⟨p, hp, hm, heq⟩ | ⟨o, ho, hm, heq, -⟩ | ⟨c, hc, hm, heq⟩ := hbrought
      · exact absurd heq (h.pushes p hp hm)
      · exact absurd heq (h.orders o ho hm)
      · exact absurd heq (h.copies c hc hm)
    · obtain ⟨hstored, hdiscards⟩ := hfiles.mp hstored
      obtain ⟨hordered, hversion⟩ := h.ordered hstored
      obtain hkeeps | ⟨i, hi, rfl | rfl⟩ := hstems.deletions _ hordered
      · exact ⟨hkeeps, hversion⟩
      · exact absurd ⟨i, name, rfl, hi, StoredName.belongsTo_iff.mpr (.inl rfl)⟩ hdiscards
      · exact absurd rfl (hkept i)

theorem run (h : t.Vanishes m name) (hname : StoredName.parse? name = some (file, v))
    (hplans : ∀ e ∈ later, e.plans file = false) (hkept : ∀ i, Event.loseDeletion i ∉ later) :
    (t.run later).Vanishes m name := by
  induction later generalizing t with
  | nil => exact h
  | cons e later ih =>
    obtain ⟨he, hrest⟩ := List.forall_mem_cons.mp hplans
    have hfirst : ∀ i, e ≠ .loseDeletion i := fun i heq =>
      hkept i (heq ▸ List.mem_cons_self)
    exact ih (h.stems (stems_step t e) hname he hfirst) hrest fun i hi =>
      hkept i (List.mem_cons_of_mem _ hi)

end Vanishes

/-! ### Copies that stay -/

/-- A name is stored, nothing else brings it, and no order on its way reaches it. -/
structure Rests (t : Tenure) (m : Member) (name : String) : Prop where
  stored : name ∈ (t.stores.store m).files
  pushes : ∀ p ∈ t.pushes, p.target = m → p.put.storedName ≠ name
  copies : ∀ c ∈ t.copies, c.order.target = m → c.order.storedName ≠ name
  spared : ∀ target, (m, target) ∈ t.deletions → StoredName.belongsTo name target = false

/-- A file is deleted whose orders can reach the versions of `file`: `file` itself, or one that has
a version which is stored as `file`. -/
def Event.Reaches (file : String) (e : Event) : Prop :=
  ∃ remote, e = .delete remote ∧ (RemoteName.flatten remote = file ∨
    ∃ v, StoredName.ofVersion (RemoteName.flatten remote) v = file)

/-- An order for a version of another file, which is not stored as `file` either. -/
theorem belongsTo_ofVersion_eq_false {g : String} {w : UInt64}
    (hname : StoredName.parse? name = some (file, v)) (hself : StoredName.ofVersion g w ≠ name)
    (hfile : StoredName.ofVersion g w ≠ file) :
    StoredName.belongsTo name (StoredName.ofVersion g w) = false := by
  rw [← Bool.not_eq_true, StoredName.belongsTo_iff, hname]
  rintro (heq | ⟨u, heq⟩)
  · exact hself heq.symm
  · exact hfile (Prod.mk.inj (Option.some.inj heq)).1.symm

namespace Rests

/-- The file has been deleted, but the member was not recorded. -/
theorem delete (h : t.Rests m name) (hfile : RemoteName.flatten remote = file)
    (hname : StoredName.parse? name = some (file, v))
    (hunheld : ∀ w, StoredName.ofVersion file w = name →
      ¬ t.coordinator.directory.Holds file w m) : (t.delete remote).Rests m name := by
  refine { h with spared := fun target htarget => ?_ }
  have hstems : t.Stems (.delete remote) (t.delete remote) := .delete remote
  obtain hold | ⟨_, he, w, hholds, rfl⟩ := hstems.ordered _ htarget
  · exact h.spared target hold
  · cases he
    rw [hfile] at hholds ⊢
    exact belongsTo_ofVersion_eq_false hname (fun heq => hunheld w heq hholds)
      (StoredName.ofVersion_ne_self file w)

theorem stems (h : t.Rests m name) (hstems : t.Stems e t')
    (hname : StoredName.parse? name = some (file, v)) (hreaches : ¬ e.Reaches file) :
    t'.Rests m name where
  stored := by
    obtain hbrought | hfiles := hstems.files m name
    · obtain ⟨p, hp, hm, heq⟩ | ⟨o, -, -, -, hnew⟩ | ⟨c, hc, hm, heq⟩ := hbrought
      · exact absurd heq (h.pushes p hp hm)
      · exact absurd h.stored hnew
      · exact absurd heq (h.copies c hc hm)
    · refine hfiles.mpr ⟨h.stored, fun ⟨i, target, _, hi, hhit⟩ => ?_⟩
      rw [h.spared target (List.mem_of_getElem? hi)] at hhit
      cases hhit
  pushes p hp hm heq := by
    obtain ⟨old, hold, hput, htarget⟩ | ⟨-, hnew⟩ := hstems.pushes p hp
    · exact h.pushes old hold (htarget.trans hm) (hput ▸ heq)
    · rw [heq, hm] at hnew
      exact hnew h.stored
  copies c hc hm heq := by
    obtain ⟨old, hold, horder⟩ | ⟨-, hnew⟩ := hstems.copies c hc
    · exact h.copies old hold (horder ▸ hm) (horder ▸ heq)
    · rw [heq, hm] at hnew
      exact hnew h.stored
  spared target htarget := by
    obtain hold | ⟨remote, he, w, -, rfl⟩ := hstems.ordered _ htarget
    · exact h.spared target hold
    · refine belongsTo_ofVersion_eq_false hname (fun heq => hreaches ⟨remote, he, .inl ?_⟩)
        fun heq => hreaches ⟨remote, he, .inr ⟨w, heq⟩⟩
      exact file_eq_of_ofVersion hname heq

theorem run (h : t.Rests m name) (hname : StoredName.parse? name = some (file, v))
    (hreaches : ∀ e ∈ later, ¬ e.Reaches file) : (t.run later).Rests m name := by
  induction later generalizing t with
  | nil => exact h
  | cons e later ih =>
    obtain ⟨he, hrest⟩ := List.forall_mem_cons.mp hreaches
    exact ih (h.stems (stems_step t e) hname he) hrest

end Rests

/-- **What a deletion leaves behind.** A file is deleted at any time of a tenure, all orders for its
versions are served, and no put of it is planned any more. Whatever else happened, a version that a
member then stores was unlisted when the file was deleted; if there was nothing unlisted, then
nothing is left, and a coordinator that starts now does not know the file. But what was stored and
not recorded is still there, if no later deletion reaches it, and brings the file back. -/
theorem stored_after_deletion (t : Tenure) (remote : String) (later : List Event)
    (hplans : ∀ e ∈ later, e.plans (RemoteName.flatten remote) = false)
    (hkept : ∀ i, Event.loseDeletion i ∉ later)
    (hserved : ∀ m v, (m, StoredName.ofVersion (RemoteName.flatten remote) v) ∉
      ((t.delete remote).run later).deletions) :
    let file := RemoteName.flatten remote
    let now := (t.delete remote).run later
    (∀ m name v, StoredName.parse? name = some (file, v) → name ∈ (now.stores.store m).files →
      t.Unlisted file m name) ∧
    ((∀ m name v, StoredName.parse? name = some (file, v) → ¬ t.Unlisted file m name) →
      now.recovered.versions file = .fail) ∧
    ((∀ e ∈ later, ¬ e.Reaches file) → ∀ m name v, StoredName.parse? name = some (file, v) →
      t.Rests m name → (∀ w, StoredName.ofVersion file w = name →
        ¬ t.coordinator.directory.Holds file w m) →
      name ∈ (now.stores.store m).files ∧
        (m ∈ now.members → now.recovered.versions file ≠ .fail)) := by
  intro file now
  have hleft : ∀ m name v, StoredName.parse? name = some (file, v) →
      name ∈ (now.stores.store m).files → t.Unlisted file m name := by
    intro m name v hname hstored
    by_contra hlisted
    obtain ⟨hordered, g, w, heq⟩ :=
      ((Vanishes.delete rfl hname hlisted).run hname hplans hkept).ordered hstored
    cases file_eq_of_ofVersion hname heq
    exact hserved m w (heq ▸ hordered)
  refine ⟨hleft, fun hnone => ?_, fun hreaches m name v hname hrests hunheld => ?_⟩
  · refine (recovered_versions now file).mpr fun m _ name hstored v hname => ?_
    exact hnone m name v hname (hleft m name v hname hstored)
  · have hstored := ((hrests.delete rfl hname hunheld).run hname hreaches).stored
    exact ⟨hstored, fun hm hforgotten =>
      (recovered_versions now file).mp hforgotten m hm name hstored v hname⟩

/-- A file has a version that is recorded and one whose put is not reported. It is deleted, the
order is served, and the put is reported: the first version is gone, the second brings the file
back. -/
theorem unreported_put_survives_deletion :
    let m : Member := ⟨"a", 1, 1⟩
    let start : Tenure :=
      { coordinator := { placement := { factor := 1 } }
        members := [m]
        stores := ⟨twoHomes, fun m => { root := home m }⟩ }
    let before : List Event :=
      [.plan "f.txt" ⟨[1], by decide⟩, .beginPush 0 m, .arrive 0 1, .endPush 0 true, .report 0,
        .deliverReport 0, .plan "f.txt" ⟨[2], by decide⟩, .beginPush 0 m, .arrive 0 1,
        .endPush 0 true]
    let later : List Event := [.serveDeletion 0, .report 0, .deliverReport 0]
    let now := ((start.run before).delete "f.txt").run later
    "f_1.txt" ∉ (now.stores.store m).files ∧ "f_2.txt" ∈ (now.stores.store m).files ∧
      now.recovered.versions "f.txt" ≠ .fail := by
  intro m start before later now
  have hflatten : RemoteName.flatten "f.txt" = "f.txt" := by decide +kernel
  have hfirstName : "f_1.txt" = StoredName.ofVersion "f.txt" 1 := by decide +kernel
  have hsecondName : "f_2.txt" = StoredName.ofVersion "f.txt" 2 := by decide +kernel
  have hserved : now.deletions = [] := by decide +kernel
  have hmember : m ∈ now.members := by decide +kernel
  obtain ⟨t, ht⟩ : ∃ t, t = start.run before := ⟨_, rfl⟩
  have hrecord : t.coordinator.directory.record? "f.txt" =
      some ((({} : FileRecord).put 1 (.ofList [m])).put 2 ∅) := by
    rw [ht]
    decide +kernel
  have hstored : "f_2.txt" ∈ (t.stores.store m).files := by
    rw [ht]
    decide +kernel
  have hsendings : ∀ s ∈ t.sendings, s.put.storedName ≠ "f_1.txt" := by
    rw [ht]
    decide +kernel
  have hquiet : (t.pushes.isEmpty && t.reports.isEmpty && t.orders.isEmpty && t.copies.isEmpty &&
      t.deletions.isEmpty) = true := by
    rw [ht]
    decide +kernel
  simp only [Bool.and_eq_true, List.isEmpty_iff] at hquiet
  obtain ⟨⟨⟨⟨hpushes, hreports⟩, horders⟩, hcopies⟩, hdeletions⟩ := hquiet
  have hreaches : ∀ e ∈ later, ¬ e.Reaches "f.txt" := by simp [later, Event.Reaches]
  have hafter := stored_after_deletion t "f.txt" later (by decide) (by simp [later])
  -- From here on it does not matter how the states came about.
  have hnow : now = (t.delete "f.txt").run later := by rw [ht]
  rw [← hnow, hflatten, hserved] at hafter
  clear_value now later
  obtain ⟨hleft, -, hstays⟩ := hafter fun _ _ => List.not_mem_nil
  have hheld : t.coordinator.directory.Holds "f.txt" 1 m := by
    refine ⟨_, .ofList [m], hrecord, ?_, by decide +kernel⟩
    rw [FileRecord.put_versions_getElem?, if_neg (by decide), FileRecord.put_versions_getElem?,
      if_pos rfl]
  have hunheld : ∀ w, StoredName.ofVersion "f.txt" w = "f_2.txt" →
      ¬ t.coordinator.directory.Holds "f.txt" w m := by
    rw [hsecondName]
    rintro w heq ⟨r, holders, hr, hholders, hm⟩
    cases (StoredName.ofVersion_eq_iff.mp heq).2
    cases hrecord.symm.trans hr
    rw [FileRecord.put_versions_getElem?, if_pos rfl] at hholders
    cases hholders
    exact Std.ExtTreeSet.not_mem_empty hm
  have hrests : t.Rests m "f_2.txt" :=
    ⟨hstored, hpushes ▸ List.forall_mem_nil _, hcopies ▸ List.forall_mem_nil _,
      hdeletions ▸ fun _ => (absurd · List.not_mem_nil)⟩
  obtain ⟨hsecond, hback⟩ := hstays hreaches m "f_2.txt" 2
    (by rw [hsecondName, StoredName.parse?_ofVersion]) hrests hunheld
  refine ⟨fun hfirst => ?_, hsecond, hback hmember⟩
  cases hleft m "f_1.txt" 1 (by rw [hfirstName, StoredName.parse?_ofVersion]) hfirst with
  | stored _ hunlisted => exact hunlisted 1 hfirstName.symm hheld
  | sending s hs heq => exact hsendings s hs heq
  | push p hp =>
    rw [hpushes] at hp
    cases hp
  | report r v hr =>
    rw [hreports] at hr
    cases hr
  | order o ho =>
    rw [horders] at ho
    cases ho
  | copy c hc =>
    rw [hcopies] at hc
    cases hc

end Tenure

end ReplicaRing
