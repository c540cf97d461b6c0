import ReplicaRing.Coordinator
import ReplicaRing.Proofs.Directory.Operations
import ReplicaRing.Proofs.Store.Paths
import ReplicaRing.Proofs.StoredNames

/-!
# What a deletion reaches

The coordinator deletes a file by orders, one for each holder of each version, and an order carries
a stored name. A store takes what an order carries for a stored name and for the name of a file, and
deletes the versions of that file too. What goes, and that everything else stays as it is, is stated
here for all orders of one deletion, in whatever order they arrive.
-/
namespace ReplicaRing

open Disk

variable {c : Coordinator} {file name target : String} {v : UInt64} {m : Member} {s : Store}
  {d d' : Disk} {k : Location} {targets names : List String}

/-- The stored names that a member is ordered to delete. -/
def Response.ordersTo (r : Response) (m : Member) : List String :=
  (r.deletes.filter (·.1 = m)).map (·.2)

/-- A member gets one order for each version that it is recorded for. -/
theorem Coordinator.mem_ordersTo_delete :
    name ∈ (c.delete file).2.ordersTo m ↔
      ∃ v, c.directory.Holds file v m ∧ name = StoredName.ofVersion file v := by
  have hremove : c.directory.remove file =
      ((c.directory.remove file).1, c.directory.record? file) := rfl
  cases hr : c.directory.record? file with
  | none =>
    have hnone : (c.delete file).2 = { reply := some .fail } := by
      unfold delete
      rw [hremove, hr]
    simp [hnone, Response.ordersTo, Directory.Holds, hr]
  | some r =>
    have hdeletes : (c.delete file).2.deletes = r.versions.toList.flatMap fun entry =>
        entry.2.toList.map fun holder => (holder, StoredName.ofVersion file entry.1) := by
      unfold delete
      rw [hremove, hr]
    have hholds (v : UInt64) : c.directory.Holds file v m ↔
        ∃ holders, (v, holders) ∈ r.versions.toList ∧ m ∈ holders.toList := by
      simp [Directory.Holds, hr, Std.ExtTreeMap.mem_toList_iff_getElem?_eq_some]
    simp only [Response.ordersTo, hdeletes, hholds, List.mem_map, List.mem_filter,
      List.mem_flatMap, decide_eq_true_eq, Prod.exists, Prod.mk.injEq]
    constructor
    · rintro ⟨_, _, ⟨⟨v, holders, hv, holder, hholder, rfl, rfl⟩, rfl⟩, rfl⟩
      exact ⟨v, ⟨holders, hv, hholder⟩, rfl⟩
    · rintro ⟨v, ⟨holders, hv, hm⟩, rfl⟩
      exact ⟨m, _, ⟨⟨v, holders, hv, m, hm, rfl, rfl⟩, rfl⟩, rfl⟩

namespace Store

@[simp] theorem delete_root : (s.delete d target).1.root = s.root := rfl

theorem mem_files_delete :
    name ∈ (s.delete d target).1.files ↔
      name ∈ s.files ∧ StoredName.belongsTo name target = false := by
  have hfiles : (s.delete d target).1.files =
      s.files.filter (!StoredName.belongsTo · target) := rfl
  rw [hfiles, mem_filter_iff, Bool.not_eq_true']

theorem entry?_remove_path (h : accepts name = true) (hr : d.remove (s.path name) = .ok d') :
    d'.entry? k = if k = s.place name then none else d.entry? k := by
  obtain ⟨t, _, ht, -, -, hentry, -⟩ := remove_eq_ok hr
  obtain ⟨-, -, rfl⟩ := (resolve_plain (plain_of_accepts h)).mp ht
  exact hentry k

/-- A file is removed, or cannot be. -/
theorem touches_tryRemove (h : accepts name = true) :
    d.Touches ((d.remove (s.path name)).toOption.getD d) [s.place name] := by
  cases hr : d.remove (s.path name) with
  | error fault => exact .refl d _
  | ok d' =>
    obtain ⟨t, _, ht, -⟩ := remove_eq_ok hr
    obtain ⟨-, -, rfl⟩ := (resolve_plain (plain_of_accepts h)).mp ht
    exact touches_remove ht hr

/-- What is counted makes no difference to the disk. -/
theorem removeAll_cons :
    (s.removeAll d (name :: names)).1 =
      (s.removeAll ((d.remove (s.path name)).toOption.getD d) names).1 := by
  have hdisk (d : Disk) (names : List String) : (s.removeAll d names).1 =
      names.foldl (fun d name => (d.remove (s.path name)).toOption.getD d) d := by
    refine (List.foldl_hom Prod.fst fun (d, r) name => ?_).symm
    cases hr : d.remove (s.path name) <;> simp [hr, Except.toOption]
  rw [hdisk, hdisk, List.foldl_cons]

/-- Removing files touches nothing but them, whether they are there or not. -/
theorem touches_removeAll (hnames : ∀ name ∈ names, accepts name = true) :
    d.Touches (s.removeAll d names).1 (names.map s.place) := by
  induction names generalizing d with
  | nil => exact .refl d _
  | cons name names ih =>
    rw [List.forall_mem_cons] at hnames
    rw [removeAll_cons, List.map_cons]
    exact ((touches_tryRemove hnames.1).mono (by simp)).trans
      ((ih hnames.2).mono fun _ => List.mem_cons_of_mem _)

/-- Files that are there are removed. -/
theorem gone_removeAll (hnodup : names.Nodup) (hnames : ∀ name ∈ names, accepts name = true)
    (hfound : ∀ name ∈ names, ∃ content, d.lookup (s.path name) = .ok (.file content)) :
    ∀ name ∈ names, Disk.entry? (s.removeAll d names).1 (s.place name) = none := by
  induction names generalizing d with
  | nil => nofun
  | cons name names ih =>
    rw [List.nodup_cons] at hnodup
    rw [List.forall_mem_cons] at hnames hfound
    obtain ⟨⟨content, hcontent⟩, hfound⟩ := hfound
    obtain ⟨d', hr⟩ := exists_remove hcontent
    have hentry (k : Location) := entry?_remove_path (k := k) hnames.1 hr
    have haway : s.place name ∉ names.map s.place := by
      simp only [List.mem_map, not_exists, not_and, place_eq_iff]
      exact fun n hn heq => hnodup.1 (heq ▸ hn)
    have hrest : ∀ n ∈ names, ∃ content, d'.lookup (s.path n) = .ok (.file content) := by
      intro n hn
      have hne : s.place n ≠ s.place name := fun heq => hnodup.1 (place_eq_iff.mp heq ▸ hn)
      obtain ⟨found, hfound⟩ := hfound n hn
      refine ⟨found, (lookup_plain_congr (plain_of_accepts (hnames.2 n hn)) ?_ ?_).trans hfound⟩
      · exact (hentry _).trans (if_neg (by simp [place]))
      · exact (hentry _).trans (if_neg hne)
    rw [removeAll_cons, hr, List.forall_mem_cons]
    exact ⟨((touches_removeAll hnames.2).elsewhere _ haway).trans ((hentry _).trans (if_pos rfl)),
      ih hnodup.2 hnames.2 hrest⟩

theorem entry?_delete (hfiles : ∀ name ∈ s.files, accepts name = true)
    (hk : ∀ name ∈ s.files, StoredName.belongsTo name target = true → k ≠ s.place name) :
    Disk.entry? (s.delete d target).2.1 k = d.entry? k := by
  have hdoomed : ∀ name ∈ (s.files.filter (StoredName.belongsTo · target)).toList,
      name ∈ s.files ∧ StoredName.belongsTo name target = true := fun name hname => by
    rwa [Std.ExtTreeSet.mem_toList, mem_filter_iff] at hname
  refine (touches_removeAll fun name hname => hfiles name (hdoomed name hname).1).elsewhere k ?_
  simp only [List.mem_map, not_exists, not_and]
  exact fun name hname heq => hk name (hdoomed name hname).1 (hdoomed name hname).2 heq.symm

/-- What is served under a name is in its entry. -/
theorem get_congr {s' : Store} (hname : accepts name = true) (hroot : s'.root = s.root)
    (hfiles : s'.contains name = s.contains name) (hd : d'.entry? s.root = d.entry? s.root)
    (hk : d'.entry? (s.place name) = d.entry? (s.place name)) :
    s'.get d' name = s.get d name := by
  have hlookup : d'.lookup (s'.path name) = d.lookup (s.path name) := by
    rw [path, hroot]
    exact lookup_plain_congr (plain_of_accepts hname) hd hk
  have hsize : d'.size (s'.path name) = d.size (s.path name) := by unfold Disk.size; rw [hlookup]
  have hread : d'.read (s'.path name) = d.read (s.path name) := by unfold Disk.read; rw [hlookup]
  unfold get
  rw [hfiles, hsize, hread]

/-- Orders to delete are served one after the other. -/
def serveDeletes (s : Store) (d : Disk) (targets : List String) : Store × Disk :=
  targets.foldl
    (fun (s, d) target =>
      let (s, d, _) := s.serve d (FileMessage.request .delete .fileServer target)
      (s, d))
    (s, d)

theorem serveDeletes_cons :
    s.serveDeletes d (target :: targets) =
      (s.delete d target).1.serveDeletes (s.delete d target).2.1 targets :=
  rfl

theorem mem_files_serveDeletes :
    name ∈ (s.serveDeletes d targets).1.files ↔
      name ∈ s.files ∧ ∀ target ∈ targets, StoredName.belongsTo name target = false := by
  induction targets generalizing s d with
  | nil => simp [serveDeletes]
  | cons target targets ih =>
    rw [serveDeletes_cons, ih, mem_files_delete, List.forall_mem_cons, and_assoc]

/-- A name that no order reaches is served as before. -/
theorem get_serveDeletes (hfiles : ∀ name ∈ s.files, accepts name = true)
    (hname : name ∈ s.files)
    (hkept : ∀ target ∈ targets, StoredName.belongsTo name target = false) :
    (s.serveDeletes d targets).1.get (s.serveDeletes d targets).2 name = s.get d name := by
  induction targets generalizing s d with
  | nil => rfl
  | cons target targets ih =>
    rw [List.forall_mem_cons] at hkept
    have hmem := mem_files_delete (d := d).mpr ⟨hname, hkept.1⟩
    rw [serveDeletes_cons, ih (fun n hn => hfiles n (mem_files_delete.mp hn).1) hmem hkept.2]
    refine get_congr (hfiles name hname) delete_root ?_ ?_ ?_
    · rw [contains, contains, Std.ExtTreeSet.mem_iff_contains.mp hmem,
        Std.ExtTreeSet.mem_iff_contains.mp hname]
    · refine entry?_delete hfiles fun n _ _ heq => ?_
      exact absurd (congrArg List.length heq) (by simp [place])
    · refine entry?_delete hfiles fun n hn hhit heq => ?_
      rw [place_eq_iff] at heq
      rw [heq, hhit] at hkept
      exact absurd hkept.1 (by decide)

/-- **What the deletion of a file takes away.** When a member has served the orders that the
deletion of a file sends to it, in any order, it no longer has the versions that it is recorded for,
nor any version of a file that has the stored name of such a version for its own name. Every other
name is served as before. -/
theorem mem_files_after_deletion (c : Coordinator) (file : String) (m : Member) (s : Store)
    (d : Disk) (hfiles : ∀ name ∈ s.files, accepts name = true) (orders : List String)
    (horders : orders.Perm ((c.delete file).2.ordersTo m)) (name : String) :
    (name ∈ (s.serveDeletes d orders).1.files ↔
      name ∈ s.files ∧ ¬ ∃ v, c.directory.Holds file v m ∧
        (name = StoredName.ofVersion file v ∨
          ∃ w, StoredName.parse? name = some (StoredName.ofVersion file v, w))) ∧
      (name ∈ (s.serveDeletes d orders).1.files →
        (s.serveDeletes d orders).1.get (s.serveDeletes d orders).2 name = s.get d name) := by
  have hreach : (∀ target ∈ orders, StoredName.belongsTo name target = false) ↔
      ¬ ∃ v, c.directory.Holds file v m ∧
        (name = StoredName.ofVersion file v ∨
          ∃ w, StoredName.parse? name = some (StoredName.ofVersion file v, w)) := by
    simp only [horders.mem_iff, Coordinator.mem_ordersTo_delete, ← StoredName.belongsTo_iff,
      ← Bool.not_eq_true]
    exact ⟨fun h ⟨v, hv, hhit⟩ => h _ ⟨v, hv, rfl⟩ hhit,
      fun h target ⟨v, hv, heq⟩ hhit => h ⟨v, hv, heq ▸ hhit⟩⟩
  rw [mem_files_serveDeletes, hreach]
  exact ⟨Iff.rfl, fun ⟨hname, hkept⟩ => get_serveDeletes hfiles hname (hreach.mpr hkept)⟩

/-- The only version of `a.txt` is stored as `a_1.txt`. With it goes the version of the file that
has this name. -/
theorem mem_files_after_deletion_of_namesake :
    let m : Member := ⟨"a", 1, 1⟩
    let names := ["a_1.txt", "a_1_1.txt", "b_1.txt"]
    let c : Coordinator := { directory := Directory.rebuild [(m, .ofList names)] }
    let s : Store := { root := ["s"], files := .ofList names }
    let d := (((({} : Disk).set ["s"] .folder).set (s.place "a_1.txt") (.file [1])).set
      (s.place "a_1_1.txt") (.file [2])).set (s.place "b_1.txt") (.file [3])
    let orders := (c.delete "a.txt").2.ordersTo m
    orders = ["a_1.txt"] ∧ "a_1_1.txt" ∉ (s.serveDeletes d orders).1.files ∧
      (s.serveDeletes d orders).1.get (s.serveDeletes d orders).2 "b_1.txt" = s.get d "b_1.txt" ∧
      (s.get d "b_1.txt").body = [3] := by
  intro m names c s d orders
  have hfiles : ∀ name ∈ s.files, accepts name = true := by
    intro name hname
    have hmem : name ∈ names := by simpa [s, Std.ExtTreeSet.mem_ofList] using hname
    exact (by decide : ∀ name ∈ names, accepts name = true) name hmem
  have hholds : c.directory.Holds "a.txt" 1 m :=
    ⟨⟨(∅ : VersionMap).insert 1 ((∅ : MemberSet).insert m), 1⟩, (∅ : MemberSet).insert m,
      by decide +kernel⟩
  have hafter := mem_files_after_deletion c "a.txt" m s d hfiles orders (.refl _)
  refine ⟨by decide +kernel, fun hmem => ?_, (hafter "b_1.txt").2 (by decide +kernel),
    by decide +kernel⟩
  exact ((hafter "a_1_1.txt").1.mp hmem).2 ⟨1, hholds, .inr ⟨1, by decide +kernel⟩⟩

end Store

end ReplicaRing
