import ReplicaRing.Proofs.Cluster.Exchanges

/-!
# Groups whose members are all reached

The members of a group know each other and their coordinator, and each has a store in a folder of
its own. What is received outside of these folders leaves the stores as they are; what is pushed
into one of them leaves the others.
-/
namespace ReplicaRing.Cluster

open Disk

/-- Members, where they sit and where they store files, and who of them coordinates. -/
structure Group where
  members : MemberSet
  coordinator : Member
  seat : Member → Seat
  root : Member → Location

namespace Group

variable {g : Group} {P Q : String → Bytes → Prop} {files : Member → NameSet} {W : World}
  {m n : Member} {name : String} {content : Bytes} {d : Disk} {places : List Location}
  {k : Coordinator}

/-- The store of a member that stores these names. -/
def store (g : Group) (files : Member → NameSet) (m : Member) : Store :=
  { root := g.root m, files := files m }

/-- A location that no member stores files at. -/
def Outside (g : Group) (l : Location) : Prop := ∀ m ∈ g.members, ¬ g.root m <+: l

/-- A path that leads to no store. -/
def LeadsOutside (g : Group) (d : Disk) (p : FilePath) : Prop :=
  ∀ t, d.resolve p = .ok t → g.Outside t.location

/-- A file outside of the stores that can be read. -/
def Readable (g : Group) (d : Disk) (p : FilePath) (content : Bytes) : Prop :=
  d.read p = .ok content ∧ g.LeadsOutside d p

/-- A path outside of the stores at which there may be a file. -/
def Writable (g : Group) (d : Disk) (p : FilePath) : Prop :=
  ∃ l, d.fileTarget p = .ok l ∧ g.Outside l

/-- A path outside of the stores at which there may be a file. What collects the bytes for it is no
part of a store either. -/
def Receivable (g : Group) (d : Disk) (p : FilePath) : Prop :=
  g.Writable d p ∧ g.LeadsOutside d p.inTransit

theorem Readable.touched {p : FilePath} (h : g.Readable W.disk p content)
    (ht : W.disk.Touches d places) (haway : ∀ l ∈ places, ¬ g.Outside l) :
    g.Readable d p content := by
  obtain ⟨hread, hout⟩ := h
  have houtside (t : Target) (hd : d.resolve p = .ok t) : g.Outside t.location :=
    hout t (ht.folders.resolve_eq_ok.mpr hd)
  refine ⟨?_, houtside⟩
  obtain ⟨t, hresolve, hentry, hslash⟩ := lookup_eq_file.mp (read_eq_ok.mp hread)
  refine read_eq_ok.mpr (lookup_eq_file.mpr ⟨t, ht.folders.resolve_eq_ok.mp hresolve, ?_, hslash⟩)
  rw [ht.elsewhere _ fun hmem => haway _ hmem (hout t hresolve), hentry]

theorem Writable.sameFolders {p : FilePath} {d' : Disk} (h : g.Writable d p)
    (hd : d.SameFolders d') : g.Writable d' p :=
  let ⟨l, hl, houtside⟩ := h
  ⟨l, hd.fileTarget_eq_ok.mp hl, houtside⟩

theorem Receivable.sameFolders {p : FilePath} {d' : Disk} (h : g.Receivable d p)
    (hd : d.SameFolders d') : g.Receivable d' p :=
  ⟨h.1.sameFolders hd, fun t ht => h.2 t (hd.resolve_eq_ok.mpr ht)⟩

/-- Everybody is reached and knows the group, and has under a name what belongs to the name. -/
structure Stands (g : Group) (P : String → Bytes → Prop) (files : Member → NameSet) (W : World) :
    Prop where
  log : W.log = none
  known : g.coordinator ∈ g.members
  reach : ∀ m ∈ g.members, W.reach m.endpoint = some (g.seat m)
  ring : ∀ m ∈ g.members, (W.ring (g.seat m)).members = g.members ∧
    (W.ring (g.seat m)).coordinator = some g.coordinator
  store : ∀ m ∈ g.members, W.store (g.seat m) = some (g.store files m)
  apart : ∀ m ∈ g.members, ∀ n ∈ g.members, g.root m <+: g.root n → m = n
  tree : W.disk.IsTree
  folder : ∀ m ∈ g.members, W.disk.entry? (g.root m) = some .folder
  flat : ∀ m ∈ g.members, ∀ name, W.disk.entry? (g.root m ++ [name]) ≠ some .folder
  serves : ∀ m ∈ g.members, ∀ name ∈ files m, ∃ content, P name content ∧
    (g.store files m).Serves W.disk name content

namespace Stands

theorem mono (h : g.Stands P files W) (hmono : ∀ name content, P name content → Q name content) :
    g.Stands Q files W :=
  { h with
    serves := fun m hm name hname =>
      let ⟨content, hbelongs, hserves⟩ := h.serves m hm name hname
      ⟨content, hmono _ _ hbelongs, hserves⟩ }

theorem appoint (h : g.Stands P files W) (seat : Seat) (k : Coordinator) :
    g.Stands P files (W.appoint seat k) := ⟨h.1, h.2, h.3, h.4, h.5, h.6, h.7, h.8, h.9, h.10⟩

/-- Files outside of the stores change. -/
theorem touched (h : g.Stands P files W) (ht : W.disk.Touches d places)
    (haway : ∀ l ∈ places, g.Outside l) : g.Stands P files { W with disk := d } where
  log := h.log
  known := h.known
  reach := h.reach
  ring := h.ring
  store := h.store
  apart := h.apart
  tree := ht.tree h.tree
  folder m hm := (ht.folders _).mp (h.folder m hm)
  flat m hm name hfolder := h.flat m hm name ((ht.folders _).mpr hfolder)
  serves m hm name hname := by
    obtain ⟨content, hbelongs, hserves⟩ := h.serves m hm name hname
    refine ⟨content, hbelongs, hserves.touched ht (fun hmem => ?_) rfl hname⟩
    exact haway _ hmem m hm (List.prefix_append _ _)

/-- What is below the folder of one store is below no other. -/
theorem eq_of_prefix (h : g.Stands P files W) (hm : m ∈ g.members) (hn : n ∈ g.members)
    {l : Location} (hml : g.root m <+: l) (hnl : g.root n <+: l) : m = n := by
  obtain hmn | hnm := List.prefix_or_prefix_of_prefix hml hnl
  · exact h.apart m hm n hn hmn
  · exact (h.apart n hn m hm hnm).symm

theorem seat_injective (h : g.Stands P files W) (hm : m ∈ g.members) (hn : n ∈ g.members)
    (hseat : g.seat m = g.seat n) : m = n := by
  have hstore := h.store m hm
  rw [hseat, h.store n hn, Option.some.injEq] at hstore
  have hroot : g.root n = g.root m := congrArg Store.root hstore
  exact h.apart m hm n hn (hroot ▸ List.prefix_refl _)

/-- What a store works on is inside of it. -/
theorem not_outside_of_mem (hm : m ∈ g.members) {l : Location}
    (hl : l ∈ [(g.store files m).transit name, (g.store files m).place name]) : ¬ g.Outside l := by
  intro hout
  simp only [List.mem_cons, List.not_mem_nil, or_false] at hl
  obtain rfl | rfl := hl
  · exact hout m hm (List.prefix_append _ _)
  · exact hout m hm (List.prefix_append _ _)

/-- A file is pushed into the store of a member. -/
theorem keep (h : g.Stands P files W) (hm : m ∈ g.members) (hbelongs : P name content)
    (haccepted : Store.accepts name = true)
    (ht : W.disk.Touches d [(g.store files m).transit name, (g.store files m).place name])
    (hfound : d.lookup ((g.store files m).path name) = .ok (.file content)) :
    g.Stands P (fun n => if n = m then (files m).insert name else files n)
      (W.keep (g.seat m) { g.store files m with files := (files m).insert name } d) where
  log := h.log
  known := h.known
  reach := h.reach
  ring := h.ring
  store n hn := by
    change (if g.seat n = g.seat m then _ else W.store (g.seat n)) = _
    by_cases hnm : n = m
    · subst hnm
      simp only [Group.store, ↓reduceIte]
    · rw [if_neg fun hseat => hnm (h.seat_injective hn hm hseat), h.store n hn]
      simp only [Group.store, hnm, ↓reduceIte]
  apart := h.apart
  tree := ht.tree h.tree
  folder n hn := (ht.folders _).mp (h.folder n hn)
  flat n hn other hfolder := h.flat n hn other ((ht.folders _).mpr hfolder)
  serves n hn other hother := by
    by_cases hnm : n = m
    · subst hnm
      have hother' : name = other ∨ other ∈ files n := by
        rwa [if_pos rfl, mem_insert_iff] at hother
      by_cases hname : name = other
      · subst hname
        exact ⟨content, hbelongs, hother, haccepted, hfound⟩
      · obtain ⟨found, hbelongs, hserves⟩ := h.serves n hn other (hother'.resolve_left hname)
        refine ⟨found, hbelongs, hserves.touched ht ?_ rfl hother⟩
        simp only [List.mem_cons, List.not_mem_nil, or_false, Store.transit, Store.place_eq_iff,
          not_or]
        exact ⟨fun heq => Store.ofName_ne_of_accepts hserves.accepted heq.symm, Ne.symm hname⟩
    · have hother' : other ∈ files n := by rwa [if_neg hnm] at hother
      obtain ⟨found, hbelongs, hserves⟩ := h.serves n hn other hother'
      refine ⟨found, hbelongs, hserves.touched ht (fun hmem => hnm ?_) rfl hother⟩
      simp only [List.mem_cons, List.not_mem_nil, or_false] at hmem
      obtain heq | heq := hmem
      · exact h.eq_of_prefix hn hm (List.prefix_append _ _) ⟨_, heq.symm⟩
      · exact h.eq_of_prefix hn hm (List.prefix_append _ _) ⟨_, heq.symm⟩

end Stands

end Group

end ReplicaRing.Cluster
