import Mathlib.Data.List.Induction
import ReplicaRing.Disk.Writing

/-!
# Where the entries are

What a disk holds is looked at entry by entry, location by location. In a disk that grew from
operations every entry is in a folder, so that nothing is below a file. Writing, moving and removing
files leaves all folders where they are, and then a path still leads to where it led before.
-/
namespace ReplicaRing.Disk

variable {d d' : Disk} {l k here parent source target : Location} {e : Entry} {content : Bytes}
  {name : String} {names : List String} {p q : FilePath} {h : Handle}

@[simp] theorem entry?_root : d.entry? [] = some .folder := if_pos rfl

theorem entry?_of_ne (h : l ≠ []) : d.entry? l = d.entries[l]? := if_neg h

theorem entry?_set (hl : l ≠ []) :
    Disk.entry? (d.set l e) k = if k = l then some e else d.entry? k := by
  by_cases hk : k = []
  · subst hk
    rw [entry?_root, if_neg (Ne.symm hl), entry?_root]
  · simp only [entry?_of_ne hk, set, Std.ExtTreeMap.getElem?_insert,
      Std.LawfulEqCmp.compare_eq_iff_eq, eq_comm (a := k)]

@[simp] theorem entry?_openAt : Disk.entry? (d.openAt l).1 k = d.entry? k := rfl

@[simp] theorem entry?_close : Disk.entry? (d.close h) k = d.entry? k := rfl

@[simp] theorem entry?_lose {gone : Location → Bool} : Disk.entry? (d.lose gone) k = d.entry? k :=
  rfl

/-- The content of a file changes in place. -/
theorem entry?_update (change : Bytes → Bytes) :
    Disk.entry? (d.update h change) k =
      if d.openFiles[h]? = some k then
        (d.entry? k).map fun
          | .file content => .file (change content)
          | .folder => .folder
      else d.entry? k := by
  cases ho : d.openFiles[h]? with
  | none => simp only [update, ho, reduceCtorEq, ↓reduceIte]
  | some l =>
    cases he : d.entry? l with
    | none =>
      simp only [update, ho, he, Option.some.injEq]
      split
      · subst_vars; rw [he, Option.map_none]
      · rfl
    | some e =>
      cases e with
      | folder =>
        simp only [update, ho, he, Option.some.injEq]
        split
        · subst_vars; rw [he, Option.map_some]
        · rfl
      | file content =>
        have hl : l ≠ [] := by rintro rfl; rw [entry?_root] at he; cases he
        simp only [update, ho, he, Option.some.injEq, entry?_set hl, eq_comm (a := l)]
        split
        · subst_vars; rw [he, Option.map_some]
        · rfl

theorem entry?_erase (hl : l ≠ []) :
    Disk.entry? { d with entries := d.entries.erase l } k =
      if k = l then none else d.entry? k := by
  by_cases hk : k = []
  · subst hk
    rw [entry?_root, if_neg (Ne.symm hl), entry?_root]
  · simp only [entry?_of_ne hk, Std.ExtTreeMap.getElem?_erase, Std.LawfulEqCmp.compare_eq_iff_eq,
      eq_comm (a := k)]

/-! ### Folders -/

/-- Every entry is in a folder. -/
def IsTree (d : Disk) : Prop :=
  ∀ parent name, (d.entry? (parent ++ [name])).isSome → d.entry? parent = some .folder

/-- The folders are the same. -/
def SameFolders (d d' : Disk) : Prop :=
  ∀ l, d.entry? l = some .folder ↔ d'.entry? l = some .folder

theorem SameFolders.refl (d : Disk) : d.SameFolders d := fun _ => Iff.rfl

theorem SameFolders.symm (h : d.SameFolders d') : d'.SameFolders d := fun l => (h l).symm

theorem SameFolders.trans {d'' : Disk} (h : d.SameFolders d') (h' : d'.SameFolders d'') :
    d.SameFolders d'' := fun l => (h l).trans (h' l)

/-- What is above an entry is a folder. -/
theorem IsTree.folder_of_prefix (ht : d.IsTree) (hk : (d.entry? k).isSome) (hl : l <+: k)
    (hne : l ≠ k) : d.entry? l = some .folder := by
  induction k using List.reverseRecOn with
  | nil => exact absurd (List.prefix_nil.mp hl) hne
  | append_singleton parent name ih =>
    have hfolder := ht parent name hk
    obtain heq | hl := List.prefix_concat_iff.mp hl
    · exact absurd heq hne
    · by_cases hp : l = parent
      · rw [hp, hfolder]
      · exact ih (by rw [hfolder]; rfl) hl hp

/-- Nothing is below a file. -/
theorem IsTree.below_file (ht : d.IsTree) (he : d.entry? l = some (.file content)) (hl : l <+: k)
    (hne : k ≠ l) : d.entry? k = none := by
  by_contra hk
  rw [ht.folder_of_prefix (Option.isSome_iff_ne_none.mpr hk) hl (Ne.symm hne)] at he
  cases he

theorem IsTree.ne_nil_of_file (he : d.entry? l = some (.file content)) : l ≠ [] := by
  rintro rfl
  rw [entry?_root] at he
  cases he

theorem isTree_empty : ({} : Disk).IsTree := by
  intro parent name hsome
  rw [entry?_of_ne (List.concat_ne_nil _ _)] at hsome
  cases hsome

theorem IsTree.set_folder (ht : d.IsTree) (parent : Location) (name : String)
    (hparent : d.entry? parent = some .folder) : (d.set (parent ++ [name]) .folder).IsTree := by
  intro above child hsome
  rw [entry?_set (List.concat_ne_nil _ _)] at hsome ⊢
  have hfolder : d.entry? above = some .folder := by
    split at hsome
    · rename_i heq
      rw [(List.append_inj' heq rfl).1]
      exact hparent
    · exact ht above child hsome
  split
  · rfl
  · exact hfolder

/-! ### Following a path -/

theorem walk_append (names names' : List String) (here : Location) :
    d.walk here (names ++ names') = (d.walk here names).bind (d.walk · names') := by
  induction names generalizing here with
  | nil => rfl
  | cons name names ih =>
    rw [List.cons_append, walk, walk]
    cases d.entry? here with
    | none => rfl
    | some e =>
      cases e with
      | file content => rfl
      | folder =>
        simp only []
        split
        · rfl
        · split
          · exact ih here
          · split
            · exact ih here.dropLast
            · exact ih (here ++ [name])

/-- A walk that succeeds sees only folders. -/
theorem SameFolders.walk_eq_ok (h : d.SameFolders d') :
    d.walk here names = .ok l ↔ d'.walk here names = .ok l := by
  induction names generalizing here with
  | nil => rfl
  | cons name names ih =>
    by_cases hf : d.entry? here = some .folder
    · rw [walk, walk, hf, (h here).mp hf]
      simp only []
      split
      · exact Iff.rfl
      · split
        · exact ih
        · split <;> exact ih
    · have hstuck (d : Disk) (hf : d.entry? here ≠ some .folder) :
          ¬ d.walk here (name :: names) = .ok l := by
        rw [walk]
        cases he : d.entry? here with
        | none => nofun
        | some e =>
          cases e with
          | file content => nofun
          | folder => exact absurd he hf
      exact iff_of_false (hstuck d hf) (hstuck d' fun hf' => hf ((h here).mpr hf'))

/-- The last name of a walk is the name of an entry of the folder that the others lead to. -/
theorem walk_concat (hname : name ≠ "." ∧ name ≠ "..") :
    d.walk here (names ++ [name]) = .ok l ↔
      ∃ parent, d.walk here names = .ok parent ∧ d.entry? parent = some .folder ∧
        name.utf8ByteSize ≤ maxName ∧ l = parent ++ [name] := by
  rw [walk_append]
  cases hw : d.walk here names with
  | error fault => exact iff_of_false nofun (by rintro ⟨_, h, -⟩; cases h)
  | ok parent =>
    simp only [Except.bind, Except.ok.injEq, exists_eq_left']
    rw [walk]
    cases he : d.entry? parent with
    | none => exact iff_of_false nofun (by rintro ⟨h, -⟩; cases h)
    | some e =>
      cases e with
      | file content => exact iff_of_false nofun (by rintro ⟨h, -⟩; cases h)
      | folder =>
        simp only [hname.1, hname.2, ↓reduceIte, true_and]
        split
        · exact iff_of_false nofun (by omega)
        · rw [walk, Except.ok.injEq, eq_comm]
          exact ⟨fun h => ⟨by omega, h⟩, fun h => h.2⟩

/-! ### The names of a path -/

theorem split_slash (text : List Char) :
    pieces.split ('/' :: text) = "" :: pieces.split text := by
  simp [pieces.split]

theorem split_cons {c : Char} (hc : c ≠ '/') (text : List Char) :
    pieces.split (c :: text) =
      (pieces.split text).modifyHead fun piece => String.ofList (c :: piece.toList) := by
  simp [pieces.split, hc]

theorem split_append_slash (front back : List Char) :
    pieces.split (front ++ '/' :: back) = pieces.split front ++ pieces.split back := by
  induction front with
  | nil => exact split_slash back
  | cons c front ih =>
    by_cases hc : c = '/'
    · rw [hc, List.cons_append, split_slash, split_slash, ih, List.cons_append]
    · have hne : pieces.split front ≠ [] := List.cons_ne_nil _ _
      obtain ⟨piece, rest, heq⟩ := List.exists_cons_of_ne_nil hne
      rw [List.cons_append, split_cons hc, split_cons hc, ih, heq]
      rfl

theorem pieces_append_slash (front back : List Char) :
    pieces (front ++ '/' :: back) = pieces front ++ pieces back := by
  rw [pieces, split_append_slash, List.filter_append]
  rfl

theorem split_of_no_slash {text : List Char} (h : '/' ∉ text) :
    pieces.split text = [String.ofList text] := by
  induction text with
  | nil => rfl
  | cons c text ih =>
    rw [List.mem_cons, not_or] at h
    rw [split_cons (Ne.symm h.1), ih h.2, List.modifyHead_cons, String.toList_ofList]

theorem pieces_of_no_slash (hname : name ≠ "") (h : '/' ∉ name.toList) :
    pieces name.toList = [name] := by
  rw [pieces, split_of_no_slash h, String.ofList_toList]
  exact List.filter_eq_self.mpr (by simpa using hname)

/-- Where a path leads to, from the folder that it starts in. -/
theorem resolve_eq_ok {t : Target} :
    d.resolve p = .ok t ↔
      ('\x00' ∉ p.text.toList ∧ p.text ≠ "" ∧ p.text.utf8ByteSize < maxPath) ∧
        d.walk (if p.text.toList.head? = some '/' then [] else p.folder) (pieces p.text.toList) =
          .ok t.location ∧
        t.slash = decide (p.text.toList.getLast? = some '/') ∧
        t.dots = decide ((pieces p.text.toList).getLast? = none ∨
          (pieces p.text.toList).getLast? = some "." ∨
          (pieces p.text.toList).getLast? = some "..") := by
  obtain ⟨location, slash, dots⟩ := t
  have hempty : p.text.toList = [] ↔ p.text = "" := String.toList_eq_nil_iff
  unfold resolve
  simp only [List.contains_iff_mem, hempty]
  split
  · simp_all
  · split
    · simp_all
    · split
      · exact iff_of_false nofun (by omega)
      · cases hw : d.walk (if p.text.toList.head? = some '/' then [] else p.folder)
            (pieces p.text.toList) with
        | error fault => simp [bind, Except.bind]
        | ok found =>
          simp only [bind, Except.bind, pure, Except.pure, Except.ok.injEq, Target.mk.injEq]
          refine ⟨?_, ?_⟩
          · rintro ⟨rfl, rfl, rfl⟩
            simp_all
          · rintro ⟨-, rfl, rfl, rfl⟩
            simp

theorem SameFolders.resolve_eq_ok {t : Target} (h : d.SameFolders d') :
    d.resolve p = .ok t ↔ d'.resolve p = .ok t := by
  rw [Disk.resolve_eq_ok, Disk.resolve_eq_ok, h.walk_eq_ok]

/-- A path that ends in a name stands for an entry of a folder. -/
theorem exists_parent_of_resolve {slash : Bool} (h : d.resolve p = .ok ⟨l, slash, false⟩) :
    ∃ parent name, l = parent ++ [name] ∧ d.entry? parent = some .folder ∧
      (pieces p.text.toList).getLast? = some name := by
  obtain ⟨-, hwalk, -, hdots⟩ := resolve_eq_ok.mp h
  have hlast := of_decide_eq_false hdots.symm
  simp only [not_or] at hlast
  obtain ⟨name, hname⟩ := Option.ne_none_iff_exists'.mp hlast.1
  obtain ⟨names, hnames⟩ := List.getLast?_eq_some_iff.mp hname
  rw [hnames, walk_concat ⟨fun h => hlast.2.1 (h ▸ hname), fun h => hlast.2.2 (h ▸ hname)⟩] at hwalk
  obtain ⟨parent, -, hfolder, -, rfl⟩ := hwalk
  exact ⟨parent, name, rfl, hfolder, hname⟩

theorem fileTarget_eq_ok :
    d.fileTarget p = .ok l ↔
      d.resolve p = .ok ⟨l, false, false⟩ ∧ d.entry? l ≠ some .folder := by
  unfold fileTarget
  cases hr : d.resolve p with
  | error fault => exact iff_of_false nofun nofun
  | ok t =>
    obtain ⟨location, slash, dots⟩ := t
    simp only [bind, Except.bind, Except.ok.injEq, Target.mk.injEq]
    split
    · refine iff_of_false nofun ?_
      rintro ⟨⟨rfl, rfl, rfl⟩, hne⟩
      simp_all
    · rename_i hfile
      simp only [not_or, Bool.not_eq_true] at hfile
      obtain ⟨rfl, rfl, hne⟩ := hfile
      rw [Except.ok.injEq]
      exact ⟨fun h => h ▸ ⟨⟨rfl, rfl, rfl⟩, hne⟩, fun h => h.1.1⟩

theorem SameFolders.fileTarget_eq_ok (h : d.SameFolders d') :
    d.fileTarget p = .ok l ↔ d'.fileTarget p = .ok l := by
  rw [Disk.fileTarget_eq_ok, Disk.fileTarget_eq_ok, h.resolve_eq_ok, Ne, Ne, h l]

/-! ### Plain names -/

/-- A name that stands for an entry of the folder that it is looked up in. -/
structure Plain (name : String) : Prop where
  ne_empty : name ≠ ""
  no_slash : '/' ∉ name.toList
  ne_dot : name ≠ "."
  ne_dots : name ≠ ".."

/-- Names that an entry can have. -/
def Fits (name : String) : Prop := '\x00' ∉ name.toList ∧ name.utf8ByteSize ≤ maxName

theorem walk_plain (hname : Plain name) :
    d.walk here [name] =
      match d.entry? here with
      | none => .error (.os .noEntry)
      | some (.file _) => .error (.os .notDirectory)
      | some .folder =>
        if name.utf8ByteSize > maxName then .error (.os .nameTooLong)
        else .ok (here ++ [name]) := by
  rw [walk]
  cases d.entry? here with
  | none => rfl
  | some e =>
    cases e with
    | file content => rfl
    | folder => simp only [hname.ne_dot, hname.ne_dots, ↓reduceIte, walk]

/-- A plain name is looked up in its folder, and nowhere else. -/
theorem resolve_plain_congr (hname : Plain name) (h : d.entry? l = d'.entry? l) :
    d.resolve ⟨l, name⟩ = d'.resolve ⟨l, name⟩ := by
  have hhead : name.toList.head? ≠ some '/' := fun hh => hname.no_slash (List.mem_of_mem_head? hh)
  simp only [resolve, pieces_of_no_slash hname.ne_empty hname.no_slash, if_neg hhead,
    walk_plain hname, h]

theorem resolve_plain {t : Target} (hname : Plain name) :
    d.resolve ⟨l, name⟩ = .ok t ↔
      Fits name ∧ d.entry? l = some .folder ∧ t = ⟨l ++ [name], false, false⟩ := by
  have hhead : name.toList.head? ≠ some '/' := fun hh => hname.no_slash (List.mem_of_mem_head? hh)
  have hlast : name.toList.getLast? ≠ some '/' := fun hh => hname.no_slash (List.mem_of_getLast? hh)
  obtain ⟨location, slash, dots⟩ := t
  rw [resolve_eq_ok]
  simp only [pieces_of_no_slash hname.ne_empty hname.no_slash, if_neg hhead, hlast, Fits,
    List.getLast?_singleton, Option.some.injEq, hname.ne_dot, hname.ne_dots, walk_plain hname,
    Target.mk.injEq, reduceCtorEq, or_self, decide_false]
  cases d.entry? l with
  | none => simp
  | some e =>
    cases e with
    | file content => simp
    | folder =>
      simp only []
      split
      · exact iff_of_false nofun (by omega)
      · rw [Except.ok.injEq]
        constructor
        · rintro ⟨⟨hnul, -, -⟩, rfl, rfl, rfl⟩
          exact ⟨⟨hnul, by omega⟩, trivial, rfl, rfl, rfl⟩
        · rintro ⟨⟨hnul, hsize⟩, -, rfl, rfl, rfl⟩
          exact ⟨⟨hnul, hname.ne_empty, Nat.lt_of_le_of_lt hsize (by decide)⟩, rfl, rfl, rfl⟩

theorem fileTarget_plain (hname : Plain name) :
    d.fileTarget ⟨l, name⟩ = .ok k ↔
      Fits name ∧ d.entry? l = some .folder ∧ k = l ++ [name] ∧ d.entry? k ≠ some .folder := by
  rw [fileTarget_eq_ok, resolve_plain hname, Target.mk.injEq]
  tauto

/-! ### Looking -/

theorem lookup_eq_file :
    d.lookup p = .ok (.file content) ↔
      ∃ t, d.resolve p = .ok t ∧ d.entry? t.location = some (.file content) ∧ t.slash = false := by
  unfold lookup
  cases d.resolve p with
  | error fault => simp [bind, Except.bind]
  | ok t =>
    simp only [bind, Except.bind, Except.ok.injEq, exists_eq_left']
    cases d.entry? t.location with
    | none => simp
    | some e =>
      cases e with
      | folder => simp
      | file found => cases t.slash <;> simp

theorem lookup_plain_congr (hname : Plain name) (hl : d.entry? l = d'.entry? l)
    (hk : d.entry? (l ++ [name]) = d'.entry? (l ++ [name])) :
    d.lookup ⟨l, name⟩ = d'.lookup ⟨l, name⟩ := by
  have hres := resolve_plain_congr hname hl
  unfold lookup
  rw [hres]
  cases ht : d'.resolve ⟨l, name⟩ with
  | error fault => rfl
  | ok t =>
    obtain ⟨-, -, rfl⟩ := (resolve_plain hname).mp ht
    simp only [bind, Except.bind, hk]

theorem read_eq_ok : d.read p = .ok content ↔ d.lookup p = .ok (.file content) := by
  unfold read
  cases d.lookup p with
  | error fault => simp [bind, Except.bind]
  | ok e => cases e <;> simp [bind, Except.bind]

theorem size_of_lookup (h : d.lookup p = .ok (.file content)) : d.size p = .ok content.length := by
  unfold size
  rw [h]
  rfl

end ReplicaRing.Disk
