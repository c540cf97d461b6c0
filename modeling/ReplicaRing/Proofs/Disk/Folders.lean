import ReplicaRing.Disk.Folders
import ReplicaRing.Proofs.Disk.Entries

/-!
# What is in a folder

A folder that is opened is there afterwards, and every entry of the disk is in a folder still. It is
empty if its path names no `..`, for then its names alone say where it is: what is there is removed,
and what is made on the way to it is not inside.
-/
namespace ReplicaRing

namespace Path

theorem head?_dropTrailing (path : List Char) : (dropTrailing path).head? ≠ some '/' := by
  fun_induction dropTrailing path with
  | case1 r ih => exact ih
  | case2 r ih => exact ih
  | case3 r hslash hdot =>
    intro hhead
    obtain ⟨rest, hrest⟩ := List.head?_eq_some_iff.mp hhead
    exact hslash rest hrest

/-- What is dropped behind a slash ends with a slash. -/
theorem exists_dropped (path : List Char) :
    ∃ dropped, '/' :: path = dropped ++ '/' :: dropTrailing path := by
  fun_induction dropTrailing path with
  | case1 r ih =>
    obtain ⟨dropped, hdropped⟩ := ih
    exact ⟨'/' :: dropped, by rw [hdropped, List.cons_append]⟩
  | case2 r ih =>
    obtain ⟨dropped, hdropped⟩ := ih
    cases dropped with
    | nil =>
      have hslash := congrArg List.head? (List.cons.inj hdropped).2
      exact absurd hslash.symm (head?_dropTrailing _)
    | cons c dropped =>
      rw [List.cons_append, List.cons.injEq] at hdropped
      exact ⟨'/' :: '.' :: dropped, congrArg ('/' :: '.' :: ·) hdropped.2⟩
  | case3 r => exact ⟨[], rfl⟩

theorem dropTrailing_suffix (path : List Char) : dropTrailing path <:+ path := by
  fun_induction dropTrailing path with
  | case1 r ih => exact ih.trans (List.suffix_cons _ _)
  | case2 r ih => exact ih.trans (List.suffix_cons _ _)
  | case3 r => exact List.suffix_refl _

/-- A path continues the path that it is below behind a slash, unless that is the root. -/
theorem exists_below {path : List Char} (hne : parent path ≠ []) :
    (parent path).head? = path.head? ∧
      (parent path = ['/'] ∨ ∃ below, path = parent path ++ '/' :: below) := by
  obtain ⟨last, hlast⟩ := dropTrailing_suffix path.reverse
  unfold parent at hne ⊢
  generalize dropTrailing path.reverse = trimmed at hlast hne ⊢
  generalize hrest : trimmed.dropWhile (· ≠ '/') = rest at hne ⊢
  cases rest with
  | nil =>
    by_cases hroot : path.head? = some '/'
    · simp [dropTrailing, hroot]
    · simp [dropTrailing, hroot] at hne
  | cons c rest =>
    obtain rfl : c = '/' := by
      have hc := List.head?_dropWhile_not (fun c => decide (c ≠ '/')) trimmed
      rw [hrest] at hc
      exact of_not_not (of_decide_eq_false hc)
    obtain ⟨dropped, hdropped⟩ := exists_dropped rest
    have hpath : path = (dropTrailing rest).reverse ++ '/' ::
        (last ++ trimmed.takeWhile (· ≠ '/') ++ dropped).reverse := by
      calc path = (last ++ trimmed).reverse := by rw [hlast, List.reverse_reverse]
        _ = (last ++ (trimmed.takeWhile (· ≠ '/') ++ '/' :: rest)).reverse := by
          rw [← hrest, List.takeWhile_append_dropWhile]
        _ = _ := by rw [hdropped]; simp
    simp only [dropTrailing] at hne ⊢
    split at hne <;> rename_i hroot
    · rw [if_pos hroot]
      exact ⟨hroot.2.symm, .inl rfl⟩
    · rw [if_neg hroot]
      obtain ⟨c, above, habove⟩ := List.exists_cons_of_ne_nil hne
      rw [habove] at hpath ⊢
      exact ⟨by rw [hpath]; rfl, .inr ⟨_, hpath⟩⟩

end Path

/-- Where a path leads that names no `..`, if it leads anywhere. -/
def FilePath.downward (p : FilePath) : Location :=
  (if p.text.toList.head? = some '/' then [] else p.folder) ++
    (Disk.pieces p.text.toList).filter (· ≠ ".")

namespace Disk

variable {d d' : Disk} {l k here root : Location} {e : Entry} {name : String} {names : List String}
  {p : FilePath} {t : Target} {texts : List String}

/-- What is listed for a folder. -/
theorem mem_children : (name, e) ∈ d.children l ↔ d.entry? (l ++ [name]) = some e := by
  rw [entry?_of_ne (List.concat_ne_nil _ _), ← Std.ExtTreeMap.mem_toList_iff_getElem?_eq_some,
    children, List.mem_filterMap]
  constructor
  · rintro ⟨⟨place, found⟩, hmem, hlisted⟩
    cases hlast : place.getLast? with
    | none => simp [hlast] at hlisted
    | some last =>
      obtain ⟨front, rfl⟩ := List.getLast?_eq_some_iff.mp hlast
      simp only [hlast, List.dropLast_concat, Option.ite_none_right_eq_some, Option.some.injEq,
        Prod.mk.injEq] at hlisted
      obtain ⟨rfl, rfl, rfl⟩ := hlisted
      exact hmem
  · exact fun hmem => ⟨_, hmem, by simp⟩

/-! ### More folders -/

/-- A walk that succeeds goes the same way when there are more folders. -/
theorem walk_mono (h : ∀ k, d.entry? k = some .folder → d'.entry? k = some .folder)
    (hw : d.walk here names = .ok l) : d'.walk here names = .ok l := by
  induction names generalizing here with
  | nil => exact hw
  | cons name names ih =>
    rw [walk] at hw ⊢
    cases he : d.entry? here with
    | none => rw [he] at hw; cases hw
    | some e =>
      cases e with
      | file content => rw [he] at hw; cases hw
      | folder =>
        simp only [he] at hw
        simp only [h here he]
        split at hw
        · cases hw
        · split at hw <;> rename_i hname
          · rw [if_neg ‹_›, if_pos hname]
            exact ih hw
          · rw [if_neg ‹_›, if_neg hname]
            split at hw <;> rename_i hname'
            · rw [if_pos hname']
              exact ih hw
            · rw [if_neg hname']
              exact ih hw

theorem resolve_mono (h : ∀ k, d.entry? k = some .folder → d'.entry? k = some .folder)
    (hp : d.resolve p = .ok t) : d'.resolve p = .ok t := by
  rw [resolve_eq_ok] at hp ⊢
  exact ⟨hp.1, walk_mono h hp.2.1, hp.2.2⟩

/-! ### Removing and making folders -/

theorem entry?_eraseAll :
    Disk.entry? (d.eraseAll l) k = if l <+: k ∧ k ≠ [] then none else d.entry? k := by
  by_cases hk : k = []
  · rw [hk, entry?_root, if_neg fun h => h.2 rfl, entry?_root]
  · rw [entry?_of_ne hk, entry?_of_ne hk]
    simp only [eraseAll, lose, Std.ExtTreeMap.getElem?_filter', hk, ne_eq, not_false_eq_true,
      and_true]
    by_cases hinside : l <+: k
    · have hself : l.isPrefixOf k = true := List.isPrefixOf_iff_prefix.mpr hinside
      cases d.entries[k]? <;> simp [hinside, hself]
    · have hself : l.isPrefixOf k = false := by
        rwa [Bool.eq_false_iff, ne_eq, List.isPrefixOf_iff_prefix]
      cases d.entries[k]? <;> simp [hinside, hself]

theorem IsTree.eraseAll (ht : d.IsTree) (l : Location) : (d.eraseAll l).IsTree := by
  intro parent name hsome
  rw [entry?_eraseAll] at hsome ⊢
  split at hsome
  · cases hsome
  · rename_i hkept
    rw [if_neg]
    · exact ht parent name hsome
    · exact fun h => hkept ⟨h.1.trans (List.prefix_append _ _), List.concat_ne_nil _ _⟩

/-- Clearing removes the folder that a path stands for, or finds nothing. -/
theorem clear_eq_ok (hc : d.clear p = .ok d') :
    (d.lookup p = .error (.os .noEntry) ∧ d' = d) ∨
      ∃ t, d.resolve p = .ok t ∧ d' = d.eraseAll t.location := by
  unfold Disk.clear Disk.has at hc
  cases hlookup : d.lookup p with
  | error fault =>
    rw [hlookup] at hc
    simp only [bind, Except.bind] at hc
    split at hc
    · cases hc
    · rename_i hhas
      split at hhas
      · rename_i heq
        cases heq
      · rename_i hmissed
        cases hhas
        cases hc
        exact .inl ⟨hmissed, rfl⟩
      · cases hhas
  | ok e =>
    rw [hlookup] at hc
    cases e with
    | file content => cases hc
    | folder =>
      cases hres : d.resolve p with
      | error fault => simp [hres, bind, Except.bind] at hc
      | ok t =>
        simp only [hres, bind, Except.bind, ↓reduceIte] at hc
        cases hc
        exact .inr ⟨t, rfl, rfl⟩

theorem IsTree.clear (ht : d.IsTree) (hc : d.clear p = .ok d') : d'.IsTree := by
  obtain ⟨-, rfl⟩ | ⟨t, -, rfl⟩ := clear_eq_ok hc
  · exact ht
  · exact ht.eraseAll _

theorem ne_nil_of_missed (he : d.entry? l = none) : l ≠ [] := by
  rintro rfl
  rw [entry?_root] at he
  cases he

/-- A folder is made where nothing is, in a folder. -/
theorem makeOne_eq_ok (h : d.makeOne p = .ok d') :
    ∃ l slash, d.resolve p = .ok ⟨l, slash, false⟩ ∧ d.entry? l = none ∧ d' = d.set l .folder := by
  unfold makeOne at h
  cases hres : d.resolve p with
  | error fault => rw [hres] at h; cases h
  | ok t =>
    obtain ⟨l, slash, dots⟩ := t
    simp only [hres, bind, Except.bind] at h
    split at h
    · cases h
    · rename_i hfree
      cases h
      simp only [not_or, Bool.not_eq_true, Option.isSome_eq_false_iff, Option.isNone_iff_eq_none]
        at hfree
      obtain ⟨rfl, hnone⟩ := hfree
      exact ⟨l, slash, rfl, hnone, rfl⟩

theorem IsTree.makeOne (ht : d.IsTree) (h : d.makeOne p = .ok d') : d'.IsTree := by
  obtain ⟨l, slash, hres, -, rfl⟩ := makeOne_eq_ok h
  obtain ⟨parent, name, rfl, hfolder, -⟩ := exists_parent_of_resolve hres
  exact ht.set_folder parent name hfolder

theorem IsTree.ensureOne (ht : d.IsTree) (p : FilePath) : (d.ensureOne p).1.IsTree := by
  unfold Disk.ensureOne
  split
  · exact ht.makeOne ‹_›
  · exact ht

theorem exists_of_hasFolder (h : d.hasFolder p) :
    ∃ t, d.resolve p = .ok t ∧ d.entry? t.location = some .folder := by
  cases hres : d.resolve p with
  | error fault => simp [hasFolder, lookup, hres, bind, Except.bind, Except.toOption] at h
  | ok t =>
    refine ⟨t, rfl, ?_⟩
    cases he : d.entry? t.location with
    | none => simp [hasFolder, lookup, hres, he, bind, Except.bind, Except.toOption] at h
    | some e =>
      cases e with
      | folder => rfl
      | file content =>
        cases hslash : t.slash <;>
          simp [hasFolder, lookup, hres, he, hslash, bind, Except.bind, Except.toOption] at h

theorem ensureOne_ok (h : d.ensureOne p = (d', .ok ())) :
    ∃ t, d'.resolve p = .ok t ∧ d'.entry? t.location = some .folder := by
  unfold ensureOne at h
  split at h
  · rename_i hmade
    cases h
    obtain ⟨l, slash, hres, hnone, rfl⟩ := makeOne_eq_ok hmade
    have hne : l ≠ [] := ne_nil_of_missed hnone
    refine ⟨_, resolve_mono (fun k hk => ?_) hres, (entry?_set hne).trans (if_pos rfl)⟩
    rw [entry?_set hne, hk, ite_self]
  · split at h
    · rename_i hfolder
      cases h
      exact exists_of_hasFolder hfolder
    · cases h

theorem IsTree.makeUpward (ht : d.IsTree) (folder : Location) (texts : List String) :
    (d.makeUpward folder texts).1.IsTree := by
  induction texts with
  | nil => exact ht
  | cons text above ih =>
    unfold Disk.makeUpward
    split
    · split
      · rename_i heq
        rw [heq] at ih
        exact ih.ensureOne _
      · exact ih
    · exact ht.ensureOne _

theorem makeUpward_ok {folder : Location} {text : String}
    (h : d.makeUpward folder (text :: texts) = (d', .ok ())) :
    ∃ t, d'.resolve ⟨folder, text⟩ = .ok t ∧ d'.entry? t.location = some .folder := by
  unfold makeUpward at h
  split at h
  · split at h
    · exact ensureOne_ok h
    · rename_i hrefused
      exact absurd h (hrefused _)
  · exact ensureOne_ok h

/-- A folder is opened in two steps: what is there is cleared, and the folder is made. -/
theorem openEmpty_eq_ok (h : d.openEmpty p = (d', .ok root)) :
    ∃ cleared, d.clear p = .ok cleared ∧ cleared.makeFolder p = (d', .ok ()) ∧
      ∃ t, d'.resolve p = .ok t ∧ t.location = root := by
  unfold openEmpty at h
  cases hc : d.clear p with
  | error fault => rw [hc] at h; cases h
  | ok cleared =>
    cases hm : cleared.makeFolder p with
    | mk made result =>
      simp only [hc, hm, Prod.mk.injEq] at h
      obtain ⟨rfl, hroot⟩ := h
      cases result with
      | error fault => cases hroot
      | ok u =>
        refine ⟨cleared, rfl, hm, ?_⟩
        cases hres : made.resolve p with
        | error fault => rw [Except.bind, hres] at hroot; cases hroot
        | ok t =>
          rw [Except.bind, hres] at hroot
          exact ⟨t, rfl, Except.ok.inj hroot⟩

/-- An opened folder is there. -/
theorem openEmpty_ok (ht : d.IsTree) (h : d.openEmpty p = (d', .ok root)) :
    d'.IsTree ∧ d'.entry? root = some .folder := by
  obtain ⟨cleared, hc, hm, t, hres, rfl⟩ := openEmpty_eq_ok h
  have hmade : (cleared.makeFolder p).1 = d' := congrArg Prod.fst hm
  refine ⟨hmade ▸ (ht.clear hc).makeUpward _ _, ?_⟩
  have htext : p.text.toList ≠ [] := fun hempty =>
    (resolve_eq_ok.mp hres).1.2.1 (String.toList_eq_nil_iff.mp hempty)
  obtain ⟨n, hlength⟩ := Nat.exists_eq_succ_of_ne_zero fun hzero =>
    htext (List.length_eq_zero_iff.mp hzero)
  have hancestors : ∃ above, (Path.ancestors p.text.toList).map String.ofList =
      p.text :: above := by
    rw [Path.ancestors, hlength, Path.ancestors.climb, if_neg htext, List.map_cons,
      String.ofList_toList]
    exact ⟨_, rfl⟩
  obtain ⟨above, habove⟩ := hancestors
  rw [makeFolder, habove] at hm
  obtain ⟨t', hres', hfolder⟩ := makeUpward_ok hm
  cases hres.symm.trans hres'
  exact hfolder

/-! ### Paths that name no `..` -/

theorem walk_downward (hnames : ".." ∉ names) (hw : d.walk here names = .ok l) :
    l = here ++ names.filter (· ≠ ".") := by
  induction names generalizing here with
  | nil =>
    cases hw
    exact (List.append_nil _).symm
  | cons name names ih =>
    rw [List.mem_cons, not_or] at hnames
    rw [walk] at hw
    cases he : d.entry? here with
    | none => rw [he] at hw; cases hw
    | some e =>
      cases e with
      | file content => rw [he] at hw; cases hw
      | folder =>
        simp only [he, Ne.symm hnames.1, ↓reduceIte] at hw
        split at hw
        · cases hw
        · split at hw <;> rename_i hname
          · rw [List.filter_cons_of_neg (by simpa using hname)]
            exact ih hnames.2 hw
          · rw [List.filter_cons_of_pos (by simpa using hname), List.append_cons]
            exact ih hnames.2 hw

/-- On the way through folders nothing is missed. -/
theorem walk_ne_noEntry (hnames : ".." ∉ names)
    (hfolders : ∀ k, k <+: here ++ names.filter (· ≠ ".") → d.entry? k = some .folder) :
    d.walk here names ≠ .error (.os .noEntry) := by
  induction names generalizing here with
  | nil =>
    intro hmissed
    cases hmissed
  | cons name names ih =>
    rw [List.mem_cons, not_or] at hnames
    rw [walk, hfolders here (List.prefix_append _ _)]
    simp only [Ne.symm hnames.1, ↓reduceIte]
    split
    · intro hmissed
      cases hmissed
    · split <;> rename_i hname
      · rw [List.filter_cons_of_neg (by simpa using hname)] at hfolders
        exact ih hnames.2 hfolders
      · rw [List.filter_cons_of_pos (by simpa using hname), List.append_cons] at hfolders
        exact ih hnames.2 hfolders

theorem location_eq_downward (hp : ".." ∉ pieces p.text.toList) (hres : d.resolve p = .ok t) :
    t.location = p.downward :=
  walk_downward hp (resolve_eq_ok.mp hres).2.1

theorem walk_of_resolve (htext : p.text ≠ "") (hres : d.resolve p = .error (.os .noEntry)) :
    d.walk (if p.text.toList.head? = some '/' then [] else p.folder) (pieces p.text.toList) =
      .error (.os .noEntry) := by
  unfold resolve at hres
  dsimp only at hres
  split at hres
  · cases hres
  · rw [if_neg (mt String.toList_eq_nil_iff.mp htext)] at hres
    split at hres
    · cases hres
    · cases hw : d.walk (if p.text.toList.head? = some '/' then [] else p.folder)
          (pieces p.text.toList) with
      | ok l => rw [hw] at hres; cases hres
      | error fault => rw [hw] at hres; cases hres; rfl

/-- A path that stands for nothing has nothing below it either. -/
theorem IsTree.entry?_of_missed (ht : d.IsTree) (hp : ".." ∉ pieces p.text.toList)
    (htext : p.text ≠ "") (hmissed : d.lookup p = .error (.os .noEntry)) (name : String) :
    d.entry? (p.downward ++ [name]) = none := by
  by_contra hsome
  have hfolders : ∀ k, k <+: p.downward → d.entry? k = some .folder := fun k hk =>
    ht.folder_of_prefix (Option.isSome_iff_ne_none.mpr hsome) (hk.trans (List.prefix_append _ _))
      fun heq => absurd (heq ▸ hk).length_le (by simp)
  unfold lookup at hmissed
  cases hres : d.resolve p with
  | ok t =>
    have hhere := hfolders _ (List.prefix_refl _)
    rw [← location_eq_downward hp hres] at hhere
    simp only [hres, bind, Except.bind, hhere] at hmissed
    cases hmissed
  | error fault =>
    rw [hres] at hmissed
    cases hmissed
    exact walk_ne_noEntry hp hfolders (walk_of_resolve htext hres)

/-- Nothing is left in a folder that is cleared. -/
theorem entry?_clear (ht : d.IsTree) (hp : ".." ∉ pieces p.text.toList) (htext : p.text ≠ "")
    (hc : d.clear p = .ok d') (name : String) : d'.entry? (p.downward ++ [name]) = none := by
  obtain ⟨hmissed, rfl⟩ | ⟨t, hres, rfl⟩ := clear_eq_ok hc
  · exact ht.entry?_of_missed hp htext hmissed name
  · rw [location_eq_downward hp hres, entry?_eraseAll,
      if_pos ⟨List.prefix_append _ _, List.concat_ne_nil _ _⟩]

theorem entry?_ensureOne (h : ∀ t, d.resolve p = .ok t → t.location ≠ k) :
    Disk.entry? (d.ensureOne p).1 k = d.entry? k := by
  unfold ensureOne
  split
  · obtain ⟨l, slash, hres, hnone, rfl⟩ := makeOne_eq_ok ‹_›
    have hne : l ≠ [] := ne_nil_of_missed hnone
    exact (entry?_set hne).trans (if_neg (Ne.symm (h _ hres)))
  · rfl

/-- Making folders makes nothing but what the paths stand for. -/
theorem entry?_makeUpward {folder : Location}
    (h : ∀ text ∈ texts, ∀ (d : Disk) t, d.resolve ⟨folder, text⟩ = .ok t → t.location ≠ k) :
    Disk.entry? (d.makeUpward folder texts).1 k = d.entry? k := by
  induction texts with
  | nil => rfl
  | cons text above ih =>
    rw [List.forall_mem_cons] at h
    unfold makeUpward
    split
    · split
      · rename_i heq
        have habove := ih h.2
        rw [heq] at habove
        exact (entry?_ensureOne (h.1 _)).trans habove
      · exact ih h.2
    · exact entry?_ensureOne (h.1 _)

/-- The paths that a path is below start where it starts, and have its first names. -/
theorem of_mem_ancestors {path above : List Char} (h : above ∈ Path.ancestors path) :
    above.head? = path.head? ∧ pieces above <+: pieces path := by
  unfold Path.ancestors at h
  generalize path.length = n at h
  induction n generalizing path with
  | zero => cases h
  | succ n ih =>
    rw [Path.ancestors.climb] at h
    split at h
    · cases h
    · obtain rfl | h := List.mem_cons.mp h
      · exact ⟨rfl, List.prefix_refl _⟩
      · have hne : Path.parent path ≠ [] := by
          intro hparent
          rw [hparent] at h
          cases n <;> simp [Path.ancestors.climb] at h
        obtain ⟨hhead, hbelow⟩ := Path.exists_below hne
        obtain ⟨hhead', hfirst⟩ := ih h
        refine ⟨hhead'.trans hhead, hfirst.trans ?_⟩
        obtain hroot | ⟨below, hbelow⟩ := hbelow
        · rw [hroot]
          exact List.nil_prefix
        · have hpieces := congrArg pieces hbelow
          rw [pieces_append_slash] at hpieces
          exact ⟨_, hpieces.symm⟩

/-- A folder that is opened is empty, where its path names no `..`. -/
theorem children_openEmpty (ht : d.IsTree) (hp : ".." ∉ pieces p.text.toList)
    (h : d.openEmpty p = (d', .ok root)) : d'.children root = [] := by
  obtain ⟨cleared, hc, hm, t, hres, rfl⟩ := openEmpty_eq_ok h
  have hmade : (cleared.makeFolder p).1 = d' := congrArg Prod.fst hm
  rw [location_eq_downward hp hres]
  refine List.eq_nil_iff_forall_not_mem.mpr fun ⟨name, e⟩ hmem => ?_
  have hkept : d'.entry? (p.downward ++ [name]) = cleared.entry? (p.downward ++ [name]) := by
    rw [← hmade]
    refine entry?_makeUpward fun text htext d t hres hlocation => ?_
    obtain ⟨above, habove, rfl⟩ := List.mem_map.mp htext
    obtain ⟨hhead, hfirst⟩ := of_mem_ancestors habove
    have hdown : t.location <+: p.downward := by
      rw [location_eq_downward ?_ hres]
      · simp only [FilePath.downward, String.toList_ofList, hhead]
        exact (List.prefix_append_right_inj _).mpr (hfirst.filter _)
      · rw [String.toList_ofList]
        exact fun hmem => hp (hfirst.subset hmem)
    exact absurd (hlocation ▸ hdown).length_le (by simp)
  rw [mem_children, hkept,
    entry?_clear ht hp (resolve_eq_ok.mp hres).1.2.1 hc name] at hmem
  cases hmem

end Disk

end ReplicaRing
