import ReplicaRing.Proofs.Disk.Entries

/-!
# What becomes of a file

Each operation on files changes the entries at one or two locations, and no folder. The lemmas here
say which, for every disk on which the operation succeeds.
-/
namespace ReplicaRing.Disk

variable {d d' : Disk} {l k source target : Location} {e : Entry} {content bytes : Bytes}
  {p q : FilePath} {h h' : Handle} {offset : Nat}

/-- The disks differ at most in the files at the given places. What is open elsewhere stays open. -/
structure Touches (d d' : Disk) (places : List Location) : Prop where
  elsewhere : ∀ k, k ∉ places → d'.entry? k = d.entry? k
  folders : d.SameFolders d'
  tree : d.IsTree → d'.IsTree
  opened : ∀ h l, d.openFiles[h]? = some l → h < d.nextHandle → (∀ k ∈ places, ¬ k <+: l) →
    d'.openFiles[h]? = some l
  handles : d.nextHandle ≤ d'.nextHandle

theorem Touches.refl (d : Disk) (places : List Location) : d.Touches d places :=
  ⟨fun _ _ => rfl, .refl d, id, fun _ _ ho _ _ => ho, Nat.le_refl _⟩

theorem Touches.trans {d'' : Disk} {places : List Location} (h : d.Touches d' places)
    (h' : d'.Touches d'' places) : d.Touches d'' places where
  elsewhere k hk := by rw [h'.elsewhere k hk, h.elsewhere k hk]
  folders := h.folders.trans h'.folders
  tree ht := h'.tree (h.tree ht)
  opened k l ho hlt hl :=
    h'.opened k l (h.opened k l ho hlt hl) (Nat.lt_of_lt_of_le hlt h.handles) hl
  handles := Nat.le_trans h.handles h'.handles

theorem Touches.mono {places places' : List Location} (h : d.Touches d' places)
    (hsub : ∀ l ∈ places, l ∈ places') : d.Touches d' places' :=
  ⟨fun k hk => h.elsewhere k fun hmem => hk (hsub k hmem), h.folders, h.tree,
    fun k l ho hlt hl => h.opened k l ho hlt fun x hx => hl x (hsub x hx), h.handles⟩

/-- A place that is no folder gets a file, in a folder, or loses one. -/
theorem Touches.of_place {now : Option Entry}
    (hd : ∀ k, d'.entry? k = if k = l then now else d.entry? k)
    (hold : d.entry? l ≠ some .folder) (hnow : now ≠ some .folder)
    (hin : now.isSome → d.IsTree → ∀ parent name, l = parent ++ [name] →
      d.entry? parent = some .folder)
    (hopen : ∀ h k, d.openFiles[h]? = some k → h < d.nextHandle → ¬ l <+: k →
      d'.openFiles[h]? = some k)
    (hnext : d.nextHandle ≤ d'.nextHandle) : d.Touches d' [l] := by
  have hfolders : d.SameFolders d' := by
    intro k
    rw [hd]
    split
    · subst_vars; exact iff_of_false hold hnow
    · rfl
  refine ⟨fun k hk => ?_, hfolders, fun ht parent name hsome => ?_, fun h k ho hlt hk => ?_, hnext⟩
  · rw [hd, if_neg fun heq => hk (List.mem_singleton.mpr heq)]
  · rw [← hfolders parent]
    rw [hd] at hsome
    split at hsome
    · exact hin hsome ht parent name (Eq.symm ‹_›)
    · exact ht parent name hsome
  · exact hopen h k ho hlt (hk l List.mem_cons_self)

theorem touches_close (ho : d.openFiles[h]? = some l) : d.Touches (d.close h) [l] := by
  refine ⟨fun _ _ => rfl, fun _ => Iff.rfl, id, fun k l' ho' _ hl => ?_, Nat.le_refl _⟩
  rw [close, Std.ExtTreeMap.getElem?_erase, if_neg, ho']
  rw [Std.LawfulEqCmp.compare_eq_iff_eq]
  rintro rfl
  cases ho.symm.trans ho'
  exact hl l List.mem_cons_self (List.prefix_refl l)

/-! ### Writing -/

theorem create_eq_ok :
    d.create p = .ok (d', h) ↔
      ∃ l, d.fileTarget p = .ok l ∧ d' = ((d.set l (.file [])).openAt l).1 ∧ h = d.nextHandle := by
  unfold create
  cases ht : d.fileTarget p with
  | error fault => exact iff_of_false nofun nofun
  | ok l =>
    simp only [bind, Except.bind, pure, Except.pure, Except.ok.injEq, exists_eq_left']
    rw [eq_comm, Prod.mk.injEq]
    rfl

theorem ne_nil_of_fileTarget (ht : d.fileTarget p = .ok l) : l ≠ [] := by
  obtain ⟨parent, name, rfl, -⟩ := exists_parent_of_resolve (fileTarget_eq_ok.mp ht).1
  exact List.concat_ne_nil _ _

/-- A file that is not touched is found as it was. -/
theorem Touches.lookup_file {places : List Location} (ht : d.Touches d' places)
    (hp : d.fileTarget p = .ok l) (hl : l ∉ places) (hfound : d.lookup p = .ok (.file content)) :
    d'.lookup p = .ok (.file content) := by
  obtain ⟨t, hresolve, hentry, hslash⟩ := lookup_eq_file.mp hfound
  cases hresolve.symm.trans (fileTarget_eq_ok.mp hp).1
  refine lookup_eq_file.mpr ⟨_, ht.folders.resolve_eq_ok.mp hresolve, ?_, hslash⟩
  rw [ht.elsewhere _ hl, hentry]

/-- An empty file is made where a path leads, and opened. -/
theorem touches_make (ht : d.fileTarget p = .ok l) :
    d.Touches ((d.set l (.file [])).openAt l).1 [l] := by
  obtain ⟨hr, hne⟩ := fileTarget_eq_ok.mp ht
  refine .of_place (fun k => entry?_set (ne_nil_of_fileTarget ht)) hne nofun
    (fun _ _ parent name hl => ?_) (fun k l' ho hlt _ => ?_) (Nat.le_succ _)
  · obtain ⟨parent', name', hl', hfolder, -⟩ := exists_parent_of_resolve hr
    rw [hl] at hl'
    rw [(List.append_inj' hl' rfl).1]
    exact hfolder
  · simp only [openAt, Std.ExtTreeMap.getElem?_insert, Std.LawfulEqCmp.compare_eq_iff_eq]
    exact (if_neg (Nat.ne_of_gt hlt)).trans ho

theorem entry?_writeAt (ho : d.openFiles[h]? = some l) (he : d.entry? l = some (.file content)) :
    Disk.entry? (d.writeAt h offset bytes) k =
      if k = l then some (.file (content.splice offset bytes)) else d.entry? k := by
  rw [writeAt, entry?_update, ho]
  simp only [Option.some.injEq, eq_comm (a := l)]
  split
  · subst_vars; rw [he]; rfl
  · rfl

@[simp] theorem openFiles_update {change : Bytes → Bytes} :
    (d.update h change).openFiles = d.openFiles := by
  unfold update
  split
  · rfl
  · split <;> rfl

@[simp] theorem nextHandle_update {change : Bytes → Bytes} :
    (d.update h change).nextHandle = d.nextHandle := by
  unfold update
  split
  · rfl
  · split <;> rfl

/-- Writing to a file changes nothing else, and no folder. -/
theorem touches_writeAt (ho : d.openFiles[h]? = some l) :
    d.Touches (d.writeAt h offset bytes) [l] := by
  have hd (k : Location) := entry?_update (·.splice offset bytes) (d := d) (h := h) (k := k)
  rw [ho] at hd
  have hfolders : d.SameFolders (d.writeAt h offset bytes) := by
    intro k
    rw [writeAt, hd]
    split
    · cases d.entry? k with
      | none => rfl
      | some e =>
        cases e with
        | file content => exact iff_of_false nofun nofun
        | folder => exact Iff.rfl
    · rfl
  refine ⟨fun k hk => ?_, hfolders, fun ht parent name hsome => ?_, fun k l' ho' _ _ => ?_, ?_⟩
  · rw [writeAt, hd, if_neg fun heq => hk (List.mem_singleton.mpr (Option.some.inj heq).symm)]
  · rw [← hfolders parent]
    rw [writeAt, hd] at hsome
    split at hsome
    · rw [Option.isSome_map] at hsome
      exact ht parent name hsome
    · exact ht parent name hsome
  · rw [writeAt, openFiles_update, ho']
  · exact Nat.le_of_eq nextHandle_update.symm

/-- A file is written where a path leads. -/
theorem exists_write (ht : d.fileTarget p = .ok l) (content : Bytes) :
    ∃ d', d.write p content = .ok d' ∧ d.Touches d' [l] ∧ d'.lookup p = .ok (.file content) := by
  obtain ⟨made, hmade⟩ : ∃ made, ((d.set l (.file [])).openAt l).1 = made := ⟨_, rfl⟩
  have hcreate : d.create p = .ok (made, d.nextHandle) := create_eq_ok.mpr ⟨l, ht, hmade.symm, rfl⟩
  have hopened : made.openFiles[d.nextHandle]? = some l := by
    subst hmade
    exact Std.ExtTreeMap.getElem?_insert_self
  have hempty : made.entry? l = some (.file []) := by
    subst hmade
    rw [entry?_openAt, entry?_set (ne_nil_of_fileTarget ht), if_pos rfl]
  have hwritten : (made.writeAt d.nextHandle 0 content).openFiles[d.nextHandle]? = some l := by
    rw [writeAt, openFiles_update, hopened]
  have htouch : d.Touches ((made.writeAt d.nextHandle 0 content).close d.nextHandle) [l] :=
    ((hmade ▸ touches_make ht).trans (touches_writeAt hopened)).trans (touches_close hwritten)
  refine ⟨_, by rw [write, hcreate]; rfl, htouch, lookup_eq_file.mpr
    ⟨_, htouch.folders.resolve_eq_ok.mp (fileTarget_eq_ok.mp ht).1, ?_, rfl⟩⟩
  rw [entry?_close, entry?_writeAt hopened hempty, if_pos rfl]
  exact congrArg (some ∘ Entry.file) (Bytes.splice_length [] content)

/-! ### Removing -/

theorem openFiles_lose {gone : Location → Bool} :
    (d.lose gone).openFiles[h]? = d.openFiles[h]?.filter (!gone ·) :=
  Std.ExtTreeMap.getElem?_filter'

/-- What is removed is one file. -/
theorem remove_eq_ok (hr : d.remove p = .ok d') :
    ∃ t content, d.resolve p = .ok t ∧ d.entry? t.location = some (.file content) ∧
      t.slash = false ∧ (∀ k, d'.entry? k = if k = t.location then none else d.entry? k) ∧
      d'.openFiles = (d.lose (· == t.location)).openFiles ∧ d'.nextHandle = d.nextHandle := by
  unfold remove at hr
  cases hres : d.resolve p with
  | error fault => rw [hres] at hr; cases hr
  | ok t =>
    simp only [hres, bind, Except.bind] at hr
    cases he : d.entry? t.location with
    | none => rw [he] at hr; cases hr
    | some e =>
      cases e with
      | folder => rw [he] at hr; cases hr
      | file content =>
        simp only [he] at hr
        split at hr
        · cases hr
        · rename_i hslash
          cases hr
          have hne := IsTree.ne_nil_of_file he
          exact ⟨t, content, rfl, he, Bool.eq_false_iff.mpr hslash,
            fun k => entry?_erase (d := d.lose _) hne, rfl, rfl⟩

/-- A file that is found can be removed. -/
theorem exists_remove (hfound : d.lookup p = .ok (.file content)) : ∃ d', d.remove p = .ok d' := by
  obtain ⟨t, hresolve, hentry, hslash⟩ := lookup_eq_file.mp hfound
  unfold remove
  simp only [hresolve, bind, Except.bind, hentry, hslash, Bool.false_eq_true, ↓reduceIte,
    Except.ok.injEq, exists_eq']

theorem touches_remove (hp : d.resolve p = .ok ⟨l, false, false⟩) (hr : d.remove p = .ok d') :
    d.Touches d' [l] := by
  obtain ⟨t, content, ht, he, -, hentry, hopen, hnext⟩ := remove_eq_ok hr
  cases hp.symm.trans ht
  refine .of_place hentry (by rw [he]; nofun) nofun nofun (fun k l' ho _ hl => ?_)
    (Nat.le_of_eq hnext.symm)
  rw [hopen, openFiles_lose, ho, Option.filter_some, if_pos]
  simpa using fun heq : l' = l => hl (heq ▸ List.prefix_refl l')

/-! ### Moving -/

/-- A file that nothing is below is all that moves with it. -/
theorem toList_moving (he : d.entry? source = some (.file content))
    (hleaf : ∀ k, source <+: k → k ≠ source → d.entry? k = none) :
    (d.entries.filter fun k _ => source.isPrefixOf k).toList = [(source, .file content)] := by
  have hsource := IsTree.ne_nil_of_file he
  have hmem (x : Location × Entry) :
      x ∈ (d.entries.filter fun k _ => source.isPrefixOf k).toList ↔
        x ∈ [(source, Entry.file content)] := by
    obtain ⟨k, e⟩ := x
    rw [Std.ExtTreeMap.mem_toList_iff_getElem?_eq_some, Std.ExtTreeMap.getElem?_filter',
      Option.filter_eq_some_iff, List.isPrefixOf_iff_prefix, List.mem_singleton, Prod.mk.injEq]
    constructor
    · rintro ⟨hk, hprefix⟩
      have hne : k ≠ [] := by
        rintro rfl
        exact hsource (List.prefix_nil.mp hprefix)
      rw [← entry?_of_ne hne] at hk
      by_cases heq : k = source
      · subst heq
        rw [he] at hk
        exact ⟨rfl, (Option.some.inj hk).symm⟩
      · rw [hleaf k hprefix heq] at hk
        cases hk
    · rintro ⟨rfl, rfl⟩
      exact ⟨entry?_of_ne hsource ▸ he, List.prefix_refl _⟩
  have hnodup : (d.entries.filter fun k _ => source.isPrefixOf k).toList.Nodup :=
    Std.ExtTreeMap.distinct_keys_toList.imp fun hne heq =>
      hne (by rw [heq]; exact Std.ReflCmp.compare_self)
  exact List.perm_singleton.mp
    ((List.perm_ext_iff_of_nodup hnodup (List.pairwise_singleton _ _)).mpr hmem)

/-- It takes the place of what is at the target. -/
theorem entry?_move (he : d.entry? source = some (.file content)) (htarget : target ≠ [])
    (hleaf : ∀ k, source <+: k → k ≠ source → d.entry? k = none) :
    Disk.entry? (d.move source target) k =
      if k = target then some (.file content) else if k = source then none else d.entry? k := by
  by_cases hk : k = []
  · subst hk
    rw [entry?_root, if_neg (Ne.symm htarget), if_neg (Ne.symm (IsTree.ne_nil_of_file he)),
      entry?_root]
  · have hmoving := toList_moving he hleaf
    rw [entry?_of_ne hk, entry?_of_ne hk]
    simp only [move, lose, hmoving, List.map_cons, List.map_nil,
      Std.ExtTreeMap.insertMany_list_singleton, Std.ExtTreeMap.getElem?_insert,
      Std.ExtTreeMap.getElem?_erase, Std.ExtTreeMap.getElem?_filter',
      Std.LawfulEqCmp.compare_eq_iff_eq, eq_comm (a := k)]
    have hself : source.isPrefixOf source = true :=
      List.isPrefixOf_iff_prefix.mpr (List.prefix_refl _)
    simp only [hself, ↓reduceIte, List.drop_length, List.append_nil]
    split
    · rfl
    · split
      · subst_vars
        simp [hself]
      · cases hp : source.isPrefixOf k with
        | false =>
          simp only [Bool.not_false]
          cases d.entries[k]? <;> rfl
        | true =>
          have hnone := hleaf k (List.isPrefixOf_iff_prefix.mp hp) (Ne.symm ‹_›)
          rw [entry?_of_ne hk] at hnone
          simp [hnone]

/-- Whether a file can be moved to a path depends on the path only. -/
theorem rename_eq_ok (ht : d.IsTree) (hp : d.resolve p = .ok ⟨source, false, false⟩)
    (he : d.entry? source = some (.file content)) :
    d.rename p q = .ok d' ↔
      ∃ target, d.fileTarget q = .ok target ∧
        d' = if source = target then d else d.move source target := by
  cases hq : d.resolve q with
  | error fault =>
    refine iff_of_false ?_ ?_
    · simp only [rename, hp, hq, bind, Except.bind, reduceCtorEq, not_false_eq_true]
    · rintro ⟨target, htarget, -⟩
      rw [(fileTarget_eq_ok.mp htarget).1] at hq
      cases hq
  | ok t =>
    obtain ⟨target, slash, dots⟩ := t
    have htarget : ∀ l, d.fileTarget q = .ok l ↔
        (l = target ∧ slash = false ∧ dots = false) ∧ d.entry? target ≠ some .folder := by
      intro l
      rw [fileTarget_eq_ok, hq, Except.ok.injEq, Target.mk.injEq, eq_comm (a := target)]
      exact ⟨fun ⟨⟨h, h'⟩, hne⟩ => ⟨⟨h, h'⟩, h ▸ hne⟩, fun ⟨⟨h, h'⟩, hne⟩ => ⟨⟨h, h'⟩, h ▸ hne⟩⟩
    simp only [htarget, rename, hp, hq, bind, Except.bind, he]
    cases dots with
    | true => simp
    | false =>
      cases slash with
      | true => simp
      | false =>
        -- What is above an entry is a folder: the source is none, and the target shall be none.
        have habove : isAbove source target = false := by
          rw [Bool.eq_false_iff]
          intro h
          simp only [isAbove, Bool.and_eq_true, List.isPrefixOf_iff_prefix, bne_iff_ne] at h
          obtain ⟨parent, name, rfl, hfolder, -⟩ := exists_parent_of_resolve hq
          have hnone := ht.below_file (k := parent) he
          obtain heq | hprefix := List.prefix_concat_iff.mp h.1
          · exact h.2 heq
          · by_cases hparent : parent = source
            · rw [hparent, he] at hfolder
              cases hfolder
            · rw [hnone hprefix hparent] at hfolder
              cases hfolder
        have hbelow : isAbove target source → d.entry? target = some .folder := by
          intro h
          simp only [isAbove, Bool.and_eq_true, List.isPrefixOf_iff_prefix, bne_iff_ne] at h
          exact ht.folder_of_prefix (by rw [he]; rfl) h.1 h.2
        simp only [habove, Bool.false_eq_true, or_self, and_false, ↓reduceIte, and_true,
          exists_eq_left, and_assoc]
        by_cases hb : isAbove target source = true
        · simp [hb, hbelow hb]
        · by_cases hst : source = target
          · subst hst
            simp [hb, he, eq_comm]
          · simp only [hb, hst, Bool.false_eq_true, ↓reduceIte]
            cases htgt : d.entry? target with
            | none => simp [eq_comm]
            | some e => cases e <;> simp [eq_comm]

theorem entry?_of_rename (ht : d.IsTree) (hp : d.resolve p = .ok ⟨source, false, false⟩)
    (he : d.entry? source = some (.file content)) (hq : d.fileTarget q = .ok target)
    (hr : d.rename p q = .ok d') :
    d'.entry? k =
      if k = target then some (.file content) else if k = source then none else d.entry? k := by
  obtain ⟨target', htarget', rfl⟩ := (rename_eq_ok ht hp he).mp hr
  cases hq.symm.trans htarget'
  split
  · subst_vars
    split
    · subst_vars; exact he
    · rfl
  · exact entry?_move he (ne_nil_of_fileTarget hq) fun k hk hne => ht.below_file he hk hne

/-- A file that is open stays open where it is, unless it moves or something takes its place. -/
theorem openFiles_move_of_ne (ho : d.openFiles[h]? = some l) (htarget : l ≠ target)
    (hsource : ¬ source <+: l) : (d.move source target).openFiles[h]? = some l := by
  have hlose : (d.lose (· == target)).openFiles[h]? = some l := by
    rw [openFiles_lose, ho, Option.filter_some, if_pos]
    simpa using htarget
  have hprefix : source.isPrefixOf l = false := by
    rwa [Bool.eq_false_iff, ne_eq, List.isPrefixOf_iff_prefix]
  simp only [move, Std.ExtTreeMap.getElem?_map]
  rw [hlose, Option.map_some, hprefix]
  rfl

theorem touches_of_rename (ht : d.IsTree) (hp : d.resolve p = .ok ⟨source, false, false⟩)
    (he : d.entry? source = some (.file content)) (hq : d.fileTarget q = .ok target)
    (hr : d.rename p q = .ok d') : d.Touches d' [source, target] := by
  have hd (k : Location) := entry?_of_rename (k := k) ht hp he hq hr
  obtain ⟨hres, hne⟩ := fileTarget_eq_ok.mp hq
  have hfolders : d.SameFolders d' := by
    intro k
    rw [hd]
    split
    · subst_vars; exact iff_of_false hne nofun
    · split
      · subst_vars; exact iff_of_false (by rw [he]; nofun) nofun
      · rfl
  refine ⟨fun k hk => ?_, hfolders, fun _ parent name hsome => ?_, fun k l' ho _ hl => ?_, ?_⟩
  · simp only [List.mem_cons, List.not_mem_nil, or_false, not_or] at hk
    rw [hd, if_neg hk.2, if_neg hk.1]
  · rw [← hfolders parent]
    rw [hd] at hsome
    split at hsome
    · rename_i hplace
      obtain ⟨parent', name', htarget, hfolder, -⟩ := exists_parent_of_resolve hres
      rw [(List.append_inj' (hplace.trans htarget) rfl).1]
      exact hfolder
    · split at hsome
      · cases hsome
      · exact ht parent name hsome
  · obtain ⟨target', htarget', rfl⟩ := (rename_eq_ok ht hp he).mp hr
    cases hq.symm.trans htarget'
    split
    · exact ho
    · refine openFiles_move_of_ne ho ?_ (hl source List.mem_cons_self)
      rintro rfl
      exact hl l' (List.mem_cons_of_mem _ List.mem_cons_self) (List.prefix_refl l')
  · obtain ⟨target', -, rfl⟩ := (rename_eq_ok ht hp he).mp hr
    split <;> exact Nat.le_refl _

end ReplicaRing.Disk
