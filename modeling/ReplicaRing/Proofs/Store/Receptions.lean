import ReplicaRing.Proofs.Sets
import ReplicaRing.Proofs.Store.Paths
import ReplicaRing.Store.Copy

/-!
# Files on their way into a store

What a store serves under a name is the content of one entry of its folder, and what has come of a
name on its way in is the content of another. Whatever happens elsewhere on the disk leaves both.
-/
namespace ReplicaRing.Store

open Disk

variable {s s' : Store} {d d' : Disk} {name other : String} {content bytes : Bytes}
  {inflow : Inflow}
  {places : List Location} {announced : Option UInt64}

/-- Where the bytes of a name are collected. -/
def transit (s : Store) (name : String) : Location := s.place (PartialName.ofName name)

/-- A name is stored, and its file has this content. -/
structure Serves (s : Store) (d : Disk) (name : String) (content : Bytes) : Prop where
  stored : name ∈ s.files
  accepted : accepts name = true
  found : d.lookup (s.path name) = .ok (.file content)

/-- A name is on its way in, and this has come of it. -/
structure Receives (s : Store) (d : Disk) (name : String) (inflow : Inflow) (content : Bytes) :
    Prop where
  listed : name ∈ s.receiving
  accepted : accepts name = true
  collects : inflow.Collects d (s.transit name) content
  fresh : inflow.handle < d.nextHandle
  reached : d.resolve (s.path name).inTransit = .ok ⟨s.transit name, false, false⟩

/-! ### What is served -/

theorem lookup_path (h : accepts name = true) :
    d.lookup (s.path name) = .ok (.file content) ↔
      Fits name ∧ d.entry? s.root = some .folder ∧
        d.entry? (s.place name) = some (.file content) := by
  rw [lookup_eq_file]
  simp only [path, resolve_plain (plain_of_accepts h)]
  constructor
  · rintro ⟨_, ⟨hfits, hroot, rfl⟩, hentry, -⟩
    exact ⟨hfits, hroot, hentry⟩
  · rintro ⟨hfits, hroot, hentry⟩
    exact ⟨_, ⟨hfits, hroot, rfl⟩, hentry, rfl⟩

/-- The announced size is that of the file, and the file follows. -/
theorem Serves.get (h : s.Serves d name content) :
    s.get d name =
      { reply := some { FileMessage.ok with size := some (UInt64.ofNat content.length) }
        body := content
        notes := [.served name content.length] } := by
  have hcontains : s.contains name = true := Std.ExtTreeSet.mem_iff_contains.mp h.stored
  unfold Store.get
  simp only [hcontains, h.accepted, size_of_lookup h.found, read_eq_ok.mpr h.found, Bool.not_true,
    Bool.false_eq_true, ↓reduceIte]

theorem Serves.fits (h : s.Serves d name content) : Fits name :=
  ((lookup_path h.accepted).mp h.found).1

theorem Serves.touched (h : s.Serves d name content) (ht : d.Touches d' places)
    (haway : s.place name ∉ places) (hroot : s'.root = s.root) (hstored : name ∈ s'.files) :
    s'.Serves d' name content := by
  refine ⟨hstored, h.accepted, ?_⟩
  have hfound := h.found
  rw [lookup_path h.accepted] at hfound ⊢
  rw [place, hroot, ← place, ht.elsewhere _ haway]
  exact ⟨hfound.1, (ht.folders _).mp hfound.2.1, hfound.2.2⟩

/-! ### What is on its way in -/

theorem Receives.touched (h : s.Receives d name inflow content) (ht : d.Touches d' places)
    (haway : ∀ k ∈ places, ¬ k <+: s.transit name) (hroot : s'.root = s.root)
    (hlisted : name ∈ s'.receiving) : s'.Receives d' name inflow content := by
  have htransit : s'.transit name = s.transit name := by rw [transit, place, hroot]; rfl
  refine ⟨hlisted, h.accepted, ?_, Nat.lt_of_lt_of_le h.fresh ht.handles, ?_⟩
  · rw [htransit]
    refine ⟨ht.opened _ _ h.collects.opened h.fresh haway, ?_, h.collects.received⟩
    rw [ht.elsewhere _ fun hmem => haway _ hmem (List.prefix_refl _)]
    exact h.collects.entry
  · rw [htransit, path, hroot]
    exact ht.folders.resolve_eq_ok.mp h.reached

/-- A transfer to the place of a name begins. -/
theorem receives_start (hname : accepts name = true)
    (hs : Transfer.start d (s.path name) = (d', .ok inflow)) (hlisted : name ∈ s'.receiving)
    (hroot : s'.root = s.root) :
    s'.Receives d' name inflow [] ∧ d.Touches d' [s.transit name] := by
  obtain ⟨l, hl, rfl, rfl⟩ := Transfer.start_eq_ok.mp hs
  have hplace := hl
  rw [inTransit_path hname, path,
    fileTarget_plain (PartialName.plain_ofName (plain_of_accepts hname).no_slash)] at hplace
  obtain ⟨-, -, rfl, -⟩ := hplace
  have htouch := Transfer.touches_start hs hl
  have htransit : s'.transit name = s.transit name := by rw [transit, place, hroot]; rfl
  have hpath : s'.path name = s.path name := by rw [path, hroot]; rfl
  refine ⟨⟨hlisted, hname, ?_, Nat.lt_succ_self _, ?_⟩, htouch⟩
  · rw [htransit]
    exact Transfer.collects_start hs hl
  · rw [htransit, hpath]
    exact htouch.folders.resolve_eq_ok.mp (fileTarget_eq_ok.mp hl).1

/-- More bytes come. -/
theorem Receives.collect (h : s.Receives d name inflow content) (bytes : Bytes) :
    s.Receives (Transfer.collect d inflow bytes).1 name (Transfer.collect d inflow bytes).2
        (content ++ bytes) ∧
      d.Touches (Transfer.collect d inflow bytes).1 [s.transit name] := by
  have htouch := Transfer.touches_collect bytes h.collects
  exact ⟨⟨h.listed, h.accepted, Transfer.collects_collect bytes h.collects,
    Nat.lt_of_lt_of_le h.fresh htouch.handles, htouch.folders.resolve_eq_ok.mp h.reached⟩, htouch⟩

/-- The bytes have ended, and the file is where the name is stored. -/
theorem Receives.finish_ok {n : Nat} (h : s.Receives d name inflow content) (ht : d.IsTree)
    (hf : Transfer.finish d (s.path name) announced inflow = (d', .ok n)) :
    n = content.length ∧ Announces announced content.length ∧
      d.Touches d' [s.transit name, s.place name] ∧
      d'.lookup (s.path name) = .ok (.file content) := by
  obtain ⟨hn, hlength, target, htarget, htouch, hentry⟩ :=
    Transfer.finish_ok ht h.collects h.reached hf
  rw [path, fileTarget_plain (plain_of_accepts h.accepted)] at htarget
  obtain ⟨hfits, hroot, rfl, -⟩ := htarget
  refine ⟨hn, hlength, htouch,
    (lookup_path h.accepted).mpr ⟨hfits, (htouch.folders _).mp hroot, ?_⟩⟩
  exact (hentry _).trans (if_pos rfl)

theorem Receives.finish_error {fault : IoFault} (h : s.Receives d name inflow content)
    (hf : Transfer.finish d (s.path name) announced inflow = (d', .error fault)) :
    d.Touches d' [s.transit name] :=
  Transfer.finish_error h.collects h.reached hf

/-! ### What may be received -/

/-- A name that may be stored, is not stored, and is not on its way in. -/
def Free (s : Store) (name : String) : Prop :=
  accepts name = true ∧ name ∉ s.files ∧ name ∉ s.receiving

instance (s : Store) (name : String) : Decidable (s.Free name) :=
  inferInstanceAs (Decidable (_ ∧ _ ∧ _))

/-! ### Puts -/

@[simp] theorem beginReceiving_root : (s.beginReceiving name).root = s.root := rfl

theorem mem_receiving_beginReceiving :
    other ∈ (s.beginReceiving name).receiving ↔ name = other ∨ other ∈ s.receiving := by
  rw [beginReceiving, mem_insert_iff]

theorem mem_cancelled_beginReceiving :
    other ∈ (s.beginReceiving name).cancelled ↔ name ≠ other ∧ other ∈ s.cancelled := by
  rw [beginReceiving, mem_erase_iff]

theorem mem_receiving_endReceiving :
    other ∈ (s.endReceiving name).receiving ↔ name ≠ other ∧ other ∈ s.receiving := by
  rw [endReceiving, mem_erase_iff]

theorem mem_cancelled_endReceiving :
    other ∈ (s.endReceiving name).cancelled ↔ name ≠ other ∧ other ∈ s.cancelled := by
  rw [endReceiving, mem_erase_iff]

/-- A put begins if its name is free. -/
theorem beginPut_eq (s : Store) (d : Disk) (name : String) :
    s.beginPut d name =
      if s.Free name then
        match Transfer.start d (s.path name) with
        | (d, .error fault) => (s.endReceiving name, d, .failed fault)
        | (d, .ok inflow) => (s.beginReceiving name, d, .receiving inflow)
      else (s, d, .refused) := by
  have hguard : (!accepts name || s.contains name || s.receiving.contains name) = true ↔
      ¬ s.Free name := by
    unfold contains Free
    simp only [Std.ExtTreeSet.mem_iff_contains]
    cases accepts name <;> cases s.files.contains name <;> cases s.receiving.contains name <;>
      decide
  unfold beginPut
  by_cases hfree : s.Free name
  · refine (if_neg fun h => hguard.mp h hfree).trans (Eq.trans ?_ (if_pos hfree).symm)
    cases Transfer.start d (s.path name) with
    | mk d' result => cases result <;> rfl
  · rw [if_pos (hguard.mpr hfree), if_neg hfree]

/-- How a put begins. -/
theorem beginPut_cases (s : Store) (d : Disk) (name : String) :
    s.beginPut d name = (s, d, .refused) ∨
      (accepts name = true ∧ name ∉ s.files ∧ name ∉ s.receiving) ∧
        ((∃ d' fault, s.beginPut d name = (s.endReceiving name, d', .failed fault) ∧
            d.Touches d' [s.transit name]) ∨
          ∃ d' inflow, s.beginPut d name = (s.beginReceiving name, d', .receiving inflow) ∧
            (s.beginReceiving name).Receives d' name inflow [] ∧
              d.Touches d' [s.transit name]) := by
  rw [beginPut_eq]
  by_cases hfree : s.Free name
  · rw [if_pos hfree]
    refine .inr ⟨hfree, ?_⟩
    cases hs : Transfer.start d (s.path name) with
    | mk d' result =>
      cases result with
      | error fault => exact .inl ⟨d', fault, rfl, Transfer.start_error hs ▸ .refl d _⟩
      | ok inflow =>
        obtain ⟨hreceives, htouch⟩ := receives_start hfree.1 hs
          (mem_receiving_beginReceiving.mpr (.inl rfl)) beginReceiving_root
        exact .inr ⟨d', inflow, rfl, hreceives, htouch⟩
  · rw [if_neg hfree]
    exact .inl rfl

theorem publish_of_kept (h : name ∉ s.cancelled) :
    s.publish d name = ({ s with files := s.files.insert name }, d, true) := by
  unfold publish
  rw [Std.ExtTreeSet.mem_iff_contains] at h
  rw [if_neg h]

/-- A put whose bytes have ended well is kept, if no deletion met it. -/
theorem Receives.finishPut_ok {n : Nat} (h : s.Receives d name inflow content) (ht : d.IsTree)
    (hkept : name ∉ s.cancelled)
    (hf : Transfer.finish d (s.path name) announced inflow = (d', .ok n)) :
    s.finishPut d name announced inflow =
      ({ s with files := s.files.insert name }.endReceiving name, d',
        { reply := some .ok, notes := [.stored name content.length] }) := by
  obtain ⟨rfl, -, -, -⟩ := h.finish_ok ht hf
  unfold finishPut
  rw [hf]
  simp only [publish_of_kept hkept, ↓reduceIte]

/-- How a put ends that no deletion met. -/
theorem Receives.finishPut_cases (h : s.Receives d name inflow content) (ht : d.IsTree)
    (hkept : name ∉ s.cancelled) (announced : Option UInt64) :
    (∃ d', s.finishPut d name announced inflow =
          ({ s with files := s.files.insert name }.endReceiving name, d',
            { reply := some .ok, notes := [.stored name content.length] }) ∧
        Announces announced content.length ∧ d.Touches d' [s.transit name, s.place name] ∧
        d'.lookup (s.path name) = .ok (.file content)) ∨
      ∃ d' fault, s.finishPut d name announced inflow =
          (s.endReceiving name, d', { fault := some (.io fault) }) ∧
        d.Touches d' [s.transit name] := by
  cases hf : Transfer.finish d (s.path name) announced inflow with
  | mk d' result =>
    cases result with
    | error fault =>
      refine .inr ⟨d', fault, ?_, h.finish_error hf⟩
      unfold finishPut
      rw [hf]
    | ok n =>
      obtain ⟨-, hlength, htouch, hfound⟩ := h.finish_ok ht hf
      exact .inl ⟨d', h.finishPut_ok ht hkept hf, hlength, htouch, hfound⟩

/-- When a reception ends, it does not matter that it has begun. -/
theorem endReceiving_beginReceiving (s : Store) (name : String) (files : NameSet) :
    { s.beginReceiving name with files }.endReceiving name =
      { s with files }.endReceiving name := by
  have hlisted : (s.receiving.insert name).erase name = s.receiving.erase name := by
    refine Std.ExtTreeSet.ext_mem fun other => ?_
    simp only [mem_erase_iff, mem_insert_iff]
    exact and_congr_right fun hne => or_iff_right hne
  have hkept : (s.cancelled.erase name).erase name = s.cancelled.erase name :=
    erase_of_not_mem fun hmem => (mem_erase_iff.mp hmem).1 rfl
  simp only [beginReceiving, endReceiving, hlisted, hkept]

theorem endReceiving_of_not_mem (hreceiving : name ∉ s.receiving)
    (hcancelled : name ∉ s.cancelled) : s.endReceiving name = s := by
  rw [endReceiving, erase_of_not_mem hreceiving, erase_of_not_mem hcancelled]

/-! ### Copies -/

/-- How a copy begins. -/
theorem beginCopy_eq (s : Store) (name : String) :
    s.beginCopy name =
      if name ∈ s.files then (s, some .fileExists)
      else if accepts name = true ∧ name ∉ s.receiving then (s.beginReceiving name, none)
      else (s, some .fail) := by
  unfold beginCopy contains
  simp only [Std.ExtTreeSet.mem_iff_contains]
  cases s.files.contains name <;> cases accepts name <;> cases s.receiving.contains name <;> rfl

/-- A copy of a name that is free begins, any other is answered at once. -/
theorem beginCopy_cases (s : Store) (name : String) :
    s.Free name ∧ s.beginCopy name = (s.beginReceiving name, none) ∨
      ¬ s.Free name ∧ ∃ answer, answer ≠ .ok ∧ s.beginCopy name = (s, some answer) := by
  rw [beginCopy_eq]
  by_cases hstored : name ∈ s.files
  · exact .inr ⟨fun h => h.2.1 hstored, .fileExists, nofun, if_pos hstored⟩
  · rw [if_neg hstored]
    by_cases hfree : accepts name = true ∧ name ∉ s.receiving
    · exact .inl ⟨⟨hfree.1, hstored, hfree.2⟩, if_pos hfree⟩
    · exact .inr ⟨fun h => hfree ⟨h.1, h.2.2⟩, .fail, nofun, if_neg hfree⟩

/-- A reception that has ended leaves only what it published. -/
theorem Free.endReceiving (h : s.Free name) (hkept : name ∉ s.cancelled) (files : NameSet) :
    { s.beginReceiving name with files }.endReceiving name = { s with files } :=
  (endReceiving_beginReceiving s name files).trans (endReceiving_of_not_mem h.2.2 hkept)

/-- A name that a store can receive and keep. -/
structure Admits (s : Store) (d : Disk) (name : String) : Prop where
  accepted : accepts name = true
  fits : Fits (PartialName.ofName name)
  unstored : name ∉ s.files
  receiving : s.receiving = ∅
  cancelled : s.cancelled = ∅
  root : d.entry? s.root = some .folder
  folders : ∀ other, d.entry? (s.place other) ≠ some .folder

theorem fits_of_ofName (h : Fits (PartialName.ofName name)) : Fits name := by
  obtain ⟨hnul, hsize⟩ := h
  rw [PartialName.toList_ofName] at hnul
  refine ⟨fun hmem => hnul (List.mem_append_left _ (List.mem_cons_of_mem _ hmem)), ?_⟩
  refine Nat.le_trans ?_ hsize
  simp only [PartialName.ofName, String.utf8ByteSize_append]
  omega

/-- The bytes of a name can be collected. -/
theorem fileTarget_inTransit (hname : accepts name = true) (hfits : Fits (PartialName.ofName name))
    (hroot : d.entry? s.root = some .folder) (hfree : d.entry? (s.transit name) ≠ some .folder) :
    d.fileTarget (s.path name).inTransit = .ok (s.transit name) := by
  rw [inTransit_path hname, path,
    fileTarget_plain (PartialName.plain_ofName (plain_of_accepts hname).no_slash)]
  exact ⟨hfits, hroot, rfl, hfree⟩

theorem fileTarget_path (hname : accepts name = true) (hfits : Fits name)
    (hroot : d.entry? s.root = some .folder) (hfree : d.entry? (s.place name) ≠ some .folder) :
    d.fileTarget (s.path name) = .ok (s.place name) := by
  rw [path, fileTarget_plain (plain_of_accepts hname)]
  exact ⟨hfits, hroot, rfl, hfree⟩

/-- A put whose bytes have the announced length is stored. -/
theorem Admits.exists_put (h : s.Admits d name) (ht : d.IsTree)
    (hlength : Announces announced content.length) :
    ∃ begun d' inflow after, s.beginPut d name = (begun, d', .receiving inflow) ∧
      begun.takePut d' name announced inflow content =
        ({ s with files := s.files.insert name }, after,
          { reply := some .ok, notes := [.stored name content.length] }) ∧
      d.Touches after [s.transit name, s.place name] ∧
      after.lookup (s.path name) = .ok (.file content) := by
  have hreceiving : name ∉ s.receiving := by
    rw [h.receiving]
    exact Std.ExtTreeSet.not_mem_empty
  have hcancelled : name ∉ s.cancelled := by
    rw [h.cancelled]
    exact Std.ExtTreeSet.not_mem_empty
  have hfree : s.Free name := ⟨h.accepted, h.unstored, hreceiving⟩
  have hsibling := fileTarget_inTransit h.accepted h.fits h.root (h.folders _)
  have htarget := fileTarget_path h.accepted (fits_of_ofName h.fits) h.root (h.folders _)
  obtain ⟨begun, hs⟩ : ∃ begun, Transfer.start d (s.path name) = (begun, .ok ⟨d.nextHandle, 0⟩) :=
    ⟨_, Transfer.start_eq_ok.mpr ⟨_, hsibling, rfl, rfl⟩⟩
  have hbegin : s.beginPut d name =
      (s.beginReceiving name, begun, .receiving ⟨d.nextHandle, 0⟩) := by
    rw [beginPut_eq, if_pos hfree, hs]
  obtain ⟨hreceives, htouch⟩ := receives_start h.accepted hs
    (mem_receiving_beginReceiving.mpr (.inl rfl)) beginReceiving_root
  obtain ⟨hreceives, htouch'⟩ := hreceives.collect content
  have htouch := htouch.trans htouch'
  have hkept : name ∉ (s.beginReceiving name).cancelled := by
    exact fun hmem => hcancelled (mem_cancelled_beginReceiving.mp hmem).2
  obtain ⟨after, hfinish⟩ := Transfer.exists_finish (htouch.tree ht) hreceives.collects
    hreceives.reached hlength (htouch.folders.fileTarget_eq_ok.mp htarget)
  obtain ⟨-, -, htouch', hfound⟩ := hreceives.finish_ok (htouch.tree ht) hfinish
  refine ⟨_, _, _, after, hbegin, ?_, (htouch.mono (by simp)).trans htouch', hfound⟩
  rw [← hfree.endReceiving hcancelled]
  exact hreceives.finishPut_ok (htouch.tree ht) hkept hfinish

end ReplicaRing.Store
