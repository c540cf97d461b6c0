import ReplicaRing.Proofs.Holders

/-!
# The order of holders does not matter

Holders are asked in an order that is chosen anew for each file. If what each of them tells does not
depend on who was asked before, no order gets a file that another misses, and what is received is
the same. Only the sibling of the path may differ, after searches that have failed.
-/
namespace ReplicaRing

open Disk

variable {d d₁ d₂ : Disk} {p : FilePath} {body : Bytes} {holders other : List Member} {s : Search}
  {h : Holders} {m : Member} {name : String} {store : Store} {arrangement : Arrangement}
  {got got₁ got₂ : Bool}

namespace Holders

/-- Each holder tells the same whoever was asked before. -/
def Steady (h : Holders) : Prop := ∀ asked holder, h.tells asked holder = h.tells [] holder

/-- Some holder that is in the ring serves this. -/
def Offered (h : Holders) (holders : List Member) (body : Bytes) : Prop :=
  ∃ holder ∈ holders, h.inRing holder = true ∧ h.Serves [] holder body

/-- What comes of a search that has got the file, or has not. -/
def Sought (h : Holders) (holders : List Member) (p : FilePath) (d d' : Disk) : Bool → Prop
  | true => ∃ body, h.Offered holders body ∧ d.Gains d' p body
  | false => d.Tries d' p ∧ ¬ (d.CanReceive p ∧ ∃ body, h.Offered holders body)

theorem Steady.serves {asked : List Member} (hsteady : h.Steady) :
    h.Serves asked m body ↔ h.Serves [] m body := by
  unfold Serves
  rw [hsteady asked m]

theorem offered_perm (hperm : holders.Perm other) :
    h.Offered holders body ↔ h.Offered other body :=
  exists_congr fun _ => and_congr_left fun _ => hperm.mem_iff

theorem Sought.iff (hsought : h.Sought holders p d d₁ got) :
    got = true ↔ d.CanReceive p ∧ ∃ body, h.Offered holders body := by
  cases got with
  | true =>
    obtain ⟨body, hoffered, hgains⟩ := hsought
    exact iff_of_true rfl ⟨hgains.canReceive, body, hoffered⟩
  | false => exact iff_of_false Bool.false_ne_true hsought.2

theorem Sought.perm (hsought : h.Sought holders p d d₁ got) (hperm : holders.Perm other) :
    h.Sought other p d d₁ got := by
  cases got with
  | true =>
    obtain ⟨body, hoffered, hgains⟩ := hsought
    exact ⟨body, (offered_perm hperm).mp hoffered, hgains⟩
  | false =>
    exact ⟨hsought.1, fun ⟨hc, body, hoffered⟩ =>
      hsought.2 ⟨hc, body, (offered_perm hperm).mpr hoffered⟩⟩

/-- How a search ends. -/
theorem Steady.sought (hsteady : h.Steady) (ht : s.disk.IsTree) (p : FilePath)
    (holders : List Member) :
    h.Sought holders p s.disk (h.seek p holders s).2.disk (h.seek p holders s).1.isSome := by
  obtain ⟨s', heq, hfails⟩ | ⟨s', holder, body, before, after, heq, hfinds⟩ :=
    seek_cases ht h p holders
  · rw [heq]
    refine ⟨hfails.tries, fun ⟨hc, body, holder, hmem, hring, hserves⟩ => ?_⟩
    obtain ⟨before, after, hsplit⟩ := List.append_of_mem (List.mem_filter.mpr ⟨hmem, hring⟩)
    exact hfails.unserved hc before holder after body hsplit (hsteady.serves.mpr hserves)
  · rw [heq]
    have hmem : holder ∈ holders.filter h.inRing := by
      rw [hfinds.split]
      exact List.mem_append_right _ List.mem_cons_self
    obtain ⟨hmem, hring⟩ := List.mem_filter.mp hmem
    exact ⟨body, ⟨holder, hmem, hring, hsteady.serves.mp hfinds.serves⟩, hfinds.gains⟩

theorem Steady.sought_search (hsteady : h.Steady) (ht : d.IsTree) (arrangement : Arrangement)
    (name : String) (holders : List Member) (p : FilePath) :
    h.Sought holders p d (h.search arrangement name holders p d).2.disk
      (h.search arrangement name holders p d).1.isSome :=
  (hsteady.sought (s := { disk := d }) ht p _).perm (arrangement.order_perm name holders)

/-! ### Who is asked -/

theorem mem_of_mem_asked (ht : s.disk.IsTree) (hm : m ∈ (h.seek p holders s).2.asked) :
    m ∈ s.asked ∨ m ∈ holders ∧ h.inRing m = true := by
  have hin {front back : List Member} (hsplit : holders.filter h.inRing = front ++ back)
      (hmem : m ∈ s.asked ++ front) : m ∈ s.asked ∨ m ∈ holders ∧ h.inRing m = true := by
    obtain hbefore | hfront := List.mem_append.mp hmem
    · exact .inl hbefore
    · refine .inr (List.mem_filter.mp ?_)
      rw [hsplit]
      exact List.mem_append_left _ hfront
  obtain ⟨s', heq, hfails⟩ | ⟨s', holder, body, before, after, heq, hfinds⟩ :=
    seek_cases ht h p holders
  · rw [heq, hfails.asked] at hm
    exact hin (List.append_nil _).symm hm
  · rw [heq, hfinds.asked] at hm
    exact hin (hfinds.split.trans (List.append_cons ..)) hm

theorem mem_of_mem_search_asked (ht : d.IsTree)
    (hm : m ∈ (h.search arrangement name holders p d).2.asked) :
    m ∈ holders ∧ h.inRing m = true := by
  obtain hbefore | ⟨hmem, hring⟩ := mem_of_mem_asked (s := { disk := d }) ht hm
  · cases hbefore
  · exact ⟨(arrangement.order_perm name holders).mem_iff.mp hmem, hring⟩

/-! ### Two searches -/

/-- Two disks have the same at a path, and everywhere but in its sibling; there too, if the path has
got its file. -/
structure Alike (d : Disk) (p : FilePath) (got : Bool) (d₁ d₂ : Disk) : Prop where
  lookup : ∀ e, d₁.lookup p = .ok e ↔ d₂.lookup p = .ok e
  entry : ∀ k, got = true ∨ d.fileTarget p.inTransit ≠ .ok k → d₁.entry? k = d₂.entry? k

theorem Alike.refl (d d₁ : Disk) (p : FilePath) (got : Bool) : Alike d p got d₁ d₁ :=
  ⟨fun _ => Iff.rfl, fun _ _ => rfl⟩

/-- All that serve the file serve the same. -/
def Agree (h : Holders) (holders : List Member) : Prop :=
  ∀ body body', h.Offered holders body → h.Offered holders body' → body = body'

theorem Sought.got_eq (hsought₁ : h.Sought holders p d d₁ got₁)
    (hsought₂ : h.Sought holders p d d₂ got₂) : got₁ = got₂ :=
  Bool.eq_iff_iff.mpr (hsought₁.iff.trans hsought₂.iff.symm)

theorem Sought.alike (ht : d.IsTree) (hagree : h.Agree holders)
    (hsought₁ : h.Sought holders p d d₁ got) (hsought₂ : h.Sought holders p d d₂ got) :
    Alike d p got d₁ d₂ := by
  cases got with
  | true =>
    obtain ⟨body, hoffered, hgains₁⟩ := hsought₁
    obtain ⟨body', hoffered', hgains₂⟩ := hsought₂
    cases hagree body body' hoffered hoffered'
    refine ⟨fun e => by rw [hgains₁.lookup, hgains₂.lookup], fun k _ => ?_⟩
    obtain ⟨l, target, hl, htarget, -, hentry₁⟩ := hgains₁
    obtain ⟨l', target', hl', htarget', -, hentry₂⟩ := hgains₂
    cases hl.symm.trans hl'
    cases htarget.symm.trans htarget'
    rw [hentry₁, hentry₂]
  | false =>
    refine ⟨fun e => (hsought₁.1.lookup ht).trans (hsought₂.1.lookup ht).symm, fun k hk => ?_⟩
    have hk := hk.resolve_left Bool.false_ne_true
    rw [hsought₁.1.entry hk, hsought₂.1.entry hk]

/-! ### Fetches and copies -/

/-- A fetch is a search. -/
theorem fetch_search (h : Holders) (arrangement : Arrangement) (name : String)
    (holders : List Member) (p : FilePath) (d : Disk) :
    (h.fetch arrangement name holders p d).1.toBool =
        (h.search arrangement name holders p d).1.isSome ∧
      (h.fetch arrangement name holders p d).2 = (h.search arrangement name holders p d).2 := by
  rw [fetch_eq]
  generalize h.search arrangement name holders p d = outcome
  obtain ⟨found, s⟩ := outcome
  cases found <;> exact ⟨rfl, rfl⟩

/-- What comes of fetches does not depend on the order of the holders. -/
theorem Steady.fetch (hsteady : h.Steady) (ht : d.IsTree) (a b : Arrangement) (name : String)
    (holders : List Member) (p : FilePath) :
    (h.fetch a name holders p d).1.toBool = (h.fetch b name holders p d).1.toBool ∧
      (h.Agree holders → Alike d p (h.fetch a name holders p d).1.toBool
        (h.fetch a name holders p d).2.disk (h.fetch b name holders p d).2.disk) := by
  have hsought₁ := hsteady.sought_search ht a name holders p
  have hsought₂ := hsteady.sought_search ht b name holders p
  have hgot := hsought₁.got_eq hsought₂
  obtain ⟨hfound₁, hsearch₁⟩ := fetch_search h a name holders p d
  obtain ⟨hfound₂, hsearch₂⟩ := fetch_search h b name holders p d
  rw [hfound₁, hfound₂, hsearch₁, hsearch₂]
  exact ⟨hgot, fun hagree => hsought₁.alike ht hagree (hgot ▸ hsought₂)⟩

/-- What comes of copies does not depend on the order of the holders. -/
theorem Steady.copy (hsteady : h.Steady) (ht : d.IsTree) (a b : Arrangement) (name : String)
    (holders : List Member) (store : Store) :
    (h.copy a name holders store d).1 = (h.copy b name holders store d).1 ∧
      (h.copy a name holders store d).2.1 = (h.copy b name holders store d).2.1 ∧
      (h.Agree holders → Alike d (store.path name)
        (decide ((h.copy a name holders store d).1 = .answered .ok))
        (h.copy a name holders store d).2.2.disk (h.copy b name holders store d).2.2.disk) := by
  by_cases hfree : store.Free name
  · have hsought₁ := hsteady.sought_search ht a name holders (store.path name)
    have hsought₂ := hsteady.sought_search ht b name holders (store.path name)
    have hgot := hsought₁.got_eq hsought₂
    rw [copy_of_free hfree, copy_of_free hfree, ← hgot]
    refine ⟨rfl, rfl, fun hagree => ?_⟩
    have hdecide (got : Bool) : decide ((copied store name got).1 = .answered .ok) = got :=
      (Bool.eq_iff_iff.mpr (decide_eq_true_iff.trans copied_eq_ok))
    rw [hdecide]
    exact hsought₁.alike ht hagree (hgot ▸ hsought₂)
  · obtain ⟨kind, -, hcopy⟩ := copy_of_busy hfree h holders d
    rw [hcopy a, hcopy b]
    exact ⟨rfl, rfl, fun _ => .refl _ _ _ _⟩

theorem Steady.copy_eq_ok (hsteady : h.Steady) (ht : d.IsTree) (a : Arrangement) (name : String)
    (holders : List Member) (store : Store) :
    (h.copy a name holders store d).1 = .answered .ok ↔
      store.Free name ∧ d.CanReceive (store.path name) ∧ ∃ body, h.Offered holders body := by
  by_cases hfree : store.Free name
  · rw [copy_of_free hfree, copied_eq_ok, and_iff_right hfree]
    exact (hsteady.sought_search ht a name holders (store.path name)).iff
  · obtain ⟨kind, hkind, hcopy⟩ := copy_of_busy hfree h holders d
    rw [hcopy a]
    exact iff_of_false (fun heq => hkind (Store.CopyProgress.answered.inj heq))
      fun hok => hfree hok.1

theorem mem_of_mem_copy_asked (ht : d.IsTree)
    (hm : m ∈ (h.copy arrangement name holders store d).2.2.asked) :
    m ∈ holders ∧ h.inRing m = true := by
  by_cases hfree : store.Free name
  · rw [copy_of_free hfree] at hm
    exact mem_of_mem_search_asked ht hm
  · obtain ⟨kind, -, hcopy⟩ := copy_of_busy hfree h holders d
    rw [hcopy] at hm
    cases hm

/-- A file is fetched iff its path and the sibling of that can be written and a holder in the ring
serves it whole, and copied iff besides the store may receive the name; nobody else is asked; and
whatever the order, the outcome is the same, and so are the files, if all that serve the file serve
the same. -/
theorem order_irrelevant (hsteady : h.Steady) (ht : d.IsTree) (holders : List Member)
    (name : String) (p : FilePath) (store : Store) :
    (∀ a : Arrangement,
      ((h.fetch a name holders p d).1.toBool = true ↔
        d.CanReceive p ∧ ∃ body, h.Offered holders body) ∧
      ((h.copy a name holders store d).1 = .answered .ok ↔
        store.Free name ∧ d.CanReceive (store.path name) ∧ ∃ body, h.Offered holders body) ∧
      ∀ m, m ∈ (h.fetch a name holders p d).2.asked ∨
          m ∈ (h.copy a name holders store d).2.2.asked →
        m ∈ holders ∧ h.inRing m = true) ∧
    ∀ a b : Arrangement,
      ((h.fetch a name holders p d).1.toBool = (h.fetch b name holders p d).1.toBool ∧
        (h.Agree holders → Alike d p (h.fetch a name holders p d).1.toBool
          (h.fetch a name holders p d).2.disk (h.fetch b name holders p d).2.disk)) ∧
      (h.copy a name holders store d).1 = (h.copy b name holders store d).1 ∧
        (h.copy a name holders store d).2.1 = (h.copy b name holders store d).2.1 ∧
        (h.Agree holders → Alike d (store.path name)
          (decide ((h.copy a name holders store d).1 = .answered .ok))
          (h.copy a name holders store d).2.2.disk (h.copy b name holders store d).2.2.disk) := by
  refine ⟨fun a => ?_,
    fun a b => ⟨hsteady.fetch ht a b name holders p, hsteady.copy ht a b name holders store⟩⟩
  obtain ⟨hfound, hsearch⟩ := fetch_search h a name holders p d
  rw [hfound, hsearch]
  refine ⟨(hsteady.sought_search ht a name holders p).iff,
    hsteady.copy_eq_ok ht a name holders store, fun m hm => ?_⟩
  exact hm.elim (mem_of_mem_search_asked ht) (mem_of_mem_copy_asked ht)

/-- Two holders of a file: one falls silent in the middle of it, the other serves it. -/
def silentAndServing : Holders where
  inRing _ := true
  tells _ holder :=
    let offer := Wire.Frame.bytes { FileMessage.ok with size := some 2 }
    if holder.port = 1 then .ok ⟨offer ++ [7], false⟩ else .ok ⟨offer ++ [7, 8], true⟩

theorem offered_silentAndServing {body : Bytes} :
    silentAndServing.Offered [⟨"a", 1, 1⟩, ⟨"a", 2, 1⟩] body ↔ body = [7, 8] := by
  let offer := Wire.Frame.bytes { FileMessage.ok with size := some 2 }
  have hserves : (Heard.mk (offer ++ [7, 8]) true).Serves [7, 8] :=
    ⟨{ FileMessage.ok with size := some 2 }, by decide +kernel, rfl, by decide +kernel⟩
  constructor
  · rintro ⟨holder, hmem, -, heard, htells, hbody⟩
    simp only [List.mem_cons, List.not_mem_nil, or_false] at hmem
    obtain rfl | rfl := hmem
    · cases htells
      obtain ⟨ack, hframe, -⟩ := hbody
      have hsilent : (Heard.mk (offer ++ [7]) false).frame (α := FileMessage)
          .awaitingAcknowledgment = .ok ({ FileMessage.ok with size := some 2 }, ⟨[7], false⟩) := by
        decide +kernel
      cases hsilent.symm.trans hframe
    · cases htells
      exact hbody.unique hserves
  · rintro rfl
    exact ⟨⟨"a", 2, 1⟩, by decide, rfl, _, rfl, hserves⟩

/-- The holder that falls silent is asked first or last. -/
theorem order_irrelevant_of_silent :
    silentAndServing.Steady ∧ ({} : Disk).IsTree ∧
      ∀ a : Arrangement,
        (silentAndServing.fetch a "f_1" [⟨"a", 1, 1⟩, ⟨"a", 2, 1⟩] ⟨[], "out"⟩ {}).1.toBool = true ∧
        (silentAndServing.fetch a "f_1" [⟨"a", 1, 1⟩, ⟨"a", 2, 1⟩] ⟨[], "out"⟩ {}).2.disk.lookup
          ⟨[], "out"⟩ = .ok (.file [7, 8]) := by
  have hagree : silentAndServing.Agree [⟨"a", 1, 1⟩, ⟨"a", 2, 1⟩] := fun _ _ hbody hbody' =>
    (offered_silentAndServing.mp hbody).trans (offered_silentAndServing.mp hbody').symm
  have horder := order_irrelevant (h := silentAndServing) (fun _ _ => rfl) isTree_empty
    [⟨"a", 1, 1⟩, ⟨"a", 2, 1⟩] "f_1" ⟨[], "out"⟩ { root := [] }
  have hlookup : (silentAndServing.fetch .asGiven "f_1" [⟨"a", 1, 1⟩, ⟨"a", 2, 1⟩] ⟨[], "out"⟩
      {}).2.disk.lookup ⟨[], "out"⟩ = .ok (.file [7, 8]) := by
    decide +kernel
  have hreceive : ({} : Disk).CanReceive ⟨[], "out"⟩ :=
    ⟨by decide +kernel, ["out"], by decide +kernel⟩
  refine ⟨fun _ _ => rfl, isTree_empty, fun a => ⟨?_, ?_⟩⟩
  · exact (horder.1 a).1.mpr ⟨hreceive, _, offered_silentAndServing.mpr rfl⟩
  · exact (((horder.2 a .asGiven).1.2 hagree).lookup _).mpr hlookup

/-- A path whose sibling is a folder can be written, and nothing is fetched to it. A name that is
not accepted may have a path that can be written, and is not copied. -/
theorem offered_in_vain :
    silentAndServing.Steady ∧ silentAndServing.Offered [⟨"a", 1, 1⟩, ⟨"a", 2, 1⟩] [7, 8] ∧
      (((({} : Disk).set [".out.partial"] .folder).write ⟨[], "out"⟩ []).toBool = true ∧
        (silentAndServing.fetch .asGiven "f_1" [⟨"a", 1, 1⟩, ⟨"a", 2, 1⟩] ⟨[], "out"⟩
          (({} : Disk).set [".out.partial"] .folder)).1 = .error (.unavailable "f_1")) ∧
      ((({} : Disk).write (Store.path { root := [] } ".f.partial") []).toBool = true ∧
        (silentAndServing.copy .asGiven ".f.partial" [⟨"a", 1, 1⟩, ⟨"a", 2, 1⟩] { root := [] }
          {}).1 = .answered .fail) :=
  ⟨fun _ _ => rfl, offered_silentAndServing.mpr rfl, ⟨by decide +kernel, by decide +kernel⟩,
    by decide +kernel, by decide +kernel⟩

end Holders

end ReplicaRing
