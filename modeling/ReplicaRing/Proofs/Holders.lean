import ReplicaRing.Client
import ReplicaRing.Proofs.Disk.Wholeness
import ReplicaRing.Proofs.Store.Receptions
import ReplicaRing.Store.Copy

/-!
# Asking holder after holder

Who needs a stored file asks its holders one after the other, and passes over those that are not in
the ring. An attempt that fails leaves the path as it was, so that the first holder that serves the
file is received as if nobody had been asked before. What holders say may depend on who was asked
before; nothing else is assumed of them.
-/
namespace ReplicaRing

open Disk

variable {d d' : Disk} {p : FilePath} {bytes body body' : Bytes} {heard : Heard}
  {ack : FileMessage} {holder : Member} {holders before : List Member} {name : String}

/-! ### What one holder says -/

/-- A file can be received at a path: it may be there, and so may its sibling. -/
structure Disk.CanReceive (d : Disk) (p : FilePath) : Prop where
  collects : d.Collects p
  target : ∃ target, d.fileTarget p = .ok target

theorem Disk.SameFolders.canReceive (h : d.SameFolders d') : d.CanReceive p ↔ d'.CanReceive p := by
  have htarget : (∃ target, d.fileTarget p = .ok target) ↔ ∃ target, d'.fileTarget p = .ok target :=
    exists_congr fun _ => h.fileTarget_eq_ok
  exact ⟨fun ⟨hc, ht⟩ => ⟨h.collects.mp hc, htarget.mp ht⟩,
    fun ⟨hc, ht⟩ => ⟨h.collects.mpr hc, htarget.mpr ht⟩⟩

theorem Disk.Gains.canReceive (h : d.Gains d' p body) : d.CanReceive p := by
  obtain ⟨l, target, hl, htarget, -⟩ := h
  exact ⟨⟨l, hl⟩, target, htarget⟩

/-- Whether a pull has brought the file. -/
def Pull.brings (pulled : Except ExchangeFault FileMessage) : Bool := pulled.toOption.any (·.isOk)

namespace Heard

/-- A file is served: an `Ok`, the whole file as announced, and the end of the connection. -/
def Serves (h : Heard) (body : Bytes) : Prop :=
  ∃ ack, h.frame (α := FileMessage) .awaitingAcknowledgment = .ok (ack, ⟨body, true⟩) ∧
    ack.isOk = true ∧ Announces ack.size body.length

theorem Serves.unique (h : heard.Serves body) (h' : heard.Serves body') : body = body' := by
  obtain ⟨ack, hframe, -⟩ := h
  obtain ⟨ack', hframe', -⟩ := h'
  cases hframe.symm.trans hframe'
  rfl

/-- A file that is served is received, if the path can receive one. -/
theorem Serves.pull (h : heard.Serves body) (ht : d.IsTree) (hc : d.CanReceive p) :
    Pull.brings (heard.pull d p).2 = true := by
  obtain ⟨ack, hframe, hok, hlength⟩ := h
  obtain ⟨⟨l, hl⟩, target, htarget⟩ := hc
  obtain ⟨d', hreceive, -⟩ := Transfer.exists_receive ht hl htarget hlength
  have hclosed : Heard.ending ⟨body, true⟩ = .closed := rfl
  simp only [pull_eq, hframe, hok, ↓reduceIte, hclosed, Transfer.receiveUntil_closed, hreceive]
  exact hok

/-- What comes of a pull: the whole file that is served, or nothing. -/
theorem pull_cases (ht : d.IsTree) (heard : Heard) (p : FilePath) :
    (Pull.brings (heard.pull d p).2 = true ∧
        ∃ body, heard.Serves body ∧ d.Gains (heard.pull d p).1 p body) ∨
      Pull.brings (heard.pull d p).2 = false ∧ d.Tries (heard.pull d p).1 p := by
  obtain ⟨fault, -, heq⟩ | ⟨ack, rest, hframe, ⟨hrefused, heq⟩ | ⟨hok, hpulled⟩⟩ :=
    heard.pull_spec ht p
  · rw [heq]
    exact .inr ⟨rfl, .refl d p⟩
  · rw [heq]
    exact .inr ⟨hrefused, .refl d p⟩
  · obtain ⟨d', heq, hclosed, hlength, hgains⟩ | ⟨d', fault, heq, hmisses⟩ := hpulled
    · obtain ⟨bytes, closed⟩ := rest
      cases hclosed
      rw [heq]
      exact .inl ⟨hok, bytes, ⟨ack, hframe, hok, hlength⟩, hgains⟩
    · rw [heq]
      exact .inr ⟨rfl, hmisses.tries⟩

end Heard

/-! ### The search -/

/-- Who is in the ring, and what each tells that is asked for a file after others. -/
structure Holders where
  inRing : Member → Bool
  tells : List Member → Member → Except ExchangeFault Heard

/-- How far a search for a file has come. -/
structure Search where
  disk : Disk
  /-- Who was asked, first one first. -/
  asked : List Member := []

variable {s s' : Search} {arrangement : Arrangement}

namespace Holders

variable {h : Holders}

/-- Asks one holder for the file of a path. -/
def ask (h : Holders) (p : FilePath) (holder : Member) (s : Search) :
    Except ExchangeFault FileMessage × Search :=
  match h.tells s.asked holder with
  | .error fault => (.error fault, { s with asked := s.asked ++ [holder] })
  | .ok heard =>
    let (disk, pulled) := heard.pull s.disk p
    (pulled, { disk, asked := s.asked ++ [holder] })

/-- Asks holders in order until one serves the file. -/
def seek (h : Holders) (p : FilePath) : List Member → Search → Option Member × Search
  | [], s => (none, s)
  | holder :: rest, s =>
    if !h.inRing holder then h.seek p rest s
    else
      let (pulled, s) := h.ask p holder s
      if Pull.brings pulled then (some holder, s) else h.seek p rest s

/-- A holder serves the file when it is asked after others. -/
def Serves (h : Holders) (asked : List Member) (holder : Member) (body : Bytes) : Prop :=
  ∃ heard, h.tells asked holder = .ok heard ∧ heard.Serves body

/-- A holder was asked for the file of a path in vain. -/
structure Refuses (h : Holders) (p : FilePath) (holder : Member) (s s' : Search) : Prop where
  asked : s'.asked = s.asked ++ [holder]
  tries : s.disk.Tries s'.disk p
  unserved : s.disk.CanReceive p → ∀ body, ¬ h.Serves s.asked holder body

/-- Nobody has served the file, and all that are in the ring were asked. -/
structure Fails (h : Holders) (p : FilePath) (holders : List Member) (s s' : Search) : Prop where
  asked : s'.asked = s.asked ++ holders.filter h.inRing
  tries : s.disk.Tries s'.disk p
  unserved : s.disk.CanReceive p → ∀ before holder after body,
    holders.filter h.inRing = before ++ holder :: after →
      ¬ h.Serves (s.asked ++ before) holder body

/-- A holder has served the file, and nobody was asked after it. -/
structure Finds (h : Holders) (p : FilePath) (holders : List Member) (s s' : Search)
    (holder : Member) (body : Bytes) (before after : List Member) : Prop where
  split : holders.filter h.inRing = before ++ holder :: after
  asked : s'.asked = s.asked ++ (before ++ [holder])
  serves : h.Serves (s.asked ++ before) holder body
  gains : s.disk.Gains s'.disk p body

theorem ask_asked : (h.ask p holder s).2.asked = s.asked ++ [holder] := by
  unfold ask
  cases h.tells s.asked holder <;> rfl

/-- What comes of asking one holder. -/
theorem ask_cases (ht : s.disk.IsTree) (h : Holders) (p : FilePath) (holder : Member) :
    (Pull.brings (h.ask p holder s).1 = true ∧
        ∃ body, h.Serves s.asked holder body ∧ s.disk.Gains (h.ask p holder s).2.disk p body) ∨
      Pull.brings (h.ask p holder s).1 = false ∧ h.Refuses p holder s (h.ask p holder s).2 := by
  have hasked : (h.ask p holder s).2.asked = s.asked ++ [holder] := ask_asked
  unfold ask at hasked ⊢
  cases htells : h.tells s.asked holder with
  | error fault =>
    refine .inr ⟨rfl, rfl, .refl _ p, fun _ body ⟨heard, hheard, _⟩ => ?_⟩
    rw [htells] at hheard
    cases hheard
  | ok heard =>
    obtain ⟨hbrings, body, hserves, hgains⟩ | ⟨hnot, htries⟩ := heard.pull_cases ht p
    · exact .inl ⟨hbrings, body, ⟨heard, htells, hserves⟩, hgains⟩
    · refine .inr ⟨hnot, rfl, htries, fun hc body ⟨found, hfound, hserves⟩ => ?_⟩
      cases htells.symm.trans hfound
      exact absurd (hserves.pull ht hc) (Bool.eq_false_iff.mp hnot)

theorem Refuses.fails {t : Search} (hring : h.inRing holder = true)
    (hrefuses : h.Refuses p holder s t) (hfails : h.Fails p holders t s') :
    h.Fails p (holder :: holders) s s' where
  asked := by
    rw [hfails.asked, hrefuses.asked, List.filter_cons_of_pos hring, List.append_assoc,
      List.singleton_append]
  tries := hrefuses.tries.trans hfails.tries
  unserved hc before found after body hsplit := by
    rw [List.filter_cons_of_pos hring] at hsplit
    cases before with
    | nil =>
      cases hsplit
      rw [List.append_nil]
      exact hrefuses.unserved hc body
    | cons first before =>
      obtain ⟨rfl, hrest⟩ := List.cons_eq_cons.mp hsplit
      have hunserved := hfails.unserved (hrefuses.tries.folders.canReceive.mp hc) before found after
        body hrest
      rwa [hrefuses.asked, List.append_assoc] at hunserved

theorem Refuses.finds {t : Search} {found : Member} {after : List Member}
    (hring : h.inRing holder = true) (hrefuses : h.Refuses p holder s t)
    (hfinds : h.Finds p holders t s' found body before after) :
    h.Finds p (holder :: holders) s s' found body (holder :: before) after where
  split := by rw [List.filter_cons_of_pos hring, hfinds.split, List.cons_append]
  asked := by
    rw [hfinds.asked, hrefuses.asked, List.append_assoc]
    rfl
  serves := by
    have hserves := hfinds.serves
    rwa [hrefuses.asked, List.append_assoc] at hserves
  gains := hrefuses.tries.gains hfinds.gains

/-- How a search ends. -/
theorem seek_cases (ht : s.disk.IsTree) (h : Holders) (p : FilePath) (holders : List Member) :
    (∃ s', h.seek p holders s = (none, s') ∧ h.Fails p holders s s') ∨
      ∃ s' holder body before after, h.seek p holders s = (some holder, s') ∧
        h.Finds p holders s s' holder body before after := by
  -- who was asked and what is left on the disk differ from holder to holder, so `s` is general
  induction holders generalizing s with
  | nil => exact .inl ⟨s, rfl, by simp, .refl _ p, by simp⟩
  | cons holder rest ih =>
    cases hring : h.inRing holder with
    | false =>
      have hfilter : (holder :: rest).filter h.inRing = rest.filter h.inRing :=
        List.filter_cons_of_neg (Bool.eq_false_iff.mp hring)
      simp only [seek, hring, Bool.not_false, ↓reduceIte]
      obtain ⟨s', heq, hfails⟩ | ⟨s', found, body, before, after, heq, hfinds⟩ := ih ht
      · exact .inl ⟨s', heq, hfilter ▸ hfails.asked, hfails.tries, hfilter ▸ hfails.unserved⟩
      · exact .inr ⟨s', found, body, before, after, heq, hfilter ▸ hfinds.split, hfinds.asked,
          hfinds.serves, hfinds.gains⟩
    | true =>
      simp only [seek, hring, Bool.not_true, Bool.false_eq_true, ↓reduceIte]
      obtain ⟨hbrings, body, hserves, hgains⟩ | ⟨hnot, hrefuses⟩ := ask_cases ht h p holder
      · rw [if_pos hbrings]
        exact .inr ⟨_, holder, body, [], rest.filter h.inRing, rfl, List.filter_cons_of_pos hring,
          ask_asked, by rwa [List.append_nil], hgains⟩
      · rw [if_neg (Bool.eq_false_iff.mp hnot)]
        obtain ⟨s', heq, hfails⟩ | ⟨s', found, body, before, after, heq, hfinds⟩ :=
          ih (hrefuses.tries.tree ht)
        · exact .inl ⟨s', heq, hrefuses.fails hring hfails⟩
        · exact .inr ⟨s', found, body, _, after, heq, hrefuses.finds hring hfinds⟩

/-- Asks the holders of a file in the order of an arrangement. -/
def search (h : Holders) (arrangement : Arrangement) (name : String) (holders : List Member)
    (p : FilePath) (d : Disk) : Option Member × Search :=
  h.seek p (arrangement.order name holders) { disk := d }

/-! ### Fetching -/

/-- How holders are reached. All that is said to them is the request for the file. -/
def network (h : Holders) : Network (StateM Search) where
  call holder _ _ := fun s =>
    ((h.tells s.asked holder).map (·, {}), { s with asked := s.asked ++ [holder] })

/-- A member that fetches a file from holders. -/
def client (h : Holders) (arrangement : Arrangement) : Client (StateM Search) where
  network := h.network
  coordinator := pure none
  inRing holder := pure (h.inRing holder)
  onDisk f := fun s =>
    let (disk, x) := f s.disk
    (x, { s with disk })
  note _ := pure ()
  arrangement

/-- Fetches a file from one of its holders to a path. -/
def fetch (h : Holders) (arrangement : Arrangement) (name : String) (holders : List Member)
    (p : FilePath) (d : Disk) : Except StorageFault Member × Search :=
  ((h.client arrangement).fetch name holders p).run.run { disk := d }

theorem run_bind {σ α β : Type} (x : StateM σ α) (f : α → StateM σ β) (s : σ) :
    (x >>= f).run s = (f (x.run s).1).run (x.run s).2 :=
  rfl

theorem run_bind_lift {σ ε α β : Type} (x : StateM σ α) (f : α → ExceptT ε (StateM σ) β) (s : σ) :
    ((liftM x : ExceptT ε (StateM σ) α) >>= f).run.run s =
      (f (x.run s).1).run.run (x.run s).2 :=
  rfl

theorem run_askHolder {message : Message} :
    ((h.client arrangement).network.ask holder message).run s =
      (h.tells s.asked holder, { s with asked := s.asked ++ [holder] }) := by
  have hfirst : ((h.tells s.asked holder).map (·, ({} : Heard))).map Prod.fst =
      h.tells s.asked holder := by
    cases h.tells s.asked holder <;> rfl
  exact congrArg (·, { s with asked := s.asked ++ [holder] }) hfirst

theorem run_onDisk {α : Type} (f : Disk → Disk × α) :
    ((h.client arrangement).onDisk f).run s = ((f s.disk).2, { s with disk := (f s.disk).1 }) :=
  rfl

theorem run_fetchAt :
    ((h.client arrangement).fetchAt name p holder).run s =
      (Pull.brings (h.ask p holder s).1, (h.ask p holder s).2) := by
  unfold Client.fetchAt ask
  rw [run_bind, run_askHolder]
  cases h.tells s.asked holder with
  | error fault => rfl
  | ok heard =>
    simp only [run_bind, run_onDisk]
    cases heard.pull s.disk p with
    | mk d' pulled => cases pulled <;> rfl

theorem run_fetchFrom :
    ((h.client arrangement).fetchFrom name p holders).run.run s =
      match h.seek p holders s with
      | (some holder, s) => (.ok holder, s)
      | (none, s) => (.error (.unavailable name), s) := by
  induction holders generalizing s with
  | nil => rfl
  | cons holder rest ih =>
    have hinRing : ((h.client arrangement).inRing holder).run s = (h.inRing holder, s) := rfl
    rw [Client.fetchFrom, seek, run_bind_lift, hinRing]
    cases h.inRing holder with
    | false => exact ih
    | true =>
      simp only [Bool.not_true, Bool.false_eq_true, ↓reduceIte]
      rw [run_bind_lift, run_fetchAt]
      cases Pull.brings (h.ask p holder s).1 with
      | false => exact ih
      | true => rfl

theorem fetch_eq (h : Holders) (arrangement : Arrangement) (name : String) (holders : List Member)
    (p : FilePath) (d : Disk) :
    h.fetch arrangement name holders p d =
      match h.search arrangement name holders p d with
      | (some holder, s) => (.ok holder, s)
      | (none, s) => (.error (.unavailable name), s) :=
  run_fetchFrom

/-! ### Copying -/

/-- A store that copies a file from holders. -/
def port (h : Holders) (name : String) : Store.CopyPort (StateM (Store × Search)) where
  act f := fun (store, s) =>
    let (store, disk, x) := f store s.disk
    (x, store, { s with disk })
  inRing holder := pure (h.inRing holder)
  pull holder := fun (store, s) =>
    let (pulled, s) := h.ask (store.path name) holder s
    (some pulled, store, s)

/-- Copies a file from one of its holders. -/
def copy (h : Holders) (arrangement : Arrangement) (name : String) (holders : List Member)
    (store : Store) (d : Disk) : Store.CopyProgress × Store × Search :=
  (Store.copy (h.port name) arrangement name holders).run (store, { disk := d })

theorem run_act {α : Type} {store : Store} (f : Store → Disk → Store × Disk × α) :
    ((h.port name).act f).run (store, s) =
      ((f store s.disk).2.2, (f store s.disk).1, { s with disk := (f store s.disk).2.1 }) :=
  rfl

theorem run_pull {store : Store} :
    ((h.port name).pull holder).run (store, s) =
      (some (h.ask (store.path name) holder s).1, store, (h.ask (store.path name) holder s).2) :=
  rfl

/-- A copy ends with the holder that has served the file. -/
theorem run_hearHolder {store : Store} {pulled : Except ExchangeFault FileMessage}
    {others : StateM (Store × Search) Store.CopyProgress} (hkept : name ∉ store.cancelled) :
    (Store.hearHolder (h.port name) name pulled others).run (store, s) =
      if Pull.brings pulled then
        (.answered .ok, { store with files := store.files.insert name }.endReceiving name, s)
      else others.run (store, s) := by
  have hjudge : store.judgePull s.disk name pulled =
      if Pull.brings pulled then
        ({ store with files := store.files.insert name }, s.disk, some .ok)
      else (store, s.disk, none) := by
    unfold Store.judgePull
    cases pulled with
    | error fault => rfl
    | ok ack =>
      rw [Store.publish_of_kept hkept]
      rfl
  unfold Store.hearHolder
  rw [run_bind, run_act, hjudge]
  cases Pull.brings pulled <;> rfl

theorem run_copyFrom {store : Store} (hkept : name ∉ store.cancelled) :
    (Store.copyFrom (h.port name) name holders).run (store, s) =
      match h.seek (store.path name) holders s with
      | (some _, s) =>
        (.answered .ok, { store with files := store.files.insert name }.endReceiving name, s)
      | (none, s) => (.answered .fail, store.endReceiving name, s) := by
  induction holders generalizing s with
  | nil => rfl
  | cons holder rest ih =>
    have hinRing : ((h.port name).inRing holder).run (store, s) = (h.inRing holder, store, s) := rfl
    rw [Store.copyFrom, seek, run_bind, hinRing]
    cases h.inRing holder with
    | false => exact ih
    | true =>
      simp only [Bool.not_true, Bool.false_eq_true, ↓reduceIte]
      rw [run_bind, run_pull]
      refine (run_hearHolder hkept).trans ?_
      cases Pull.brings (h.ask (store.path name) holder s).1 with
      | false => exact ih
      | true => rfl

theorem run_copy {store : Store} :
    h.copy arrangement name holders store d =
      match store.beginCopy name with
      | (store, some kind) => (.answered kind, store, { disk := d })
      | (store, none) => (Store.copyFrom (h.port name) name (arrangement.order name holders)).run
          (store, { disk := d }) := by
  unfold copy Store.copy
  rw [run_bind, run_act]
  cases store.beginCopy name with
  | mk begun answer => cases answer <;> rfl

/-- How a copy of a name ends that was free: the file was got, or not. -/
def copied (store : Store) (name : String) (got : Bool) : Store.CopyProgress × Store :=
  if got then
    (.answered .ok, { store with files := store.files.insert name }.endReceiving name)
  else (.answered .fail, store.endReceiving name)

theorem copied_eq_ok {store : Store} {got : Bool} :
    (copied store name got).1 = .answered .ok ↔ got = true := by
  cases got
  · exact iff_of_false nofun nofun
  · exact iff_of_true rfl rfl

/-- A copy of a name that is free searches for the file. -/
theorem copy_of_free {store : Store} (hfree : store.Free name) (h : Holders)
    (arrangement : Arrangement) (holders : List Member) (d : Disk) :
    h.copy arrangement name holders store d =
      ((copied store name (h.search arrangement name holders (store.path name) d).1.isSome).1,
        (copied store name (h.search arrangement name holders (store.path name) d).1.isSome).2,
        (h.search arrangement name holders (store.path name) d).2) := by
  have hkept : name ∉ (store.beginReceiving name).cancelled := fun hmem =>
    (Store.mem_cancelled_beginReceiving.mp hmem).1 rfl
  have hended (files : NameSet) :
      { store.beginReceiving name with files }.endReceiving name =
        { store with files }.endReceiving name := store.endReceiving_beginReceiving name files
  have hunstored : (store.beginReceiving name).endReceiving name = store.endReceiving name :=
    hended store.files
  obtain ⟨-, hbegin⟩ | ⟨hbusy, -⟩ := store.beginCopy_cases name
  · rw [run_copy, hbegin]
    dsimp only
    rw [run_copyFrom hkept, hended, hunstored]
    change (match h.search arrangement name holders (store.path name) d with
      | (some _, s) => _
      | (none, s) => _) = _
    generalize h.search arrangement name holders (store.path name) d = outcome
    obtain ⟨found, s⟩ := outcome
    cases found <;> rfl
  · exact absurd hfree hbusy

/-- A copy of any other name is answered at once, and not with an `Ok`. -/
theorem copy_of_busy {store : Store} (hbusy : ¬ store.Free name) (h : Holders)
    (holders : List Member) (d : Disk) :
    ∃ kind, kind ≠ .ok ∧ ∀ arrangement, h.copy arrangement name holders store d =
      (.answered kind, store, { disk := d }) := by
  obtain ⟨hfree, -⟩ | ⟨-, kind, hkind, hbegin⟩ := store.beginCopy_cases name
  · exact absurd hfree hbusy
  · refine ⟨kind, hkind, fun arrangement => ?_⟩
    rw [run_copy, hbegin]

end Holders

end ReplicaRing
