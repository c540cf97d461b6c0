import ReplicaRing.Proofs.Disk.Transfers
import ReplicaRing.Pull

/-!
# A file is received whole or not at all

However a stream ends, the path that it is received at has the whole stream or what it had before.
What is left of a stream that was not received is in the sibling, if anything: the sibling goes when
the stream was broken or had the wrong length, and it stays when the sender fell silent, and when a
whole file could not take the place of what is at the path.
-/
namespace ReplicaRing

open Disk

variable {d d' : Disk} {p : FilePath} {l k target : Location} {t : Target} {name : String}
  {content bytes : Bytes} {e : Entry} {inflow : Inflow} {announced : Option UInt64}

/-! ### A path and its sibling -/

namespace Path

/-- A path that does not end in a slash ends in its last name. -/
theorem exists_front_of_pieces {path : List Char} (hslash : path.getLast? ≠ some '/')
    (hlast : (pieces path).getLast? = some name) :
    ∃ front, IsFront front ∧ path = front ++ name.toList ∧ '/' ∉ name.toList := by
  have hsingle {after : List Char} (hne : after ≠ []) (hnone : '/' ∉ after) :
      pieces after = [String.ofList after] := by
    have hname : String.ofList after ≠ "" := fun heq => hne (String.ofList_eq_empty_iff.mp heq)
    have hpieces := pieces_of_no_slash hname (by rwa [String.toList_ofList])
    rwa [String.toList_ofList] at hpieces
  cases hsplit : Text.splitLast? '/' path with
  | none =>
    have hnone := Text.splitLast?_eq_none_iff.mp hsplit
    have hne : path ≠ [] := by
      rintro rfl
      cases hlast
    rw [hsingle hne hnone, List.getLast?_singleton, Option.some.injEq] at hlast
    subst hlast
    rw [String.toList_ofList]
    exact ⟨[], .inl rfl, rfl, hnone⟩
  | some parts =>
    obtain ⟨before, after⟩ := parts
    obtain ⟨rfl, hnone⟩ := Text.splitLast?_eq_some_iff.mp hsplit
    have hne : after ≠ [] := by
      rintro rfl
      exact hslash List.getLast?_concat
    rw [pieces_append_slash, hsingle hne hnone, List.getLast?_concat, Option.some.injEq] at hlast
    subst hlast
    rw [String.toList_ofList]
    exact ⟨before ++ ['/'], .inr ⟨before, rfl⟩, by simp, hnone⟩

end Path

theorem PartialName.ofName_ne : ofName name ≠ name := by
  intro heq
  have hlength := congrArg List.length (toList_ofName name)
  rw [heq, List.length_append, List.length_cons] at hlength
  omega

namespace Disk

/-- Only slashes have no names between them. -/
theorem head?_of_pieces {text : List Char} (hne : text ≠ []) (hpieces : pieces text = []) :
    text.head? = some '/' := by
  obtain ⟨c, rest, rfl⟩ := List.exists_cons_of_ne_nil hne
  by_cases hc : c = '/'
  · rw [hc, List.head?_cons]
  · obtain ⟨piece, others, hsplit⟩ :=
      List.exists_cons_of_ne_nil (show pieces.split rest ≠ [] from List.cons_ne_nil _ _)
    rw [pieces, split_cons hc, hsplit, List.modifyHead_cons, List.filter_cons_of_pos] at hpieces
    · cases hpieces
    · simp

/-- A name is looked up in a folder. -/
theorem walk_singleton (h : d.walk k [name] = .ok l) :
    d.entry? k = some .folder ∧
      l = if name = "." then k else if name = ".." then k.dropLast else k ++ [name] := by
  rw [walk] at h
  cases he : d.entry? k with
  | none => rw [he] at h; cases h
  | some e =>
    cases e with
    | file content => rw [he] at h; cases h
    | folder =>
      simp only [he, walk] at h
      refine ⟨rfl, ?_⟩
      split at h
      · cases h
      · split at h
        · cases h
          exact (if_pos ‹_›).symm
        · rw [if_neg ‹_›]
          split at h
          · cases h
            exact (if_pos ‹_›).symm
          · cases h
            exact (if_neg ‹_›).symm

/-- A path that ends in dots leads to a folder. -/
theorem IsTree.folder_of_dots (ht : d.IsTree) (h : d.resolve p = .ok t) (hdots : t.dots = true) :
    d.entry? t.location = some .folder := by
  obtain ⟨⟨-, hne, -⟩, hwalk, -, hlast⟩ := resolve_eq_ok.mp h
  have hstep {dots : String} (hend : (pieces p.text.toList).getLast? = some dots) :
      ∃ here, d.walk here [dots] = .ok t.location := by
    obtain ⟨names, hnames⟩ := List.getLast?_eq_some_iff.mp hend
    rw [hnames, walk_append] at hwalk
    cases hfront : d.walk (if p.text.toList.head? = some '/' then [] else p.folder) names with
    | error fault =>
      rw [hfront] at hwalk
      cases hwalk
    | ok here =>
      rw [hfront] at hwalk
      exact ⟨here, hwalk⟩
  rw [hlast, decide_eq_true_iff] at hdots
  obtain hnone | hdot | hdots := hdots
  · rw [List.getLast?_eq_none_iff] at hnone
    have htext : p.text.toList ≠ [] := fun heq => hne (String.toList_eq_nil_iff.mp heq)
    rw [hnone, if_pos (head?_of_pieces htext hnone), walk, Except.ok.injEq] at hwalk
    rw [← hwalk, entry?_root]
  · obtain ⟨here, hwalk⟩ := hstep hdot
    obtain ⟨hfolder, hlocation⟩ := walk_singleton hwalk
    rw [hlocation, if_pos rfl, hfolder]
  · obtain ⟨here, hwalk⟩ := hstep hdots
    obtain ⟨hfolder, hlocation⟩ := walk_singleton hwalk
    rw [hlocation, if_neg (by decide), if_pos rfl]
    by_cases hroot : here = []
    · rw [hroot, List.dropLast_nil, entry?_root]
    · refine ht.folder_of_prefix (by rw [hfolder]; rfl) (List.dropLast_prefix here) fun heq => ?_
      have hlength := congrArg List.length heq
      have hpos := List.length_pos_iff.mpr hroot
      rw [List.length_dropLast] at hlength
      omega

/-- A file is not where its sibling is. -/
theorem location_ne_sibling (h : d.resolve p = .ok ⟨k, false, false⟩)
    (hl : d.fileTarget p.inTransit = .ok l) : k ≠ l := by
  obtain ⟨parent, name, rfl, -, hname⟩ := exists_parent_of_resolve h
  obtain ⟨above, found, rfl, -, hfound⟩ := exists_parent_of_resolve (fileTarget_eq_ok.mp hl).1
  obtain ⟨-, -, hslash, hdots⟩ := resolve_eq_ok.mp h
  have hdots := of_decide_eq_false hdots.symm
  simp only [hname, Option.some.injEq, reduceCtorEq, false_or, not_or] at hdots
  obtain ⟨front, hfront, hpath, hnoSlash⟩ :=
    Path.exists_front_of_pieces (of_decide_eq_false hslash.symm) hname
  have hne : name ≠ "" := by
    have hmem := List.mem_of_getLast? hname
    rw [pieces, List.mem_filter] at hmem
    exact of_decide_eq_true hmem.2
  rw [FilePath.inTransit, PartialName.pieces_ofPath, hpath,
    Path.fileName?_front hfront ⟨hne, hnoSlash, hdots.1, hdots.2⟩, Option.getD_some,
    String.ofList_toList, Option.some.injEq] at hfound
  intro heq
  have hsame : name = found := List.singleton_inj.mp (List.append_inj' heq rfl).2
  exact PartialName.ofName_ne (hfound.trans hsame.symm)

/-- Nothing that is found at a path is where its sibling is. -/
theorem slash_of_location_sibling (ht : d.IsTree) (h : d.resolve p = .ok t)
    (hl : d.fileTarget p.inTransit = .ok t.location) : t.slash = true := by
  obtain ⟨location, slash, dots⟩ := t
  cases slash with
  | true => rfl
  | false =>
    cases dots with
    | true => exact absurd (ht.folder_of_dots h rfl) (fileTarget_eq_ok.mp hl).2
    | false => exact absurd rfl (location_ne_sibling h hl)

theorem lookup_eq_ok :
    d.lookup p = .ok e ↔
      ∃ t, d.resolve p = .ok t ∧ d.entry? t.location = some e ∧ (t.slash = true → e = .folder) := by
  unfold lookup
  cases d.resolve p with
  | error fault => simp [bind, Except.bind]
  | ok t =>
    simp only [bind, Except.bind, Except.ok.injEq, exists_eq_left']
    cases d.entry? t.location with
    | none => simp
    | some found => cases found <;> cases t.slash <;> cases e <;> simp

/-- What happens to the sibling does not matter at the path. -/
theorem Touches.lookup_beside (h : d.Touches d' [l]) (ht : d.IsTree)
    (hl : d.fileTarget p.inTransit = .ok l) : d'.lookup p = .ok e ↔ d.lookup p = .ok e := by
  rw [lookup_eq_ok, lookup_eq_ok]
  refine exists_congr fun t => ?_
  rw [h.folders.resolve_eq_ok.symm]
  refine and_congr_right fun hresolve => ?_
  by_cases hlocation : t.location = l
  · have hfile := (fileTarget_eq_ok.mp hl).2
    subst hlocation
    have hslash := slash_of_location_sibling ht hresolve hl
    have hnone {d : Disk} (hfile : d.entry? t.location ≠ some .folder) :
        ¬ (d.entry? t.location = some e ∧ (t.slash = true → e = .folder)) :=
      fun ⟨hentry, hfolder⟩ => hfile (hfolder hslash ▸ hentry)
    exact iff_of_false (hnone fun heq => hfile ((h.folders _).mpr heq)) (hnone hfile)
  · rw [h.elsewhere _ (by rwa [List.mem_singleton])]

end Disk

namespace Disk

/-! ### What becomes of a path -/

/-- A path has got its file. Its sibling is gone, and all else is as it was. -/
def Gains (d d' : Disk) (p : FilePath) (content : Bytes) : Prop :=
  ∃ l target, d.fileTarget p.inTransit = .ok l ∧ d.fileTarget p = .ok target ∧
    d.Touches d' [l, target] ∧
    ∀ k, d'.entry? k =
      if k = target then some (.file content) else if k = l then none else d.entry? k

/-- A path was tried and has not got its file. At most its sibling differs. -/
structure Tries (d d' : Disk) (p : FilePath) : Prop where
  refused : ¬ d.Collects p → d' = d
  touches : ∀ l, d.fileTarget p.inTransit = .ok l → d.Touches d' [l]

theorem Gains.lookup (h : d.Gains d' p content) : d'.lookup p = .ok (.file content) := by
  obtain ⟨l, target, -, htarget, htouch, hentry⟩ := h
  refine lookup_eq_file.mpr
    ⟨_, htouch.folders.resolve_eq_ok.mp (fileTarget_eq_ok.mp htarget).1, ?_, rfl⟩
  rw [hentry, if_pos rfl]

theorem Gains.tree (h : d.Gains d' p content) (ht : d.IsTree) : d'.IsTree := by
  obtain ⟨l, target, -, -, htouch, -⟩ := h
  exact htouch.tree ht

theorem Tries.refl (d : Disk) (p : FilePath) : d.Tries d p :=
  ⟨fun _ => rfl, fun _ _ => .refl _ _⟩

theorem Tries.of_touches (hl : d.fileTarget p.inTransit = .ok l) (h : d.Touches d' [l]) :
    d.Tries d' p where
  refused hrefused := absurd ⟨l, hl⟩ hrefused
  touches k hk := by
    cases hl.symm.trans hk
    exact h

theorem Tries.folders (h : d.Tries d' p) : d.SameFolders d' := by
  by_cases hc : d.Collects p
  · obtain ⟨l, hl⟩ := hc
    exact (h.touches l hl).folders
  · rw [h.refused hc]
    exact .refl d

theorem Tries.tree (h : d.Tries d' p) (ht : d.IsTree) : d'.IsTree := by
  by_cases hc : d.Collects p
  · obtain ⟨l, hl⟩ := hc
    exact (h.touches l hl).tree ht
  · rwa [h.refused hc]

theorem Tries.trans {d'' : Disk} (h : d.Tries d' p) (h' : d'.Tries d'' p) : d.Tries d'' p where
  refused hc := by rw [h'.refused fun hc' => hc (h.folders.collects.mpr hc'), h.refused hc]
  touches l hl := (h.touches l hl).trans (h'.touches l (h.folders.fileTarget_eq_ok.mp hl))

theorem Tries.entry (h : d.Tries d' p) (hk : d.fileTarget p.inTransit ≠ .ok k) :
    d'.entry? k = d.entry? k := by
  by_cases hc : d.Collects p
  · obtain ⟨l, hl⟩ := hc
    refine (h.touches l hl).elsewhere k fun hmem => hk ?_
    rw [List.mem_singleton.mp hmem, hl]
  · rw [h.refused hc]

/-- What a path has is what it had before it was tried. -/
theorem Tries.lookup (h : d.Tries d' p) (ht : d.IsTree) :
    d'.lookup p = .ok e ↔ d.lookup p = .ok e := by
  by_cases hc : d.Collects p
  · obtain ⟨l, hl⟩ := hc
    exact (h.touches l hl).lookup_beside ht hl
  · rw [h.refused hc]

/-- After tries that failed, a path gets its file as if nothing had been tried. -/
theorem Tries.gains {d'' : Disk} (h : d.Tries d' p) (h' : d'.Gains d'' p content) :
    d.Gains d'' p content := by
  obtain ⟨l, target, hl, htarget, htouch, hentry⟩ := h'
  have hl := h.folders.fileTarget_eq_ok.mpr hl
  refine ⟨l, target, hl, h.folders.fileTarget_eq_ok.mpr htarget,
    ((h.touches l hl).mono (by simp)).trans htouch, fun k => ?_⟩
  rw [hentry]
  split
  · rfl
  · split
    · rfl
    · exact (h.touches l hl).elsewhere k (by rwa [List.mem_singleton])

end Disk

/-! ### How streams end -/

/-- How a stream ends. -/
inductive Ending
  /-- The sender has sent all. -/
  | closed
  /-- The connection breaks, or what comes cannot be written. -/
  | broken (fault : IoFault)
  /-- The sender falls silent and is given up. -/
  | silent
deriving DecidableEq, Repr

/-- What is left in the sibling of a stream that ends so and is not received. -/
def Ending.leaves (announced : Option UInt64) (bytes : Bytes) : Ending → Option Entry
  -- the stream was whole, and could not take the place of what is at the path
  | closed => if Announces announced bytes.length then some (.file bytes) else none
  | broken _ => none
  | silent => some (.file bytes)

/-- How what is heard ends. -/
def Heard.ending (h : Heard) : Ending := if h.closed then .closed else .silent

namespace Transfer

/-- Receives a stream that ends so after `bytes`. -/
def receiveUntil (d : Disk) (destination : FilePath) (announced : Option UInt64) (bytes : Bytes)
    (ending : Ending) : Disk × Except ExchangeFault Nat :=
  match start d destination with
  | (d, .error fault) => (d, .error (.io fault))
  | (d, .ok inflow) =>
    let (d, inflow) := collect d inflow bytes
    match ending with
    | .closed =>
      let (d, received) := finish d destination announced inflow
      (d, received.mapError .io)
    | .broken fault => (abandon (d.close inflow.handle) destination, .error (.io fault))
    | .silent => (stall d inflow, .error (.timeout .receivingFile))

theorem receiveUntil_closed (d : Disk) (p : FilePath) (announced : Option UInt64) (bytes : Bytes) :
    receiveUntil d p announced bytes .closed =
      ((receive d p announced bytes).1, (receive d p announced bytes).2.mapError .io) := by
  unfold receiveUntil receive
  cases start d p with
  | mk begun result => cases result <;> rfl

theorem receiveUntil_refused (h : ¬ d.Collects p) (announced : Option UInt64) (bytes : Bytes)
    (ending : Ending) : ∃ fault, receiveUntil d p announced bytes ending = (d, .error fault) := by
  obtain ⟨fault, hstart⟩ := start_refused h
  refine ⟨.io fault, ?_⟩
  unfold receiveUntil
  simp only [hstart]

/-- A sibling that collects bytes is removed when the transfer is given up. -/
theorem entry?_abandon (hp : d.resolve p.inTransit = .ok ⟨l, false, false⟩)
    (hentry : d.entry? l = some (.file content)) :
    Disk.entry? (abandon d p) k = if k = l then none else d.entry? k := by
  obtain ⟨d', hr⟩ := exists_remove (lookup_eq_file.mpr ⟨_, hp, hentry, rfl⟩)
  obtain ⟨t, found, ht, -, -, hremoved, -⟩ := remove_eq_ok hr
  cases hp.symm.trans ht
  unfold abandon
  rw [hr, Except.toOption, Option.getD_some, hremoved]

/-- A stream is not received. The path is as it was, and this is left in its sibling. -/
structure Misses (d d' : Disk) (p : FilePath) (left : Option Entry) : Prop where
  tries : d.Tries d' p
  left : ∀ l, d.fileTarget p.inTransit = .ok l → d'.entry? l = left

theorem Misses.of_touches {left : Option Entry} (hl : d.fileTarget p.inTransit = .ok l)
    (h : d.Touches d' [l]) (hleft : d'.entry? l = left) : Misses d d' p left where
  tries := .of_touches hl h
  left k hk := by
    cases hl.symm.trans hk
    exact hleft

/-- A stream that was given up has left nothing. -/
theorem misses_abandon (hl : d.fileTarget p.inTransit = .ok l) (htouch : d.Touches d' [l])
    (hc : inflow.Collects d' l content) :
    Misses d (abandon (d'.close inflow.handle) p) p none := by
  have hclose := htouch.trans (touches_close hc.opened)
  have hp := hclose.folders.resolve_eq_ok.mp (fileTarget_eq_ok.mp hl).1
  refine .of_touches hl (hclose.trans (touches_abandon hp)) ?_
  rw [entry?_abandon hp hc.entry, if_pos rfl]

/-- However a stream ends, it is received whole or not at all. -/
theorem receiveUntil_spec (ht : d.IsTree) (p : FilePath) (announced : Option UInt64)
    (bytes : Bytes) (ending : Ending) :
    (∃ d', receiveUntil d p announced bytes ending = (d', .ok bytes.length) ∧
        ending = .closed ∧ Announces announced bytes.length ∧ d.Gains d' p bytes) ∨
      ∃ d' fault, receiveUntil d p announced bytes ending = (d', .error fault) ∧
        Misses d d' p (ending.leaves announced bytes) := by
  by_cases hcollects : d.Collects p
  · obtain ⟨l, hl⟩ := hcollects
    obtain ⟨begun, inflow, hs, hc, htouch⟩ := exists_collected hl bytes
    have hp := htouch.folders.resolve_eq_ok.mp (fileTarget_eq_ok.mp hl).1
    generalize hcollect : collect begun inflow bytes = collected at hc htouch hp
    obtain ⟨c, inflow⟩ := collected
    unfold receiveUntil
    simp only [hs, hcollect]
    cases ending with
    | closed =>
      dsimp only
      cases hf : finish c p announced inflow with
      | mk d' result =>
        cases result with
        | ok n =>
          obtain ⟨rfl, hlength, target, htarget, htouch', hentry⟩ :=
            finish_ok (htouch.tree ht) hc hp hf
          refine .inl ⟨d', rfl, rfl, hlength, ?_⟩
          exact Tries.gains (.of_touches hl htouch)
            ⟨l, target, htouch.folders.fileTarget_eq_ok.mp hl, htarget, htouch', hentry⟩
        | error fault =>
          refine .inr ⟨d', .io fault, rfl, ?_⟩
          rw [finish_eq hc.received] at hf
          unfold Ending.leaves
          split at hf
          · obtain ⟨-, rfl⟩ := settle_eq_error.mp hf
            rw [if_pos ‹_›]
            exact .of_touches hl (htouch.trans (touches_close hc.opened)) hc.entry
          · obtain ⟨rfl, -⟩ := Prod.mk.inj hf
            rw [if_neg ‹_›]
            exact misses_abandon hl htouch hc
    | broken fault => exact .inr ⟨_, _, rfl, misses_abandon hl htouch hc⟩
    | silent =>
      exact .inr ⟨_, _, rfl, .of_touches hl (htouch.trans (touches_close hc.opened)) hc.entry⟩
  · obtain ⟨fault, hrefused⟩ := receiveUntil_refused hcollects announced bytes ending
    exact .inr ⟨d, fault, hrefused, .refl d p, fun l hl => absurd ⟨l, hl⟩ hcollects⟩

end Transfer

/-! ### Pulling -/

/-- What is heard behind an `Ok` is received. -/
theorem Pull.finish_acknowledge (d : Disk) (p : FilePath) (ack : FileMessage) (rest : Heard) :
    (Pull.acknowledge d p ack rest.bytes).2.finish (Pull.acknowledge d p ack rest.bytes).1 p
        rest.closed =
      if ack.isOk then
        ((Transfer.receiveUntil d p ack.size rest.bytes rest.ending).1,
          (Transfer.receiveUntil d p ack.size rest.bytes rest.ending).2.map fun _ => ack)
      else (d, .ok ack) := by
  unfold Pull.acknowledge Transfer.receiveUntil
  cases ack.isOk with
  | false => rfl
  | true =>
    simp only [↓reduceIte]
    cases Transfer.start d p with
    | mk begun result =>
      cases result with
      | error fault => rfl
      | ok inflow =>
        unfold Pull.finish Heard.ending
        cases rest.closed with
        | false => rfl
        | true =>
          simp only [↓reduceIte]
          generalize Transfer.collect begun inflow rest.bytes = collected
          obtain ⟨c, inflow⟩ := collected
          cases Transfer.finish c p ack.size inflow with
          | mk d' received => cases received <;> rfl

/-- A pull hears an acknowledgment, and if that is an `Ok`, it receives what follows. -/
theorem Heard.pull_eq (h : Heard) (d : Disk) (p : FilePath) :
    h.pull d p =
      match h.frame (α := FileMessage) .awaitingAcknowledgment with
      | .error fault => (d, .error fault)
      | .ok (ack, rest) =>
        if ack.isOk then
          ((Transfer.receiveUntil d p ack.size rest.bytes rest.ending).1,
            (Transfer.receiveUntil d p ack.size rest.bytes rest.ending).2.map fun _ => ack)
        else (d, .ok ack) := by
  unfold Heard.pull Pull.start Pull.hear Heard.frame
  simp only [List.nil_append]
  cases hcut : Wire.Frame.cut h.bytes with
  | inHeader =>
    simp only [Pull.finish, Heard.reply, Heard.frame, hcut]
    rfl
  | inBody =>
    simp only [Pull.finish, Heard.reply, Heard.frame, hcut]
    rfl
  | tooLarge length => rfl
  | whole body rest =>
    cases hack : Wire.decode (α := FileMessage) body with
    | error fault =>
      simp only [hack]
      rfl
    | ok ack =>
      simp only [hack]
      exact Pull.finish_acknowledge d p ack ⟨rest, h.closed⟩

/-- A pull is refused, or it hears no acknowledgment, or what follows an `Ok` is received whole or
not at all. -/
theorem Heard.pull_spec (ht : d.IsTree) (h : Heard) (p : FilePath) :
    (∃ fault, h.frame (α := FileMessage) .awaitingAcknowledgment = .error fault ∧
        h.pull d p = (d, .error fault)) ∨
      ∃ ack rest, h.frame (α := FileMessage) .awaitingAcknowledgment = .ok (ack, rest) ∧
        (ack.isOk = false ∧ h.pull d p = (d, .ok ack) ∨
          ack.isOk = true ∧
            ((∃ d', h.pull d p = (d', .ok ack) ∧ rest.closed = true ∧
                Announces ack.size rest.bytes.length ∧ d.Gains d' p rest.bytes) ∨
              ∃ d' fault, h.pull d p = (d', .error fault) ∧
                Transfer.Misses d d' p (rest.ending.leaves ack.size rest.bytes))) := by
  rw [h.pull_eq]
  cases h.frame (α := FileMessage) .awaitingAcknowledgment with
  | error fault => exact .inl ⟨fault, rfl, rfl⟩
  | ok heard =>
    obtain ⟨ack, rest⟩ := heard
    refine .inr ⟨ack, rest, rfl, ?_⟩
    cases hok : ack.isOk with
    | false => exact .inl ⟨rfl, by simp only [hok, Bool.false_eq_true, ↓reduceIte]⟩
    | true =>
      simp only [hok, ↓reduceIte]
      refine .inr ⟨trivial, ?_⟩
      obtain ⟨d', hreceive, hclosed, hlength, hgains⟩ | ⟨d', fault, hreceive, hmisses⟩ :=
        Transfer.receiveUntil_spec ht p ack.size rest.bytes rest.ending
      · refine .inl ⟨d', by rw [hreceive]; rfl, ?_, hlength, hgains⟩
        unfold Heard.ending at hclosed
        split at hclosed
        · assumption
        · cases hclosed
      · exact .inr ⟨d', fault, by rw [hreceive]; rfl, hmisses⟩

/-- However a stream ends, its path has all of it, or what it had before. A stream that was not
received has left something in the sibling if the sender fell silent, or if it was whole and could
not take the place of what is at the path. The same holds for what is pulled. -/
theorem Transfer.whole_or_untouched (ht : d.IsTree) (p : FilePath) :
    (∀ announced bytes ending,
      match receiveUntil d p announced bytes ending with
      | (d', .ok n) =>
        ending = .closed ∧ n = bytes.length ∧ Announces announced n ∧
          d'.lookup p = .ok (.file bytes) ∧ d.Gains d' p bytes
      | (d', .error _) =>
        (∀ e, d'.lookup p = .ok e ↔ d.lookup p = .ok e) ∧
          Misses d d' p (ending.leaves announced bytes)) ∧
    (∀ announced bytes, receiveUntil d p announced bytes .closed =
      ((receive d p announced bytes).1, (receive d p announced bytes).2.mapError .io)) ∧
    ∀ h : Heard,
      match h.pull d p with
      | (d', .ok ack) =>
        if ack.isOk then
          ∃ rest, h.frame .awaitingAcknowledgment = .ok (ack, rest) ∧ rest.closed = true ∧
            Announces ack.size rest.bytes.length ∧ d'.lookup p = .ok (.file rest.bytes) ∧
              d.Gains d' p rest.bytes
        else d' = d
      | (d', .error fault) =>
        (∀ e, d'.lookup p = .ok e ↔ d.lookup p = .ok e) ∧
          (h.frame (α := FileMessage) .awaitingAcknowledgment = .error fault ∧ d' = d ∨
            ∃ ack rest, h.frame (α := FileMessage) .awaitingAcknowledgment = .ok (ack, rest) ∧
              ack.isOk = true ∧ Misses d d' p (rest.ending.leaves ack.size rest.bytes)) := by
  refine ⟨?_, receiveUntil_closed d p, ?_⟩
  · intro announced bytes ending
    have hspec := receiveUntil_spec ht p announced bytes ending
    generalize receiveUntil d p announced bytes ending = outcome at hspec
    obtain ⟨d', rfl, hclosed, hlength, hgains⟩ | ⟨d', fault, rfl, hmisses⟩ := hspec
    · exact ⟨hclosed, rfl, hlength, hgains.lookup, hgains⟩
    · exact ⟨fun _ => hmisses.tries.lookup ht, hmisses⟩
  · intro h
    have hspec := h.pull_spec ht p
    generalize h.pull d p = outcome at hspec
    obtain ⟨fault, hframe, rfl⟩ | ⟨ack, rest, hframe, ⟨hrefused, rfl⟩ | ⟨hok, hpulled⟩⟩ := hspec
    · exact ⟨fun _ => Iff.rfl, .inl ⟨hframe, rfl⟩⟩
    · exact (if_neg (Bool.eq_false_iff.mp hrefused)).mpr rfl
    · obtain ⟨d', rfl, hclosed, hlength, hgains⟩ | ⟨d', fault, rfl, hmisses⟩ := hpulled
      · exact (if_pos hok).mpr ⟨rest, hframe, hclosed, hlength, hgains.lookup, hgains⟩
      · exact ⟨fun _ => hmisses.tries.lookup ht, .inr ⟨ack, rest, hframe, hok, hmisses⟩⟩

theorem Transfer.whole_stream_beside_folder :
    (({} : Disk).set ["out.bin"] .folder).IsTree ∧
      ∃ d', receiveUntil (({} : Disk).set ["out.bin"] .folder) ⟨[], "out.bin"⟩ none [104] .closed =
          (d', .error (.io (.os .isDirectory))) ∧
        d'.lookup ⟨[], "out.bin"⟩ = .ok .folder ∧
        d'.entry? [".out.bin.partial"] = some (.file [104]) := by
  have ht : (({} : Disk).set ["out.bin"] .folder).IsTree :=
    Disk.isTree_empty.set_folder [] "out.bin" Disk.entry?_root
  have hlook : (({} : Disk).set ["out.bin"] .folder).lookup ⟨[], "out.bin"⟩ = .ok .folder := by
    decide +kernel
  have hsibling : (({} : Disk).set ["out.bin"] .folder).fileTarget
      (FilePath.inTransit ⟨[], "out.bin"⟩) = .ok [".out.bin.partial"] := by
    decide +kernel
  have hresult : (receiveUntil (({} : Disk).set ["out.bin"] .folder) ⟨[], "out.bin"⟩ none [104]
      .closed).2 = .error (.io (.os .isDirectory)) := by
    decide +kernel
  have hreceive := (whole_or_untouched ht ⟨[], "out.bin"⟩).1 none [104] .closed
  generalize receiveUntil (({} : Disk).set ["out.bin"] .folder) ⟨[], "out.bin"⟩ none [104] .closed =
    outcome at hresult hreceive
  obtain ⟨d', result⟩ := outcome
  cases hresult
  exact ⟨ht, d', rfl, (hreceive.1 _).mpr hlook, hreceive.2.left _ hsibling⟩

end ReplicaRing
