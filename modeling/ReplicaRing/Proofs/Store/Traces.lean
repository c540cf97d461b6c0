import ReplicaRing.Proofs.Holders

/-!
# Receptions that fail leave no trace

A reception either publishes its name with the whole file, or it leaves the store and the files on
the disk as they were; a sibling that is left is no file of the store. The sender of a put may be
gone at once or break off anywhere, and a copy may fail with any number of holders before one of
them serves the file.
-/
namespace ReplicaRing

open Disk

variable {s : Store} {d d' : Disk} {name : String} {body : Bytes} {l k target : Location}
  {announced : Option UInt64} {holders : List Member} {arrangement : Arrangement}

/-! ### Senders -/

/-- What becomes of the sender of a put. -/
inductive Sender
  /-- It is gone before it can be acknowledged. -/
  | gone
  /-- It sends these bytes; then it closes its side, or its connection breaks. -/
  | sends (body : Bytes) (breaks : Bool)
deriving DecidableEq, Repr

namespace Store

/-- A put from its request to its end, and what the store says to its sender. -/
def receivePut (s : Store) (d : Disk) (name : String) (announced : Option UInt64) :
    Sender → Store × Disk × List FileMessage
  | .gone =>
    (if s.Free name then (s.beginReceiving name).endReceiving name else s, d, [])
  | .sends body breaks =>
    match s.beginPut d name with
    | (s, d, .refused) => (s, d, [.fail])
    | (s, d, .failed _) => (s, d, [.ok])
    | (s, d, .receiving inflow) =>
      if breaks then
        let (d, inflow) := Transfer.collect d inflow body
        (s.endReceiving name, Transfer.abandon (d.close inflow.handle) (s.path name), [.ok])
      else
        let (s, d, answer) := s.takePut d name announced inflow body
        (s, d, .ok :: answer.reply.toList)

/-- How the stream of a put ends. -/
def streamEnd (breaks : Bool) : Ending := if breaks then .broken .brokenPipe else .closed

/-- A put that has begun publishes what it has received. -/
theorem takePut_begun (hfree : s.Free name) (hkept : name ∉ s.cancelled)
    (announced : Option UInt64) (inflow : Inflow) (body : Bytes) :
    (s.beginReceiving name).takePut d name announced inflow body =
      match Transfer.finish (Transfer.collect d inflow body).1 (s.path name) announced
          (Transfer.collect d inflow body).2 with
      | (d, .ok n) => ({ s with files := s.files.insert name }, d,
          { reply := some .ok, notes := [.stored name n] })
      | (d, .error fault) => (s, d, { fault := some (.io fault) }) := by
  have hended (files : NameSet) := hfree.endReceiving hkept files
  have hunstored : (s.beginReceiving name).endReceiving name = s := hended s.files
  have hcancelled : name ∉ (s.beginReceiving name).cancelled := fun hmem =>
    (mem_cancelled_beginReceiving.mp hmem).1 rfl
  have hpath : (s.beginReceiving name).path name = s.path name := rfl
  unfold takePut finishPut
  simp only [hpath]
  cases Transfer.finish (Transfer.collect d inflow body).1 (s.path name) announced
    (Transfer.collect d inflow body).2 with
  | mk d' received =>
    cases received with
    | error fault => simp only [hunstored]
    | ok n =>
      simp only [publish_of_kept hcancelled, ↓reduceIte]
      rw [hended]
      rfl

/-- A put of a name that is free receives its stream, and publishes what it has received. -/
theorem receivePut_eq (hfree : s.Free name) (hkept : name ∉ s.cancelled)
    (announced : Option UInt64) (body : Bytes) (breaks : Bool) :
    s.receivePut d name announced (.sends body breaks) =
      match Transfer.receiveUntil d (s.path name) announced body (streamEnd breaks) with
      | (d, .ok _) => ({ s with files := s.files.insert name }, d, [.ok, .ok])
      | (d, .error _) => (s, d, [.ok]) := by
  have hunstored : (s.beginReceiving name).endReceiving name = s :=
    hfree.endReceiving hkept s.files
  have hfailed : s.endReceiving name = s := endReceiving_of_not_mem hfree.2.2 hkept
  have hbegin := s.beginPut_eq d name
  rw [if_pos hfree] at hbegin
  unfold receivePut Transfer.receiveUntil
  cases hstart : Transfer.start d (s.path name) with
  | mk begun result =>
    rw [hstart] at hbegin
    cases result with
    | error fault => simp only [hbegin, hfailed]
    | ok inflow =>
      simp only [hbegin]
      cases breaks with
      | true =>
        simp only [↓reduceIte, hunstored, streamEnd]
        rfl
      | false =>
        simp only [Bool.false_eq_true, ↓reduceIte, streamEnd, takePut_begun hfree hkept]
        cases Transfer.finish (Transfer.collect begun inflow body).1 (s.path name) announced
          (Transfer.collect begun inflow body).2 with
        | mk d' received => cases received <;> rfl

end Store

/-! ### What is kept and what is added -/

namespace Disk

/-- All files are as they were, but for those in transit. -/
def KeepsFiles (d d' : Disk) : Prop :=
  ∀ l name, PartialName.isPartial name = false → d'.entry? (l ++ [name]) = d.entry? (l ++ [name])

/-- A file has come to a place. All others are as they were, but for those in transit. -/
structure AddsFile (d d' : Disk) (place : Location) (content : Bytes) : Prop where
  added : d'.entry? place = some (.file content)
  others : ∀ l name, PartialName.isPartial name = false → l ++ [name] ≠ place →
    d'.entry? (l ++ [name]) = d.entry? (l ++ [name])

theorem KeepsFiles.refl (d : Disk) : d.KeepsFiles d := fun _ _ _ => rfl

end Disk

namespace Store

/-- The bytes of an accepted name are collected in transit. -/
theorem fileTarget_inTransit_path (hname : accepts name = true)
    (hl : d.fileTarget (s.path name).inTransit = .ok l) : l = s.transit name := by
  rw [inTransit_path hname, path,
    fileTarget_plain (PartialName.plain_ofName (plain_of_accepts hname).no_slash)] at hl
  exact hl.2.2.1

theorem fileTarget_place (hname : accepts name = true)
    (htarget : d.fileTarget (s.path name) = .ok target) : target = s.place name := by
  rw [path, fileTarget_plain (plain_of_accepts hname)] at htarget
  exact htarget.2.2.1

theorem concat_ne_transit {other : String} (hpartial : PartialName.isPartial other = false) :
    l ++ [other] ≠ s.transit name := by
  intro heq
  have hother : other = PartialName.ofName name :=
    List.singleton_inj.mp (List.append_inj' heq rfl).2
  rw [hother, PartialName.isPartial_ofName] at hpartial
  cases hpartial

theorem keepsFiles_of_tries (hname : accepts name = true) (h : d.Tries d' (s.path name)) :
    d.KeepsFiles d' := fun _ _ hpartial =>
  h.entry fun htarget => concat_ne_transit hpartial (fileTarget_inTransit_path hname htarget)

theorem addsFile_of_gains (hname : accepts name = true) (h : d.Gains d' (s.path name) body) :
    d.AddsFile d' (s.place name) body := by
  obtain ⟨l, target, hl, htarget, -, hentry⟩ := h
  obtain rfl := fileTarget_inTransit_path hname hl
  obtain rfl := fileTarget_place hname htarget
  refine ⟨(hentry _).trans (if_pos rfl), fun l other hpartial hne => ?_⟩
  rw [hentry, if_neg hne, if_neg (concat_ne_transit hpartial)]

/-! ### Puts -/

/-- A put that is published: its name is free, its file can be received, and its sender sends all
that was announced. -/
structure Publishes (s : Store) (d : Disk) (name : String) (announced : Option UInt64)
    (sender : Sender) (body : Bytes) : Prop where
  sent : sender = .sends body false
  free : s.Free name
  receives : d.CanReceive (s.path name)
  whole : Announces announced body.length

theorem Publishes.receivePut {sender : Sender} (h : s.Publishes d name announced sender body)
    (ht : d.IsTree) (hkept : name ∉ s.cancelled) :
    ∃ d', s.receivePut d name announced sender =
        ({ s with files := s.files.insert name }, d', [.ok, .ok]) ∧
      d.AddsFile d' (s.place name) body := by
  obtain ⟨rfl, hfree, ⟨⟨l, hl⟩, target, htarget⟩, hlength⟩ := h
  obtain ⟨d', hreceive, htouch, hentry⟩ := Transfer.exists_receive ht hl htarget hlength
  refine ⟨d', ?_, addsFile_of_gains hfree.1 ⟨l, target, hl, htarget, htouch, hentry⟩⟩
  have hclosed : streamEnd false = .closed := rfl
  rw [receivePut_eq hfree hkept, hclosed, Transfer.receiveUntil_closed, hreceive]
  rfl

/-- A put that is not published leaves no trace. -/
theorem receivePut_of_unpublished {sender : Sender} (ht : d.IsTree) (hkept : name ∉ s.cancelled)
    (hnot : ¬ ∃ body, s.Publishes d name announced sender body) :
    ∃ d' said, s.receivePut d name announced sender = (s, d', said) ∧ d.KeepsFiles d' ∧
      said.countP (·.isOk) ≤ 1 := by
  have hkeeps := KeepsFiles.refl d
  cases sender with
  | gone =>
    refine ⟨d, [], ?_, hkeeps, by decide⟩
    unfold receivePut
    by_cases hfree : s.Free name
    · rw [if_pos hfree]
      exact congrArg (·, d, []) (hfree.endReceiving hkept s.files)
    · rw [if_neg hfree]
  | sends body breaks =>
    by_cases hfree : s.Free name
    · rw [receivePut_eq hfree hkept]
      obtain ⟨d', hreceive, hclosed, hlength, hgains⟩ | ⟨d', fault, hreceive, hmisses⟩ :=
        Transfer.receiveUntil_spec ht (s.path name) announced body (streamEnd breaks)
      · cases breaks with
        | true => cases hclosed
        | false => exact absurd ⟨body, rfl, hfree, hgains.canReceive, hlength⟩ hnot
      · rw [hreceive]
        exact ⟨d', _, rfl, keepsFiles_of_tries hfree.1 hmisses.tries, by decide⟩
    · refine ⟨d, [.fail], ?_, hkeeps, by decide⟩
      have hbegin := s.beginPut_eq d name
      rw [if_neg hfree] at hbegin
      unfold receivePut
      simp only [hbegin]

/-! ### Copies -/

/-- A search for a file of the store brings what a holder in the ring serves, or leaves no trace. -/
theorem search_cases (ht : d.IsTree) (hname : accepts name = true) (h : Holders)
    (arrangement : Arrangement) (holders : List Member) :
    (∃ search before holder body,
        h.search arrangement name holders (s.path name) d = (some holder, search) ∧
        search.asked = before ++ [holder] ∧ holder ∈ holders ∧ h.inRing holder = true ∧
        h.Serves before holder body ∧ d.AddsFile search.disk (s.place name) body) ∨
      ∃ search, h.search arrangement name holders (s.path name) d = (none, search) ∧
        d.KeepsFiles search.disk := by
  obtain ⟨search, heq, hfails⟩ | ⟨search, holder, body, before, after, heq, hfinds⟩ :=
    Holders.seek_cases (s := { disk := d }) ht h (s.path name) (arrangement.order name holders)
  · exact .inr ⟨search, heq, keepsFiles_of_tries hname hfails.tries⟩
  · have hmem : holder ∈ (arrangement.order name holders).filter h.inRing := by
      rw [hfinds.split]
      exact List.mem_append_right _ List.mem_cons_self
    obtain ⟨hmem, hring⟩ := List.mem_filter.mp hmem
    exact .inl ⟨search, before, holder, body, heq, hfinds.asked,
      (arrangement.order_perm name holders).mem_iff.mp hmem, hring, hfinds.serves,
      addsFile_of_gains hname hfinds.gains⟩

/-- A reception that fails leaves no trace, and one that succeeds adds its name with the whole file
and nothing else: what its sender sent, or what a holder in the ring served. -/
theorem no_trace_of_failure (ht : d.IsTree) (hkept : name ∉ s.cancelled) :
    (∀ announced sender,
      (∃ body, s.Publishes d name announced sender body ∧
        ∃ d', s.receivePut d name announced sender =
            ({ s with files := s.files.insert name }, d', [.ok, .ok]) ∧
          d.AddsFile d' (s.place name) body) ∨
      (¬ ∃ body, s.Publishes d name announced sender body) ∧
        ∃ d' said, s.receivePut d name announced sender = (s, d', said) ∧ d.KeepsFiles d' ∧
          said.countP (·.isOk) ≤ 1) ∧
    ∀ (h : Holders) (arrangement : Arrangement) (holders : List Member),
      (∃ search before holder body, h.copy arrangement name holders s d =
            (.answered .ok, { s with files := s.files.insert name }, search) ∧
          search.asked = before ++ [holder] ∧ holder ∈ holders ∧ h.inRing holder = true ∧
          h.Serves before holder body ∧ d.AddsFile search.disk (s.place name) body) ∨
        ∃ kind search, kind ≠ .ok ∧
          h.copy arrangement name holders s d = (.answered kind, s, search) ∧
          d.KeepsFiles search.disk := by
  refine ⟨fun announced sender => ?_, fun h arrangement holders => ?_⟩
  · by_cases hpublishes : ∃ body, s.Publishes d name announced sender body
    · obtain ⟨body, hpublishes⟩ := hpublishes
      exact .inl ⟨body, hpublishes, hpublishes.receivePut ht hkept⟩
    · exact .inr ⟨hpublishes, receivePut_of_unpublished ht hkept hpublishes⟩
  · by_cases hfree : s.Free name
    · have hended (files : NameSet) : { s with files }.endReceiving name = { s with files } :=
        endReceiving_of_not_mem hfree.2.2 hkept
      rw [Holders.copy_of_free hfree]
      obtain ⟨search, before, holder, body, heq, hserved⟩ | ⟨search, heq, hkeeps⟩ :=
        search_cases (s := s) ht hfree.1 h arrangement holders
      · rw [heq]
        exact .inl ⟨search, before, holder, body, congrArg (_, ·, search) (hended _), hserved⟩
      · rw [heq]
        exact .inr ⟨.fail, search, nofun, congrArg (_, ·, search) (hended _), hkeeps⟩
    · obtain ⟨kind, hkind, hcopy⟩ := Holders.copy_of_busy hfree h holders d
      exact .inr ⟨kind, _, hkind, hcopy arrangement, .refl d⟩

/-- A put that is cut short, and a copy from nobody. -/
theorem no_trace_of_short_put :
    ({} : Disk).IsTree ∧ "f_1" ∉ ({ root := [] } : Store).cancelled ∧
      (receivePut { root := [] } {} "f_1" (some 2) (.sends [7] false)).1 = { root := [] } ∧
      ∀ arrangement holders,
        (Holders.copy ⟨fun _ => true, fun _ _ => .error (.io .brokenPipe)⟩ arrangement "f_1" holders
          { root := [] } {}).2.1 = { root := [] } := by
  have hkept : "f_1" ∉ ({ root := [] } : Store).cancelled := Std.ExtTreeSet.not_mem_empty
  have htrace := no_trace_of_failure (s := { root := [] }) isTree_empty hkept
  refine ⟨isTree_empty, hkept, ?_, fun arrangement holders => ?_⟩
  · obtain ⟨body, hpublishes, -⟩ | ⟨-, d', said, heq, -⟩ := htrace.1 (some 2) (.sends [7] false)
    · cases hpublishes.sent
      exact absurd hpublishes.whole (by decide)
    · rw [heq]
  · obtain ⟨_, _, _, _, -, -, -, -, ⟨heard, hheard, -⟩, -⟩ | ⟨kind, search, -, heq, -⟩ :=
      htrace.2 ⟨fun _ => true, fun _ _ => .error (.io .brokenPipe)⟩ arrangement holders
    · cases hheard
    · rw [heq]

end Store

end ReplicaRing
