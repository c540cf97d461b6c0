import ReplicaRing.Proofs.Disk.Files
import ReplicaRing.Proofs.Disk.Siblings
import ReplicaRing.Transfer

/-!
# Receiving a file

A file on its way in is collected in its sibling, byte by byte, and nothing else changes. When the
stream ends with the announced length, the sibling takes the place of the destination; else it goes,
and the destination is as it was.
-/
namespace ReplicaRing

open Disk

variable {d d' : Disk} {l target k : Location} {content bytes : Bytes} {p : FilePath}
  {inflow : Inflow} {h : Handle} {announced : Option UInt64} {fault : IoFault}

/-- The bytes that have come are in the file at a location, which is open. -/
structure Inflow.Collects (inflow : Inflow) (d : Disk) (l : Location) (content : Bytes) : Prop where
  opened : d.openFiles[inflow.handle]? = some l
  entry : d.entry? l = some (.file content)
  received : inflow.received = content.length

/-- Whether a stream of this length is what was announced. -/
def Announces (announced : Option UInt64) (length : Nat) : Prop :=
  ∀ n, announced = some n → n.toNat = length

instance (announced : Option UInt64) (length : Nat) : Decidable (Announces announced length) :=
  match announced with
  | none => isTrue nofun
  | some n => decidable_of_iff (n.toNat = length) (by simp [Announces])

/-- The sibling that collects the bytes for a path can be made. -/
def Disk.Collects (d : Disk) (p : FilePath) : Prop := ∃ l, d.fileTarget p.inTransit = .ok l

instance (d : Disk) (p : FilePath) : Decidable (d.Collects p) :=
  match h : d.fileTarget p.inTransit with
  | .ok l => isTrue ⟨l, h⟩
  | .error _ => isFalse (by simp [Disk.Collects, h])

theorem Disk.SameFolders.collects (h : d.SameFolders d') : d.Collects p ↔ d'.Collects p :=
  exists_congr fun _ => h.fileTarget_eq_ok

/-- A sibling that can be removed can be made. -/
theorem Disk.collects_of_remove (h : d.remove p.inTransit = .ok d') : d.Collects p := by
  obtain ⟨⟨l, slash, dots⟩, content, ht, he, rfl, -⟩ := remove_eq_ok h
  obtain rfl : dots = false := dots_inTransit ht
  exact ⟨l, fileTarget_eq_ok.mpr ⟨ht, by rw [he]; nofun⟩⟩

namespace Transfer

theorem start_eq_ok :
    start d p = (d', .ok inflow) ↔
      ∃ l, d.fileTarget p.inTransit = .ok l ∧ d' = ((d.set l (.file [])).openAt l).1 ∧
        inflow = ⟨d.nextHandle, 0⟩ := by
  unfold start
  cases hc : d.create p.inTransit with
  | error fault =>
    refine iff_of_false (fun h => nomatch (Prod.mk.inj h).2) ?_
    rintro ⟨l, hl, -, -⟩
    have hmade := create_eq_ok.mpr ⟨l, hl, rfl, rfl⟩
    rw [hc] at hmade
    cases hmade
  | ok made =>
    obtain ⟨made, handle⟩ := made
    obtain ⟨l, hl, rfl, rfl⟩ := create_eq_ok.mp hc
    simp only [Prod.mk.injEq, Except.ok.injEq, hl, exists_eq_left']
    exact and_congr eq_comm eq_comm

/-- A transfer that cannot begin leaves the disk as it was. -/
theorem start_refused (h : ¬ d.Collects p) : ∃ fault, start d p = (d, .error fault) := by
  have hkept : abandon d p = d := by
    cases hr : d.remove p.inTransit with
    | error fault =>
      unfold abandon
      rw [hr, Except.toOption, Option.getD_none]
    | ok d' => exact absurd (collects_of_remove hr) h
  cases ht : d.fileTarget p.inTransit with
  | ok l => exact absurd ⟨l, ht⟩ h
  | error fault =>
    have hcreate : d.create p.inTransit = .error fault := by
      unfold create
      rw [ht]
      rfl
    refine ⟨fault, ?_⟩
    unfold start
    simp only [hcreate, hkept]

/-- No other transfer fails to begin. -/
theorem start_error (hs : start d p = (d', .error fault)) : d' = d := by
  by_cases hc : d.Collects p
  · obtain ⟨l, hl⟩ := hc
    rw [start_eq_ok.mpr ⟨l, hl, rfl, rfl⟩] at hs
    cases hs
  · obtain ⟨fault', hrefused⟩ := start_refused hc
    rw [hrefused] at hs
    exact (Prod.mk.inj hs).1.symm

/-- A transfer begins with an empty sibling. -/
theorem collects_start (hs : start d p = (d', .ok inflow)) (hl : d.fileTarget p.inTransit = .ok l) :
    inflow.Collects d' l [] := by
  obtain ⟨l', hl', rfl, rfl⟩ := start_eq_ok.mp hs
  cases hl.symm.trans hl'
  refine ⟨Std.ExtTreeMap.getElem?_insert_self, ?_, rfl⟩
  rw [entry?_openAt, entry?_set (ne_nil_of_fileTarget hl), if_pos rfl]

theorem touches_start (hs : start d p = (d', .ok inflow)) (hl : d.fileTarget p.inTransit = .ok l) :
    d.Touches d' [l] := by
  obtain ⟨l', hl', rfl, rfl⟩ := start_eq_ok.mp hs
  cases hl.symm.trans hl'
  exact touches_make hl

theorem collects_collect (bytes : Bytes) (hc : inflow.Collects d l content) :
    (collect d inflow bytes).2.Collects (collect d inflow bytes).1 l (content ++ bytes) where
  opened := by
    rw [collect, writeAt, openFiles_update]
    exact hc.opened
  entry := by
    rw [collect, entry?_writeAt hc.opened hc.entry, if_pos rfl, hc.received, Bytes.splice_length]
  received := by
    rw [collect, List.length_append, hc.received]

theorem touches_collect (bytes : Bytes) (hc : inflow.Collects d l content) :
    d.Touches (collect d inflow bytes).1 [l] :=
  touches_writeAt hc.opened

/-- The bytes of a stream are collected in the sibling. -/
theorem exists_collected (hl : d.fileTarget p.inTransit = .ok l) (bytes : Bytes) :
    ∃ begun inflow, start d p = (begun, .ok inflow) ∧
      (collect begun inflow bytes).2.Collects (collect begun inflow bytes).1 l bytes ∧
      d.Touches (collect begun inflow bytes).1 [l] := by
  have hs : start d p = (((d.set l (.file [])).openAt l).1, .ok ⟨d.nextHandle, 0⟩) :=
    start_eq_ok.mpr ⟨l, hl, rfl, rfl⟩
  have hc := collects_start hs hl
  exact ⟨_, _, hs, collects_collect bytes hc,
    (touches_start hs hl).trans (touches_collect bytes hc)⟩

/-- Giving up takes the sibling away, if it is there. -/
theorem touches_abandon (hp : d.resolve p.inTransit = .ok ⟨l, false, false⟩) :
    d.Touches (abandon d p) [l] := by
  unfold abandon
  cases hr : d.remove p.inTransit with
  | error fault => exact .refl d _
  | ok d' => exact touches_remove hp hr

/-- How a transfer ends. -/
theorem finish_eq (hreceived : inflow.received = content.length) :
    finish d p announced inflow =
      if Announces announced content.length then
        finish.settle p (d.close inflow.handle) content.length
      else
        (abandon (d.close inflow.handle) p,
          .error (.wrongLength content.length ((announced.map UInt64.toNat).getD 0))) := by
  unfold finish
  cases announced with
  | none =>
    have hany : Announces none content.length := nofun
    simp only [hany, hreceived, ↓reduceIte]
  | some n =>
    have hiff : Announces (some n) content.length ↔ n.toNat = content.length := by simp [Announces]
    simp only [hiff, hreceived, Option.map_some, Option.getD_some]

theorem settle_eq_ok {length n : Nat} :
    finish.settle p d length = (d', .ok n) ↔
      d.rename p.inTransit p = .ok d' ∧ length = n := by
  unfold finish.settle
  cases d.rename p.inTransit p with
  | ok moved => simp
  | error fault => simp

theorem settle_eq_error {length : Nat} :
    finish.settle p d length = (d', .error fault) ↔
      d.rename p.inTransit p = .error fault ∧ d = d' := by
  unfold finish.settle
  cases d.rename p.inTransit p with
  | ok moved => simp
  | error fault => simp [and_comm]

theorem sameFolders_close : d.SameFolders (d.close h) := fun _ => Iff.rfl

/-- A transfer that succeeds puts the whole stream at the destination. -/
theorem finish_ok {n : Nat} (ht : d.IsTree) (hc : inflow.Collects d l content)
    (hp : d.resolve p.inTransit = .ok ⟨l, false, false⟩)
    (hf : finish d p announced inflow = (d', .ok n)) :
    n = content.length ∧ Announces announced content.length ∧ ∃ target,
      d.fileTarget p = .ok target ∧ d.Touches d' [l, target] ∧
        ∀ k, d'.entry? k =
          if k = target then some (.file content) else if k = l then none else d.entry? k := by
  rw [finish_eq hc.received] at hf
  split at hf
  · obtain ⟨hr, rfl⟩ := settle_eq_ok.mp hf
    have hp' := (sameFolders_close (h := inflow.handle).resolve_eq_ok).mp hp
    obtain ⟨target, htarget, -⟩ := (rename_eq_ok (d := d.close _) ht hp' hc.entry).mp hr
    exact ⟨rfl, ‹_›, target, (sameFolders_close.fileTarget_eq_ok).mpr htarget,
      ((touches_close hc.opened).mono (by simp)).trans
        (touches_of_rename (d := d.close _) ht hp' hc.entry htarget hr),
      fun k => entry?_of_rename (d := d.close _) ht hp' hc.entry htarget hr⟩
  · cases (Prod.mk.inj hf).2

/-- A transfer that fails leaves all as it was but for the sibling. -/
theorem finish_error (hc : inflow.Collects d l content)
    (hp : d.resolve p.inTransit = .ok ⟨l, false, false⟩)
    (hf : finish d p announced inflow = (d', .error fault)) : d.Touches d' [l] := by
  rw [finish_eq hc.received] at hf
  split at hf
  · obtain ⟨-, rfl⟩ := settle_eq_error.mp hf
    exact touches_close hc.opened
  · obtain ⟨rfl, -⟩ := Prod.mk.inj hf
    exact (touches_close hc.opened).trans
      (touches_abandon ((sameFolders_close (h := inflow.handle).resolve_eq_ok).mp hp))

/-- What it takes for a transfer to succeed. -/
theorem exists_finish (ht : d.IsTree) (hc : inflow.Collects d l content)
    (hp : d.resolve p.inTransit = .ok ⟨l, false, false⟩)
    (hlength : Announces announced content.length) (htarget : d.fileTarget p = .ok target) :
    ∃ d', finish d p announced inflow = (d', .ok content.length) := by
  have hp' := (sameFolders_close (h := inflow.handle).resolve_eq_ok).mp hp
  have hr := (rename_eq_ok (d := d.close inflow.handle) ht hp' hc.entry).mpr
    ⟨target, sameFolders_close.fileTarget_eq_ok.mp htarget, rfl⟩
  exact ⟨_, by rw [finish_eq hc.received, if_pos hlength]; exact settle_eq_ok.mpr ⟨hr, rfl⟩⟩

/-- A stream of the announced length is received whole, if a file may be at the destination and at
its sibling. -/
theorem exists_receive (ht : d.IsTree) (hl : d.fileTarget p.inTransit = .ok l)
    (htarget : d.fileTarget p = .ok target) (hlength : Announces announced bytes.length) :
    ∃ d', receive d p announced bytes = (d', .ok bytes.length) ∧ d.Touches d' [l, target] ∧
      ∀ k, d'.entry? k =
        if k = target then some (.file bytes) else if k = l then none else d.entry? k := by
  obtain ⟨begun, inflow, hs, hc, htouch⟩ := exists_collected hl bytes
  have hp := htouch.folders.resolve_eq_ok.mp (fileTarget_eq_ok.mp hl).1
  obtain ⟨d', hd'⟩ := exists_finish (htouch.tree ht) hc hp hlength
    (htouch.folders.fileTarget_eq_ok.mp htarget)
  obtain ⟨-, -, target', htarget', htouch', hentry⟩ := finish_ok (htouch.tree ht) hc hp hd'
  cases htarget.symm.trans ((htouch.folders.fileTarget_eq_ok).mpr htarget')
  refine ⟨d', ?_, (htouch.mono (by simp)).trans htouch', fun k => ?_⟩
  · unfold receive
    rw [hs]
    exact hd'
  · rw [hentry]
    split
    · rfl
    · split
      · rfl
      · exact htouch.elsewhere k (by simp_all)

theorem receive_refused (h : ¬ d.Collects p) (announced : Option UInt64) (bytes : Bytes) :
    ∃ fault, receive d p announced bytes = (d, .error fault) := by
  obtain ⟨fault, hstart⟩ := start_refused h
  refine ⟨fault, ?_⟩
  unfold receive
  simp only [hstart]

end Transfer

end ReplicaRing
