import Mathlib.Order.Basic
import Mathlib.Order.Std
import ReplicaRing.Directory
import ReplicaRing.Proofs.Sets

/-!
# What each operation does to the records

A directory is looked at record by record, and a record version by version. Every operation touches
the record of one file, but for pruning, which touches them all; the lemmas here say what becomes of
`record?`, and later proofs do not open an operation again. A run is a list of operations.
-/
namespace ReplicaRing

instance lawfulMinUInt64 : Std.LawfulOrderLeftLeaningMin UInt64 where
  min_eq_left _ _ h := if_pos h
  min_eq_right _ _ h := if_neg h

instance lawfulMaxUInt64 : Std.LawfulOrderLeftLeaningMax UInt64 where
  max_eq_left a b h := by
    change (if a ≤ b then b else a) = a
    split
    · exact UInt64.le_antisymm h ‹_›
    · rfl
  max_eq_right a b h := if_pos ((UInt64.le_total a b).resolve_right h)

/-- Versions are linearly ordered. -/
instance linearOrderUInt64 : LinearOrder UInt64 := .ofStd UInt64

namespace FileRecord

variable {r : FileRecord} {v w : UInt64} {m : Member} {holders : MemberSet}

/-- A version that has a holder gets one more. -/
def join (r : FileRecord) (version : UInt64) (m : Member) : FileRecord :=
  match r.versions[version]? with
  | none => r
  | some holders =>
    if holders.isEmpty then r
    else { r with versions := r.versions.insert version (holders.insert m) }

/-- Only some holders are kept. -/
def retain (r : FileRecord) (keep : Member → Bool) : FileRecord :=
  { r with versions := r.versions.map fun _ holders => holders.filter keep }

def drop (r : FileRecord) (version : UInt64) : FileRecord :=
  { r with versions := r.versions.erase version }

@[simp] theorem put_highestAssigned (r : FileRecord) (v : UInt64) (holders : MemberSet) :
    (r.put v holders).highestAssigned = max r.highestAssigned v := rfl

@[simp] theorem drop_highestAssigned (r : FileRecord) (v : UInt64) :
    (r.drop v).highestAssigned = r.highestAssigned := rfl

@[simp] theorem retain_highestAssigned (r : FileRecord) (keep : Member → Bool) :
    (r.retain keep).highestAssigned = r.highestAssigned := rfl

@[simp] theorem join_highestAssigned (r : FileRecord) (v : UInt64) (m : Member) :
    (r.join v m).highestAssigned = r.highestAssigned := by
  unfold join
  split
  · rfl
  · split <;> rfl

theorem put_versions_getElem? :
    (r.put v holders).versions[w]? = if v = w then some holders else r.versions[w]? := by
  simp only [put, Std.ExtTreeMap.getElem?_insert, Std.LawfulEqCmp.compare_eq_iff_eq]

theorem drop_versions_getElem? :
    (r.drop v).versions[w]? = if v = w then none else r.versions[w]? := by
  simp only [drop, Std.ExtTreeMap.getElem?_erase, Std.LawfulEqCmp.compare_eq_iff_eq]

theorem retain_versions_getElem? {keep : Member → Bool} :
    (r.retain keep).versions[w]? = r.versions[w]?.map (·.filter keep) := by
  simp only [retain, Std.ExtTreeMap.getElem?_map]

theorem join_versions_getElem? :
    (r.join v m).versions[w]? =
      if v = w then r.versions[w]?.map fun holders =>
        if holders.isEmpty then holders else holders.insert m
      else r.versions[w]? := by
  cases hv : r.versions[v]? with
  | none =>
    simp only [join, hv]
    split <;> simp_all
  | some holders =>
    cases he : holders.isEmpty with
    | true =>
      simp only [join, hv, he, ↓reduceIte]
      split <;> simp_all
    | false =>
      simp only [join, hv, he, Bool.false_eq_true, ↓reduceIte, Std.ExtTreeMap.getElem?_insert,
        Std.LawfulEqCmp.compare_eq_iff_eq]
      split <;> simp_all

theorem mem_versions_iff : v ∈ r.versions ↔ ∃ holders, r.versions[v]? = some holders := by
  rw [Std.ExtTreeMap.mem_iff_isSome_getElem?, Option.isSome_iff_exists]

end FileRecord

namespace Directory

variable {d : Directory} {file g : String} {v : UInt64} {m : Member} {holders : MemberSet}
  {keep : Member → Bool}

/-- A member is recorded as holder of a version. -/
def Holds (d : Directory) (file : String) (version : UInt64) (m : Member) : Prop :=
  ∃ r holders, d.record? file = some r ∧ r.versions[version]? = some holders ∧ m ∈ holders

theorem recordOf_eq (d : Directory) (file : String) :
    d.recordOf file = (d.record? file).getD {} :=
  Std.ExtTreeMap.getD_eq_getD_getElem?

theorem record?_insert {r : FileRecord} :
    record? ⟨d.records.insert file r⟩ g = if file = g then some r else d.record? g := by
  simp only [record?, Std.ExtTreeMap.getElem?_insert, Std.LawfulEqCmp.compare_eq_iff_eq]

@[simp] theorem record?_empty : ({} : Directory).record? file = none := rfl

@[simp] theorem reserve_version (d : Directory) (file : String) :
    (d.reserve file).2 = d.nextVersion file := rfl

theorem record?_reserve :
    (d.reserve file).1.record? g =
      if file = g then some ((d.recordOf file).put (d.nextVersion file) ∅) else d.record? g :=
  record?_insert

theorem record?_abandon :
    (d.abandon file v).1.record? g =
      if file = g then (d.record? g).map (·.drop v) else d.record? g := by
  cases hr : d.record? file with
  | none =>
    simp only [abandon, hr]
    split <;> simp_all
  | some r =>
    simp only [abandon, hr, record?_insert]
    split <;> simp_all [FileRecord.drop]

theorem record?_confirm (hne : holders.isEmpty = false) :
    (d.confirm file v holders).record? g =
      if file = g then some ((d.recordOf file).put v holders) else d.record? g := by
  rw [confirm, hne, if_neg Bool.false_ne_true, record?_insert]

theorem confirm_of_isEmpty (he : holders.isEmpty = true) :
    d.confirm file v holders = (d.abandon file v).1 :=
  if_pos he

theorem record?_remove :
    (d.remove file).1.record? g = if file = g then none else d.record? g := by
  simp only [remove, record?, Std.ExtTreeMap.getElem?_erase, Std.LawfulEqCmp.compare_eq_iff_eq]

theorem record?_addHolder :
    (d.addHolder file v m).1.record? g =
      if file = g then (d.record? g).map (·.join v m) else d.record? g := by
  cases hr : d.record? file with
  | none =>
    simp only [addHolder, hr]
    split <;> simp_all
  | some r =>
    cases hv : r.versions[v]? with
    | none =>
      simp only [addHolder, hr, hv]
      split <;> simp_all [FileRecord.join]
    | some holders =>
      cases he : holders.isEmpty with
      | true =>
        simp only [addHolder, hr, hv, he, ↓reduceIte]
        split <;> simp_all [FileRecord.join]
      | false =>
        simp only [addHolder, hr, hv, he, Bool.false_eq_true, ↓reduceIte, record?_insert]
        split <;> simp_all [FileRecord.join]

theorem record?_prune : (d.prune keep).1.record? g = (d.record? g).map (·.retain keep) :=
  Std.ExtTreeMap.getElem?_map

theorem recover_of_unversioned {name : String} (h : StoredName.parse? name = none) :
    d.recover m name = d := by
  rw [recover, h]

theorem record?_recover {name : String} (h : StoredName.parse? name = some (file, v)) :
    (d.recover m name).record? g =
      if file = g then some ((d.recordOf file).put v
        (((d.recordOf file).versions.getD v ∅).insert m))
      else d.record? g := by
  rw [recover, h]
  exact record?_insert

/-! ### Runs -/

/-- One call on a directory. -/
inductive Operation
  | reserve (file : String)
  | confirm (file : String) (version : UInt64) (holders : MemberSet)
  | abandon (file : String) (version : UInt64)
  | addHolder (file : String) (version : UInt64) (m : Member)
  | prune (keep : Member → Bool)
  | remove (file : String)

/-- Whether it forgets the file. -/
def Operation.removes (file : String) : Operation → Bool
  | remove f => f == file
  | _ => false

def apply (d : Directory) : Operation → Directory
  | .reserve file => (d.reserve file).1
  | .confirm file version holders => d.confirm file version holders
  | .abandon file version => (d.abandon file version).1
  | .addHolder file version m => (d.addHolder file version m).1
  | .prune keep => (d.prune keep).1
  | .remove file => (d.remove file).1

def run (d : Directory) (ops : List Operation) : Directory := ops.foldl apply d

@[simp] theorem run_nil (d : Directory) : d.run [] = d := rfl

@[simp] theorem run_cons (d : Directory) (op : Operation) (ops : List Operation) :
    d.run (op :: ops) = (d.apply op).run ops := rfl

theorem run_append (d : Directory) (ops ops' : List Operation) :
    d.run (ops ++ ops') = (d.run ops).run ops' :=
  List.foldl_append

end Directory

end ReplicaRing
