import ReplicaRing.Disk.Basic

/-!
What happened between two states of a disk.
-/
namespace ReplicaRing.Disk

/-- What happened to an entry. -/
inductive Change
  | removed (l : Location)
  | made (l : Location) (e : Entry)
deriving DecidableEq, Repr

/-- What happened between two states of a disk. Whatever was removed comes first, and what was in a
folder before the folder. -/
def changes (old new : Disk) : List Change :=
  (old.entries.keys.filter (!new.entries.contains ·)).reverse.map .removed ++
    (new.entries.toList.filter fun (l, e) => old.entries[l]? ≠ some e).map fun (l, e) => .made l e

end ReplicaRing.Disk
