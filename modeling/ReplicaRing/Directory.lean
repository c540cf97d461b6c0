import ReplicaRing.Message
import ReplicaRing.StoredName

/-!
Which member holds which version of which file. A version without holders is pending: it is
reserved for a put that has not reported yet, or it has lost its last holder. Each record remembers
the highest version that it ever had, so that no number is given out twice.
-/
namespace ReplicaRing

structure FileRecord where
  versions : VersionMap := ∅
  highestAssigned : UInt64 := 0
deriving DecidableEq, Repr

namespace FileRecord

/-- The newest version that has a holder. -/
def latest? (r : FileRecord) : Option (UInt64 × MemberSet) :=
  r.versions.toList.reverse.find? fun entry => !entry.2.isEmpty

/-- The holders of `version` become `holders`. -/
def put (r : FileRecord) (version : UInt64) (holders : MemberSet) : FileRecord :=
  ⟨r.versions.insert version holders, max r.highestAssigned version⟩

end FileRecord

structure Directory where
  records : Std.ExtTreeMap String FileRecord compare := ∅
deriving DecidableEq, Repr

/-- A version that has fewer holders than it should have. -/
structure Shortage where
  file : String
  version : UInt64
  holders : MemberSet
deriving DecidableEq, Repr

namespace Directory

def size (d : Directory) : Nat := d.records.size

def record? (d : Directory) (file : String) : Option FileRecord := d.records[file]?

/-- The record of a file, which is empty at first. -/
def recordOf (d : Directory) (file : String) : FileRecord := d.records.getD file {}

/-- The version that the next put of a file gets. -/
def nextVersion (d : Directory) (file : String) : UInt64 :=
  (d.recordOf file).highestAssigned + 1

/-- Makes the next version of a file pending. -/
def reserve (d : Directory) (file : String) : Directory × UInt64 :=
  let version := d.nextVersion file
  (⟨d.records.insert file ((d.recordOf file).put version ∅)⟩, version)

/-- Drops a version and says whether it was there. -/
def abandon (d : Directory) (file : String) (version : UInt64) : Directory × Bool :=
  match d.record? file with
  | none => (d, false)
  | some r =>
    (⟨d.records.insert file { r with versions := r.versions.erase version }⟩,
      r.versions.contains version)

/-- The holders of a version become `holders`; without holders the version is dropped. -/
def confirm (d : Directory) (file : String) (version : UInt64) (holders : MemberSet) : Directory :=
  if holders.isEmpty then (d.abandon file version).1
  else ⟨d.records.insert file ((d.recordOf file).put version holders)⟩

/-- Forgets a file and returns its record. -/
def remove (d : Directory) (file : String) : Directory × Option FileRecord :=
  (⟨d.records.erase file⟩, d.record? file)

/-- The newest version of a file that has a holder. -/
def latest? (d : Directory) (file : String) : Option (UInt64 × MemberSet) :=
  (d.record? file).bind FileRecord.latest?

def versions? (d : Directory) (file : String) : Option VersionMap :=
  (d.record? file).map FileRecord.versions

/-- Adds a holder to a version that has one, and says whether the holder is new. -/
def addHolder (d : Directory) (file : String) (version : UInt64) (m : Member) : Directory × Bool :=
  match d.record? file with
  | none => (d, false)
  | some r =>
    match r.versions[version]? with
    | none => (d, false)
    | some holders =>
      if holders.isEmpty then (d, false)
      else
        let r := { r with versions := r.versions.insert version (holders.insert m) }
        (⟨d.records.insert file r⟩, !holders.contains m)

/-- Every version of every file. -/
def entries (d : Directory) : List (String × UInt64 × MemberSet) :=
  d.records.toList.flatMap fun (file, r) =>
    r.versions.toList.map fun (version, holders) => (file, version, holders)

/-- Drops the holders that are not to be kept, and counts them. -/
def prune (d : Directory) (keep : Member → Bool) : Directory × Nat :=
  (⟨d.records.map fun _ r =>
      { r with versions := r.versions.map fun _ holders => holders.filter keep }⟩,
    (d.entries.flatMap fun (_, _, holders) => holders.toList.filter (!keep ·)).length)

/-- The versions that have holders, but fewer than `factor`. -/
def shortages (d : Directory) (factor : Nat) : List Shortage :=
  (d.entries.filter fun (_, _, holders) => !holders.isEmpty && holders.size < factor).map
    fun (file, version, holders) => ⟨file, version, holders⟩

/-- Records that a member stores `name`, if the name carries a version. -/
def recover (d : Directory) (m : Member) (name : String) : Directory :=
  match StoredName.parse? name with
  | none => d
  | some (file, version) =>
    let r := d.recordOf file
    ⟨d.records.insert file (r.put version ((r.versions.getD version ∅).insert m))⟩

/-- The directory that follows from what each member stores. -/
def rebuild (catalogs : List (Member × NameSet)) : Directory :=
  catalogs.foldl (fun d (m, names) => names.toList.foldl (·.recover m ·) d) {}

end Directory

end ReplicaRing
