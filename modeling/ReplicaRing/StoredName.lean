import ReplicaRing.Path
import ReplicaRing.Text.Numeral
import ReplicaRing.Text.Split

/-!
Names of stored versions. Version `v` of the file `name.ext` is stored as `name_v.ext`, and of a
file without extension as `name_v`. A dot that starts a name marks a hidden file and begins no
extension. Every stored file is a plain entry of one folder, so slashes of remote names are
flattened before they are stored.
-/
namespace ReplicaRing

open Text

/-- A name that carries no version. -/
structure UnversionedName where
  name : String
deriving DecidableEq, Repr

def UnversionedName.message (e : UnversionedName) : String :=
  "invalid versioned file name: " ++ e.name

namespace StoredName

/-- What stands between the base name and the version. -/
def delimiter : Char := '_'

/-- A name cut at its last dot, unless that dot starts the name. -/
def splitExtension (name : List Char) : List Char × Option (List Char) :=
  match splitLast? '.' name with
  | some (stem, extension) =>
    if stem = [] then (name, none) else (stem, some extension)
  | none => (name, none)

def joinExtension (stem : List Char) : Option (List Char) → List Char
  | some extension => stem ++ '.' :: extension
  | none => stem

/-- The name under which `version` of `file` is stored. -/
def ofVersion (file : String) (version : UInt64) : String :=
  let (stem, extension) := splitExtension file.toList
  String.ofList (joinExtension (stem ++ delimiter :: version.toNat.repr.toList) extension)

/-- The file and the version that a stored name stands for. -/
def parse? (stored : String) : Option (String × UInt64) :=
  let (stem, extension) := splitExtension stored.toList
  match splitLast? delimiter stem with
  | none => none
  | some (base, number) =>
    (word64? number).map fun version => (String.ofList (joinExtension base extension), version)

def parse (stored : String) : Except UnversionedName (String × UInt64) :=
  match parse? stored with
  | some found => .ok found
  | none => .error ⟨stored⟩

/-- Whether a stored name is `target` itself or a version of the file `target`. -/
def belongsTo (stored target : String) : Bool :=
  stored == target || (parse? stored).any (·.1 == target)

/-- The path with `version` spliced into its file name. -/
def versionedPath (path : String) (version : UInt64) : String :=
  let name := String.ofList ((Path.fileName? path.toList).getD [])
  String.ofList (Path.withFileName path.toList (ofVersion name version).toList)

end StoredName

namespace RemoteName

/-- The stand-in for a slash in a stored name. -/
def standIn : Char := '#'

/-- A remote name as it is stored: every slash becomes the stand-in. -/
def flatten (name : String) : String :=
  String.ofList (name.toList.map fun c => if c = '/' then standIn else c)

/-- A stored name as it is shown: every stand-in becomes a slash. -/
def restore (name : String) : String :=
  String.ofList (name.toList.map fun c => if c = standIn then '/' else c)

end RemoteName

namespace PartialName

/-- The hidden name under which the bytes of `name` are collected. -/
def ofName (name : String) : String :=
  "." ++ name ++ ".partial"

/-- The path at which the bytes for `path` are collected: a hidden sibling. -/
def ofPath (path : String) : String :=
  let name := String.ofList ((Path.fileName? path.toList).getD [])
  String.ofList (Path.withFileName path.toList (ofName name).toList)

/-- Whether a name is reserved for files in transit. -/
def isPartial (name : String) : Bool :=
  ['.'].isPrefixOf name.toList && ".partial".toList.isSuffixOf name.toList

end PartialName

end ReplicaRing
