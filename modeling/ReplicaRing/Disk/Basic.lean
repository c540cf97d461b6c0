import ReplicaRing.Bytes
import ReplicaRing.Fault
import ReplicaRing.StoredName
import Std.Data.ExtTreeMap

/-!
Files and folders. Every entry has a location, the names on the way from the root to it. A path is
a text that is read from some folder; what it means depends on the entries, because `..` and a
slash at the end ask for folders. A file that is open for writing is known by its handle, wherever
it is moved.
-/
namespace ReplicaRing

/-- The names on the way from the root. -/
abbrev Location := List String

inductive Entry
  | file (content : Bytes)
  | folder
deriving DecidableEq, Repr

/-- A number that stands for a file that is open for writing. -/
abbrev Handle := Nat

/-- The root is a folder whether it is listed or not. -/
structure Disk where
  entries : Std.ExtTreeMap Location Entry compare := ∅
  /-- Where the files are that are open for writing. A file that was removed is nowhere. -/
  openFiles : Std.ExtTreeMap Handle Location compare := ∅
  nextHandle : Handle := 0
deriving DecidableEq, Repr

/-- A path text and the folder that it starts from, unless it starts with a slash. -/
structure FilePath where
  folder : Location
  text : String
deriving DecidableEq, Repr

/-- The path at which bytes for this path are collected. -/
def FilePath.inTransit (p : FilePath) : FilePath := { p with text := PartialName.ofPath p.text }

namespace Disk

/-- The longest name of an entry, in bytes. -/
def maxName : Nat := 255

/-- The length in bytes from which on a path is refused. -/
def maxPath : Nat := 4096

/-- What a folder reports as its size. -/
def folderSize : Nat := 4096

def entry? (d : Disk) (l : Location) : Option Entry :=
  if l = [] then some .folder else d.entries[l]?

def set (d : Disk) (l : Location) (e : Entry) : Disk := { d with entries := d.entries.insert l e }

/-- The entries directly inside a folder, by name. -/
def children (d : Disk) (l : Location) : List (String × Entry) :=
  d.entries.toList.filterMap fun (place, e) =>
    match place.getLast? with
    | some name => if place.dropLast = l then some (name, e) else none
    | none => none

/-! ### Paths -/

/-- The names between the slashes of a path. -/
def pieces (text : List Char) : List String :=
  (split text).filter (· ≠ "")
where
  split (text : List Char) : List String :=
    (text.foldr
      (fun c (head, tail) =>
        if c = '/' then ([], String.ofList head :: tail) else (c :: head, tail))
      ([], [])) |> fun (head, tail) => String.ofList head :: tail

/-- Follows names from a folder. All but the last must lead to folders. -/
def walk (d : Disk) : Location → List String → Except IoFault Location
  | here, [] => .ok here
  | here, name :: rest =>
    match d.entry? here with
    | none => .error (.os .noEntry)
    | some (.file _) => .error (.os .notDirectory)
    | some .folder =>
      if name.utf8ByteSize > maxName then .error (.os .nameTooLong)
      else if name = "." then d.walk here rest
      else if name = ".." then d.walk here.dropLast rest
      else d.walk (here ++ [name]) rest

/-- What a path stands for. The folder that it is in is there. -/
structure Target where
  location : Location
  /-- The path ends in a slash. -/
  slash : Bool
  /-- The path ends in `.` or `..`, or is the root. -/
  dots : Bool
deriving DecidableEq, Repr

def resolve (d : Disk) (p : FilePath) : Except IoFault Target :=
  let text := p.text.toList
  if text.contains '\x00' then .error .nulInName
  else if text = [] then .error (.os .noEntry)
  else if maxPath ≤ p.text.utf8ByteSize then .error (.os .nameTooLong)
  else do
    let names := pieces text
    let location ← d.walk (if text.head? = some '/' then [] else p.folder) names
    let last := names.getLast?
    return ⟨location, text.getLast? = some '/', last = none ∨ last = some "." ∨ last = some ".."⟩

/-! ### Looking -/

/-- The entry that a path stands for. -/
def lookup (d : Disk) (p : FilePath) : Except IoFault Entry := do
  let t ← d.resolve p
  match d.entry? t.location with
  | none => .error (.os .noEntry)
  | some (.file content) => if t.slash then .error (.os .notDirectory) else .ok (.file content)
  | some .folder => .ok .folder

def size (d : Disk) (p : FilePath) : Except IoFault Nat := do
  match ← d.lookup p with
  | .file content => .ok content.length
  | .folder => .ok folderSize

def read (d : Disk) (p : FilePath) : Except IoFault Bytes := do
  match ← d.lookup p with
  | .file content => .ok content
  | .folder => .error (.os .isDirectory)

/-- Whether there is an entry at a path. -/
def has (d : Disk) (p : FilePath) : Except IoFault Bool :=
  match d.lookup p with
  | .ok _ => .ok true
  | .error (.os .noEntry) => .ok false
  | .error fault => .error fault

/-- Whether there is a folder at a path. -/
def hasFolder (d : Disk) (p : FilePath) : Bool := (d.lookup p).toOption == some .folder

end Disk

end ReplicaRing
