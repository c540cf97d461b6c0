import ReplicaRing.Disk.Basic

/-!
Making, writing, moving and removing files. An operation that is refused changes nothing. Bytes are
written through a handle: they reach the file also where it has been moved to meanwhile, and they
are lost if it has been removed.
-/
namespace ReplicaRing.Disk

/-- Opens the file at a location. -/
def openAt (d : Disk) (l : Location) : Disk × Handle :=
  ({ d with openFiles := d.openFiles.insert d.nextHandle l, nextHandle := d.nextHandle + 1 },
    d.nextHandle)

def close (d : Disk) (h : Handle) : Disk := { d with openFiles := d.openFiles.erase h }

/-- The files at the given locations are gone, for those that have them open too. -/
def lose (d : Disk) (gone : Location → Bool) : Disk :=
  { d with openFiles := d.openFiles.filter fun _ l => !gone l }

/-- Where a file may be written. There is no folder. -/
def fileTarget (d : Disk) (p : FilePath) : Except IoFault Location := do
  let t ← d.resolve p
  if t.slash ∨ t.dots ∨ d.entry? t.location = some .folder then .error (.os .isDirectory)
  else .ok t.location

/-- Makes an empty file, or empties the file that is there, and opens it. -/
def create (d : Disk) (p : FilePath) : Except IoFault (Disk × Handle) := do
  let l ← d.fileTarget p
  return (d.set l (.file [])).openAt l

/-- Opens the file that is there, or makes an empty one. -/
def openOrCreate (d : Disk) (p : FilePath) : Except IoFault (Disk × Handle) := do
  let l ← d.fileTarget p
  return (if (d.entry? l).isSome then d else d.set l (.file [])).openAt l

/-- Changes the content of an open file, if it is still somewhere. -/
def update (d : Disk) (h : Handle) (change : Bytes → Bytes) : Disk :=
  match d.openFiles[h]? with
  | none => d
  | some l =>
    match d.entry? l with
    | some (.file content) => d.set l (.file (change content))
    | _ => d

/-- Writes to an open file from an offset on. -/
def writeAt (d : Disk) (h : Handle) (offset : Nat) (bytes : Bytes) : Disk :=
  d.update h (·.splice offset bytes)

/-- Writes behind the end of an open file. -/
def append (d : Disk) (h : Handle) (bytes : Bytes) : Disk := d.update h (· ++ bytes)

/-- Makes a file with the given content, or gives it to the file that is there. -/
def write (d : Disk) (p : FilePath) (content : Bytes) : Except IoFault Disk := do
  let (d, h) ← d.create p
  return (d.writeAt h 0 content).close h

/-- Removes a file. -/
def remove (d : Disk) (p : FilePath) : Except IoFault Disk := do
  let t ← d.resolve p
  match d.entry? t.location with
  | none => .error (.os .noEntry)
  | some .folder => .error (.os .isDirectory)
  | some (.file _) =>
    if t.slash then .error (.os .notDirectory)
    else
      let d := d.lose (· == t.location)
      .ok { d with entries := d.entries.erase t.location }

/-- Removes a folder and all that is in it. -/
def eraseAll (d : Disk) (l : Location) : Disk :=
  let d := d.lose l.isPrefixOf
  { d with entries := d.entries.filter fun place _ => !l.isPrefixOf place }

/-- Moves an entry and all that is in it, in place of what is there. -/
def move (d : Disk) (source target : Location) : Disk :=
  let d := d.lose (· == target)
  let moved (l : Location) : Location :=
    if source.isPrefixOf l then target ++ l.drop source.length else l
  let staying := (d.entries.filter fun l _ => !source.isPrefixOf l).erase target
  let moving := d.entries.filter fun l _ => source.isPrefixOf l
  { d with
    entries := staying.insertMany (moving.toList.map fun (l, e) => (moved l, e))
    openFiles := d.openFiles.map fun _ l => moved l }

/-- Whether the first location is a folder on the way to the second. -/
def isAbove (a b : Location) : Bool := a.isPrefixOf b && a != b

/-- Moves a file or a folder to another path: a file in place of the file that is there, a folder in
place of an empty one. -/
def rename (d : Disk) (old new : FilePath) : Except IoFault Disk := do
  let source ← d.resolve old
  let target ← d.resolve new
  if source.dots ∨ target.dots then .error (.os .busy)
  else
    match d.entry? source.location with
    | none => .error (.os .noEntry)
    | some entry =>
      if entry ≠ .folder ∧ (source.slash ∨ target.slash) then .error (.os .notDirectory)
      else if isAbove source.location target.location then .error (.os .invalidArgument)
      else if isAbove target.location source.location then .error (.os .notEmpty)
      else if source.location = target.location then .ok d
      else
        match entry, d.entry? target.location with
        | .file _, some .folder => .error (.os .isDirectory)
        | .folder, some (.file _) => .error (.os .notDirectory)
        | .folder, some .folder =>
          if (d.children target.location).isEmpty then
            .ok (d.move source.location target.location)
          else .error (.os .notEmpty)
        | _, none | .file _, some (.file _) => .ok (d.move source.location target.location)

end ReplicaRing.Disk
