import ReplicaRing.Disk.Writing

/-!
Making folders. A folder is made with all folders on the way to it; those that were made before one
is refused stay.
-/
namespace ReplicaRing.Disk

/-- Makes one folder, in a folder that is there. -/
def makeOne (d : Disk) (p : FilePath) : Except IoFault Disk := do
  let t ← d.resolve p
  if t.dots ∨ (d.entry? t.location).isSome then .error (.os .alreadyExists)
  else return d.set t.location .folder

/-- Makes one folder, or finds one. -/
def ensureOne (d : Disk) (p : FilePath) : Disk × Except IoFault Unit :=
  match d.makeOne p with
  | .ok d => (d, .ok ())
  | .error fault => (d, if d.hasFolder p then .ok () else .error fault)

/-- Makes the folder at the first path. What it is in is at the other paths, and is made only if it
is missed. -/
def makeUpward (d : Disk) (folder : Location) : List String → Disk × Except IoFault Unit
  | [] => (d, .ok ())
  | text :: above =>
    match d.makeOne ⟨folder, text⟩ with
    | .error (.os .noEntry) =>
      match d.makeUpward folder above with
      | (d, .ok ()) => d.ensureOne ⟨folder, text⟩
      | refused => refused
    | _ => d.ensureOne ⟨folder, text⟩

/-- Makes the folder at a path and every folder on the way. -/
def makeFolder (d : Disk) (p : FilePath) : Disk × Except IoFault Unit :=
  d.makeUpward p.folder ((Path.ancestors p.text.toList).map String.ofList)

/-- Removes the folder at a path and all that is in it, if there is anything. -/
def clear (d : Disk) (p : FilePath) : Except IoFault Disk := do
  if ← d.has p then
    match ← d.lookup p with
    | .file _ => .error (.os .notDirectory)
    | .folder => return d.eraseAll (← d.resolve p).location
  else return d

/-- Makes an empty folder at a path, in place of what is there, and says where it is. -/
def openEmpty (d : Disk) (p : FilePath) : Disk × Except IoFault Location :=
  match d.clear p with
  | .error fault => (d, .error fault)
  | .ok d =>
    let (d, made) := d.makeFolder p
    (d, made.bind fun _ => (d.resolve p).map (·.location))

end ReplicaRing.Disk
