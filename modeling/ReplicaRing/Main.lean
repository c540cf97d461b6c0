import ReplicaRing.Disk.Change
import ReplicaRing.Shell

/-!
The command line. A shell is run line by line. Its group is in this process; what the group does to
its disk is done to the files here, and a local file is read when a command names it.
-/
open ReplicaRing

namespace ReplicaRing.Shell

/-- The path here of an entry of the group's disk. -/
def outerPath (l : Location) : String :=
  match l with
  | [] => "/"
  | first :: rest =>
    if [first] = Cluster.homeFolder then "/".intercalate ("." :: rest) else "/" ++ "/".intercalate l

/-- Does here what was done to the group's disk. -/
def follow : Disk.Change → IO Unit
  | .removed l => IO.FS.removeFile (outerPath l) <|> IO.FS.removeDir (outerPath l) <|> pure ()
  | .made l .folder => IO.FS.createDirAll (outerPath l)
  | .made l (.file content) => IO.FS.writeBinFile (outerPath l) ⟨content.toArray⟩

/-- Lets the group act, and follows it. -/
def perform {α : Type} (group : IO.Ref Cluster) (action : Cluster.Act α) : IO α := do
  let before ← group.get
  let (x, after) := action.run before
  group.set after
  (before.disk.changes after.disk).forM follow
  return x

/-- Brings a file from here to the group's disk. -/
def fetch (group : IO.Ref Cluster) (path : String) : IO Unit := do
  let content ← (some <$> IO.FS.readBinFile path) <|> pure none
  let file := Cluster.homePath path
  let folder := { file with text := String.ofList (Path.parent path.toList) }
  let place (d : Disk) (content : ByteArray) : Except IoFault Disk :=
    (d.makeFolder folder).1.write file content.data.toList
  match content with
  | some content =>
    group.modify fun c => { c with disk := (place c.disk content).toOption.getD c.disk }
  | none => group.modify fun c => { c with disk := (c.disk.remove file).toOption.getD c.disk }

/-- Brings a local file that a command reads to the group's disk. -/
def supply (group : IO.Ref Cluster) (line : String) : IO Unit := do
  match (Command.parse line).toOption.bind Command.source? with
  | none => return
  | some path => fetch group path

/-- Reads and carries out line after line. -/
partial def talk (group : IO.Ref Cluster) : IO Unit := do
  let output ← IO.getStdout
  output.putStr prompt
  output.flush
  match linesOf (← (← IO.getStdin).getLine) with
  | [] => return
  | line :: _ =>
    supply group line
    let reaction ← perform group (react line)
    output.putStr reaction.printed
    if reaction.goesOn then talk group

/-- Runs what the words ask for, and says with which code it ends. -/
def runWords (words : List String) (env : String → Option String) : IO Nat := do
  let group ← IO.mkRef ({ disk := Cluster.emptyDisk } : Cluster)
  match Options.parse words env with
  | .ok options@{ run := .member config, .. } =>
    match options.logFile with
    | some path => fetch group path
    | none => pure ()
    if !(← perform group (prepare options)) then return 1
    perform group (enrol config)
    talk group
    perform group close
    return 0
  | _ =>
    let result ← perform group (start words env "")
    (← IO.getStdout).putStr result.printed
    return result.code

end ReplicaRing.Shell

def main (words : List String) : IO UInt32 := do
  let env ← Options.envNames.filterMapM fun name => do return (← IO.getEnv name).map (name, ·)
  return UInt32.ofNat (← Shell.runWords words fun name => env.lookup name)
