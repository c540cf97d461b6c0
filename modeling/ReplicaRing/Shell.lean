import ReplicaRing.Cluster.Commands
import ReplicaRing.Options

/-!
A member's shell. It reads commands line by line, prints what comes of them, and leaves the group
when the lines end or a command tells it to. Everything happens in a group whose only participant
is the member of the shell.
-/
namespace ReplicaRing.Shell

open Cluster

def prompt : String := "member$ "

/-- The participant of the shell. -/
def participant : String := "member"

/-- What a line brings: what is printed, and whether the shell goes on. -/
structure Reaction where
  printed : String := ""
  goesOn : Bool := true
deriving DecidableEq, Repr

/-- How long a command takes: the time of a group stands still while it acts. -/
def elapsedMs : Nat := 0

def react (line : String) : Act Reaction := do
  if (Text.words line.toList).isEmpty then return {}
  match Command.parse line with
  | .error fault => return { printed := fault.message ++ "\n" }
  | .ok command =>
    let outcome ← run participant command
    note (.commandProcessed command.name elapsedMs)
    match outcome with
    | .exit => return { goesOn := false }
    | outcome => return { printed := outcome.text ++ "\n" }

/-- Lines of a text. A line may end in a carriage return, which is dropped, and the last one need
not end at all. -/
def linesOf (text : String) : List String :=
  let pieces := text.splitOn "\n"
  let pieces := if pieces.getLast? = some "" then pieces.dropLast else pieces
  pieces.map fun line => if line.endsWith "\r" then (line.dropEnd 1).copy else line

/-- Leaves the group, if it is joined, at the end. -/
def close : Act Unit := do
  if (← session? participant).isSome then discard (run participant .leave)

/-- What is printed for lines. -/
def converse : List String → Act String
  | [] => return prompt
  | line :: rest => do
    let reaction ← react line
    let later ← if reaction.goesOn then converse rest else pure ""
    return prompt ++ reaction.printed ++ later

/-- How a run of the program ends. -/
structure Result where
  code : Nat
  printed : String := ""
deriving DecidableEq, Repr

/-- Opens the file of the log, which keeps what it holds. Says whether it could be opened. -/
def openLog (filter : Log.Filter) (path : FilePath) : Act Bool := do
  match (← get).disk.openOrCreate path with
  | .error _ => return false
  | .ok (disk, file) =>
    modify fun c => { c with disk, log := some { filter, file } }
    return true

/-- Opens the log, if there shall be a file for it. Says whether the run can start. -/
def prepare (options : Options) : Act Bool := do
  match Log.Filter.parse? options.logLevel, options.logFile with
  | none, _ => return false
  | some filter, some path => openLog filter (homePath path)
  | some _, none => return true

/-- The member of the shell is there, and has not joined. -/
def enrol (config : MemberConfig) : Act Unit :=
  modify fun c => { c with participants := c.participants ++ [(participant, { config })] }

/-- Runs an introducer until it is interrupted. It fails at once if its endpoint is taken. -/
def runIntroducer (endpoint : Endpoint) : Act Result := do
  if (Host.claim endpoint.host).toBool && !(← get).occupied.contains endpoint then
    note (.introducerListening endpoint.text)
    note .introducerStopped
    return { code := 0 }
  else return { code := 1 }

/-- What is printed when the options ask for the version. -/
def versionText : String := "ring-cluster 0.1.0\n"

/-- How a run ends that cannot start. -/
def refuse : Options.Fault → Result
  | .displayVersion => { code := 0, printed := versionText }
  | .displayHelp => { code := 0 }
  | _ => { code := 2 }

/-- Runs the program over the lines of a text. -/
def start (words : List String) (env : String → Option String) (input : String) : Act Result := do
  match Options.parse words env with
  | .error fault => return refuse fault
  | .ok options =>
    if !(← prepare options) then return { code := 1 }
    match options.run with
    | .introducer host port => runIntroducer ⟨host, port⟩
    | .member config =>
      enrol config
      let printed ← converse (linesOf input)
      close
      return { code := 0, printed }

end ReplicaRing.Shell
