import ReplicaRing.Cluster.Membership
import ReplicaRing.Command.Outcome

/-!
A participant carries out a command. All but joining, helping and exiting need it to be joined.
-/
namespace ReplicaRing.Cluster

/-- The session of a participant, which must be joined. -/
def joined (name : String) : ExceptT MembershipFault Act Session := do
  match ← ExceptT.lift (session? name) with
  | some s => return s
  | none => throw .notJoined

/-- A file operation of a joined participant. -/
def operate {α : Type} (name : String) (operation : Client Act → ExceptT StorageFault Act α) :
    ExceptT MembershipFault Act α := do
  discard (joined name)
  match ← ExceptT.lift (operation (client (.participant name))).run with
  | .ok x => return x
  | .error fault => throw (.storage fault)

def execute (name : String) : Command → ExceptT MembershipFault Act Outcome
  | .join => return .joined (← join name)
  | .leave => do
    leave name
    return .left
  | .listMembers => do
    let s ← joined name
    return .members s.identity s.ring.snapshot
  | .listSelf => return .self (← joined name).identity
  | .store => return .stored (← joined name).store.files.toList
  | .put localPath remote =>
    return .put remote (← operate name (·.put (homePath localPath) remote))
  | .get remote localPath =>
    return .fetched remote (← operate name (·.get remote (homePath localPath))) localPath
  | .delete remote => do
    operate name (·.delete remote)
    return .deleted remote
  | .versions remote => return .versions (← operate name (·.listVersions remote))
  | .getVersions remote count localPath =>
    return .fetchedVersions remote
      (← operate name (·.getVersions remote count (homePath localPath)))
  | .help => return .help
  | .exit => return .exit

/-- Carries out a command and all that follows from it. -/
def run (name : String) (command : Command) : Act Outcome := do
  let outcome ←
    match ← (execute name command).run with
    | .ok outcome => pure outcome
    | .error fault => pure (.failed fault)
  settle
  return outcome

end ReplicaRing.Cluster
