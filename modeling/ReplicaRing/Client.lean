import ReplicaRing.Arrangement
import ReplicaRing.Pull
import ReplicaRing.Store

/-!
File operations of a member. Each begins with a question to the coordinator; the bytes then go
between this member and the stores that the coordinator names.
-/
namespace ReplicaRing

/-- What a successful put reports. -/
structure PutReceipt where
  version : UInt64
  storedOn : List Member
deriving DecidableEq, Repr

/-- What file operations need of the world: the view of the ring, the disk, the other members, the
log, and an order in which holders are tried. -/
structure Client (m : Type → Type) where
  network : Network m
  coordinator : m (Option Member)
  inRing : Member → m Bool
  onDisk : {α : Type} → (Disk → Disk × α) → m α
  note : Log.Entry → m Unit
  arrangement : Arrangement := .asGiven

namespace Client

variable {m : Type → Type} [Monad m]

/-- Looks at the disk. -/
def look {α : Type} (c : Client m) (f : Disk → α) : m α := c.onDisk fun d => (d, f d)

/-- The coordinator, which must be known. -/
def knownCoordinator (c : Client m) : ExceptT StorageFault m Member := do
  match ← c.coordinator with
  | some coordinator => return coordinator
  | none => throw .noCoordinator

/-- A question to the coordinator. A refusal means that it does not know the file, except for a
put, which no file can be unknown to. -/
def ask (c : Client m) (coordinator : Member) (kind : FileKind) (remote : String) :
    ExceptT StorageFault m FileMessage := do
  let request := Message.file (FileMessage.request kind .coordinator remote)
  match ← ExceptT.lift (c.network.request (α := FileMessage) coordinator request) with
  | .error fault => throw (.exchange fault)
  | .ok reply =>
    match reply.kind with
    | .ok => return reply
    | .fail => throw (if kind = .put then .rejected reply.kind.text else .notFound remote)
    | other => throw (.rejected other.text)

/-- Sends a file to a member that shall store it. Says whether the member confirms. -/
def pushTo (c : Client m) (request : FileMessage) (source : FilePath) (target : Member) :
    m Bool := do
  let bytes ← c.look (·.read source)
  match ← c.network.push target (.file request) bytes with
  | .ok reply =>
    if reply.isOk then return true
    c.note (.targetRefused target reply.kind)
    return false
  | .error fault =>
    c.note (.pushFailed target fault.message)
    return false

/-- The request to store a file of the given size. -/
def pushRequest (name : String) (size : Nat) : FileMessage :=
  { FileMessage.request .put .fileServer name with size := some (UInt64.ofNat size) }

/-- The members among `targets` that confirm to have stored a file. -/
def pushAll (c : Client m) (name : String) (size : Nat) (source : FilePath)
    (targets : List Member) : m (List Member) := do
  let outcomes ← targets.mapM fun target => do
    return (target, ← c.pushTo (pushRequest name size) source target)
  return (outcomes.filter (·.2)).map (·.1)

/-- How a put of `remote` ended. -/
def outcome (remote : String) (version : UInt64) (storedOn : List Member) : FileMessage :=
  let kind : FileKind := if storedOn.isEmpty then .putFail else .putOk
  { FileMessage.request kind .coordinator remote with nodes := storedOn, version := some version }

/-- Tells the coordinator of now how a put of `remote` ended. -/
def report (c : Client m) (planner : Member) (remote : String) (version : UInt64)
    (storedOn : List Member) : m Unit := do
  let coordinator := (← c.coordinator).getD planner
  match ← c.network.send coordinator (.file (outcome remote version storedOn)) with
  | .ok () => return
  | .error fault => c.note (.reportFailed remote fault.message)

/-- Stores a local file as the next version of `remote`. -/
def put (c : Client m) (source : FilePath) (remote : String) :
    ExceptT StorageFault m PutReceipt := do
  let size ← match ← ExceptT.lift (c.look (·.size source)) with
    | .ok size => pure size
    | .error (.os .noEntry) => throw (.notFound source.text)
    | .error fault => throw (.io fault)
  let remote := RemoteName.flatten remote
  let coordinator ← c.knownCoordinator
  let plan ← c.ask coordinator .put remote
  let some version := plan.version | throw (.rejected "put plan without a version")
  let stored ← c.pushAll (StoredName.ofVersion remote version) size source plan.nodes
  let storedOn := stored.mergeSort (compare · · |>.isLE)
  c.report coordinator remote version storedOn
  if storedOn.isEmpty then throw (.putFailed remote)
  ExceptT.lift (c.note (.putComplete remote version))
  return ⟨version, storedOn⟩

/-- Fetches a stored file from one holder. Says whether the holder served it. -/
def fetchAt (c : Client m) (name : String) (destination : FilePath) (holder : Member) :
    m Bool := do
  let pulled ←
    match ← c.network.ask holder (Store.getRequest name) with
    | .error fault => pure (.error fault)
    | .ok heard => c.onDisk (heard.pull · destination)
  match pulled with
  | .error fault =>
    c.note (.fetchFailed name holder fault.message)
    return false
  | .ok ack =>
    c.note (if ack.isOk then .fetched name holder else .holderRefused name holder ack.kind)
    return ack.isOk

/-- Tries holders in order until one serves the file. Holders that left the ring are passed
over. -/
def fetchFrom (c : Client m) (name : String) (destination : FilePath) :
    List Member → ExceptT StorageFault m Member
  | [] => throw (.unavailable name)
  | holder :: rest => do
    if !(← c.inRing holder) then c.fetchFrom name destination rest
    else if ← c.fetchAt name destination holder then return holder
    else c.fetchFrom name destination rest

/-- Fetches a stored file from one of its holders. -/
def fetch (c : Client m) (name : String) (holders : List Member) (destination : FilePath) :
    ExceptT StorageFault m Member :=
  c.fetchFrom name destination (c.arrangement.order name holders)

/-- Fetches the latest version of `remote`, and says who served it. -/
def get (c : Client m) (remote : String) (destination : FilePath) :
    ExceptT StorageFault m Member := do
  let remote := RemoteName.flatten remote
  let coordinator ← c.knownCoordinator
  let plan ← c.ask coordinator .get remote
  c.fetch plan.file plan.nodes destination

/-- Deletes every version of `remote`. -/
def delete (c : Client m) (remote : String) : ExceptT StorageFault m Unit := do
  let remote := RemoteName.flatten remote
  let coordinator ← c.knownCoordinator
  discard (c.ask coordinator .delete remote)
  ExceptT.lift (c.note (.deleted remote))

/-- The versions of `remote` and their holders. -/
def listVersions (c : Client m) (remote : String) : ExceptT StorageFault m VersionMap := do
  let remote := RemoteName.flatten remote
  let coordinator ← c.knownCoordinator
  let reply ← c.ask coordinator .getVersions remote
  return reply.versions.getD ∅

/-- The newest `count` versions that have a holder, newest first. -/
def newest (versions : VersionMap) (count : Nat) : List (UInt64 × MemberSet) :=
  (versions.toList.reverse.filter fun entry => !entry.2.isEmpty).take count

/-- Fetches one version of `remote` to a path of its own, which is the result. -/
def getVersion (c : Client m) (remote : String) (destination : FilePath) (version : UInt64)
    (holders : MemberSet) : m (Option (UInt64 × String)) := do
  let path := StoredName.versionedPath destination.text version
  let name := StoredName.ofVersion remote version
  match ← (c.fetch name holders.toList { destination with text := path }).run with
  | .ok _ => return some (version, path)
  | .error fault =>
    c.note (.versionSkipped remote version fault.message)
    return none

/-- Fetches the newest versions of `remote`. Versions that nobody serves are left out. -/
def getVersions (c : Client m) (remote : String) (count : Nat) (destination : FilePath) :
    ExceptT StorageFault m (List (UInt64 × String)) := do
  let versions ← c.listVersions remote
  let fetched ← (newest versions count).mapM fun (version, holders) =>
    ExceptT.lift (c.getVersion (RemoteName.flatten remote) destination version holders)
  return fetched.filterMap id

end Client

end ReplicaRing
