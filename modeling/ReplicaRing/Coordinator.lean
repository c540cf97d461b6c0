import ReplicaRing.Directory
import ReplicaRing.Log.Vocabulary
import ReplicaRing.Placement

/-!
The coordinator plans puts, answers where files are, orders deletions, and repairs: it forgets
holders that left, and orders copies of versions that have too few holders. It starts from what the
members store. Its decisions are functions of the directory and the members; `StoreNetwork` is
what it needs of the world.
-/
namespace ReplicaRing

structure Coordinator where
  placement : Placement := {}
  directory : Directory := {}

/-- What follows from a request. -/
structure Response where
  reply : Option FileMessage := none
  /-- Stored names to be deleted, each with its holder. -/
  deletes : List (Member × String) := []
deriving DecidableEq, Repr

/-- An order to a member to copy a stored version from one of its holders. -/
structure CopyOrder where
  target : Member
  file : String
  version : UInt64
  holders : List Member
deriving DecidableEq, Repr

def CopyOrder.storedName (o : CopyOrder) : String := StoredName.ofVersion o.file o.version

/-- What a repair pass did. -/
structure RepairReport where
  /-- Holders that were forgotten. -/
  pruned : Nat := 0
  /-- Copies that were ordered. -/
  ordered : Nat := 0
  /-- Holders that were added. -/
  added : Nat := 0
deriving DecidableEq, Repr

/-- How the stores of the members are reached. An exchange that fails has no answer. -/
structure StoreNetwork (m : Type → Type) where
  catalog : Member → m (Option NameSet)
  copy : CopyOrder → m (Option FileKind)

namespace Coordinator

def get (c : Coordinator) (file : String) : FileMessage :=
  match c.directory.latest? file with
  | some (version, holders) =>
    { FileMessage.ok with
      file := StoredName.ofVersion file version
      nodes := holders.toList
      version := some version }
  | none => .fail

/-- Plans a put: reserves a version and names the members that shall store it. -/
def put (c : Coordinator) (members : List Member) (file : String) : Coordinator × FileMessage :=
  let name := StoredName.ofVersion file (c.directory.nextVersion file)
  let targets := c.placement.putTargets name members
  if targets.isEmpty then (c, .fail)
  else
    let (directory, version) := c.directory.reserve file
    ({ c with directory },
      { FileMessage.ok with file, nodes := targets, version := some version })

/-- Forgets a file and orders its holders to delete it. -/
def delete (c : Coordinator) (file : String) : Coordinator × Response :=
  match c.directory.remove file with
  | (_, none) => (c, { reply := some .fail })
  | (directory, some record) =>
    ({ c with directory },
      { reply := some .ok
        deletes := record.versions.toList.flatMap fun (version, holders) =>
          holders.toList.map fun holder => (holder, StoredName.ofVersion file version) })

def versions (c : Coordinator) (file : String) : FileMessage :=
  match c.directory.versions? file with
  | some versions => { FileMessage.ok with file, versions := some versions }
  | none => .fail

/-- Serves one request. Reports have no reply. -/
def handle (c : Coordinator) (members : List Member) (request : FileMessage) :
    Coordinator × Response :=
  match request.kind with
  | .get => (c, { reply := some (c.get request.file) })
  | .put =>
    let (c, reply) := c.put members request.file
    (c, { reply := some reply })
  | .putOk =>
    match request.version with
    | some version =>
      let holders := Std.ExtTreeSet.ofList request.nodes compare
      ({ c with directory := c.directory.confirm request.file version holders }, {})
    | none => (c, {})
  | .putFail =>
    match request.version with
    | some version => ({ c with directory := (c.directory.abandon request.file version).1 }, {})
    | none => (c, {})
  | .delete => c.delete request.file
  | .getVersions => (c, { reply := some (c.versions request.file) })
  | _ => (c, { reply := some .fail })

/-- What goes to the log when a request has been served. -/
def notes (request : FileMessage) (response : Response) : List Log.Entry :=
  let file := request.file
  .coordinatorRequest request.kind file :: match request.kind, request.version with
  | .put, _ =>
    match response.reply.bind (·.version), response.reply with
    | some version, some plan => [.putPlanned file version plan.nodes.length]
    | _, _ => []
  | .putOk, some version => [.putConfirmed file version request.nodes.length]
  | .putFail, some version => [.putReleased file version]
  | .delete, _ => if response.reply.any (·.isOk) then [.fileDeleted file] else []
  | .get, _ | .getVersions, _ | .putOk, none | .putFail, none => []
  | other, _ => [.unexpectedRequest Log.Entry.coordinator other]

/-- The first half of a repair pass: holders that left are forgotten, and copies are ordered. -/
def planRepair (c : Coordinator) (members : List Member) : Coordinator × Nat × List CopyOrder :=
  let (directory, pruned) := c.directory.prune (members.contains ·)
  let orders := (directory.shortages c.placement.factor).flatMap fun s =>
    (c.placement.repairTargets (StoredName.ofVersion s.file s.version) members s.holders).map
      fun target => ⟨target, s.file, s.version, s.holders.toList⟩
  ({ c with directory }, pruned, orders)

/-- The second half, order by order: a member that has the copy becomes a holder. -/
def settleOrder (c : Coordinator) (order : CopyOrder) (answer : Option FileKind) :
    Coordinator × Bool :=
  if answer = some .ok ∨ answer = some .fileExists then
    let (directory, added) := c.directory.addHolder order.file order.version order.target
    ({ c with directory }, added)
  else (c, false)

/-- Settles the orders of a pass and counts the holders that are new. -/
def settle (c : Coordinator) (answers : List (CopyOrder × Option FileKind)) : Coordinator × Nat :=
  answers.foldl
    (fun (c, added) (order, answer) =>
      let (c, new) := c.settleOrder order answer
      (c, if new then added + 1 else added))
    (c, 0)

/-- One repair pass. -/
def repair {m : Type → Type} [Monad m] (c : Coordinator) (network : StoreNetwork m)
    (members : List Member) : m (Coordinator × RepairReport) := do
  let (c, pruned, orders) := c.planRepair members
  let answers ← orders.mapM fun order => return (order, ← network.copy order)
  let (c, added) := c.settle answers
  return (c, { pruned, ordered := orders.length, added })

/-- A coordinator that starts from what the members store. A member that does not answer counts as
one that stores nothing. -/
def recover {m : Type → Type} [Monad m] (placement : Placement) (network : StoreNetwork m)
    (members : List Member) : m Coordinator := do
  let answers ← members.mapM fun member => return (member, ← network.catalog member)
  let catalogs := answers.filterMap fun (member, names) => names.map (member, ·)
  return { placement, directory := Directory.rebuild catalogs }

end Coordinator

end ReplicaRing
