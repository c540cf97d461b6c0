import ReplicaRing.Disk.Folders
import ReplicaRing.Exchange
import ReplicaRing.Log.Vocabulary
import ReplicaRing.StorageFault
import ReplicaRing.Transfer

/-!
The files that one member stores: versions under their stored names, each a plain entry of the
store's folder. A name is received by one sender at a time and is never overwritten. A deletion that
meets a name on its way in is remembered, and the file is discarded when it is complete.
-/
namespace ReplicaRing

structure Store where
  root : Location
  /-- Names that are stored and served. -/
  files : NameSet := ∅
  /-- Names on their way in. -/
  receiving : NameSet := ∅
  /-- Names on their way in that are deleted already. -/
  cancelled : NameSet := ∅
deriving DecidableEq, Repr

/-- What a store says on a connection, the fault that ended it early, and what goes to the log. -/
structure Answer where
  reply : Option FileMessage := none
  body : Bytes := []
  fault : Option StorageFault := none
  notes : List Log.Entry := []
deriving DecidableEq, Repr

/-- What is heard of an answer on the connection. -/
def Answer.bytes (a : Answer) : Bytes := (a.reply.map Wire.Frame.bytes).getD [] ++ a.body

/-- How a put begins. -/
inductive Admission
  | refused
  /-- It is acknowledged, but its bytes cannot be collected. -/
  | failed (fault : IoFault)
  | receiving (inflow : Inflow)
deriving DecidableEq, Repr

/-- What a deletion did. -/
structure Deletion where
  removed : Nat := 0
  /-- Names that are no longer served, but whose files could not be removed. -/
  stuck : List String := []
deriving DecidableEq, Repr

def Deletion.notes (r : Deletion) (target : String) : List Log.Entry :=
  r.stuck.map .removalFailed ++ [.deletedFiles target r.removed]

namespace Store

/-- Whether a name may be stored: it is one plain name, and none that files in transit have. -/
def accepts (name : String) : Bool :=
  !(name.isEmpty || name.toList.contains '/' || name.toList.contains '\\' || name == "." ||
    name == ".." || PartialName.isPartial name)

/-- Where a name is stored. -/
def path (s : Store) (name : String) : FilePath := ⟨s.root, name⟩

/-- An empty store in an empty folder. What was there is gone. -/
def openAt (d : Disk) (folder : FilePath) : Disk × Except IoFault Store :=
  let (d, root) := d.openEmpty folder
  (d, root.map fun root => { root })

def contains (s : Store) (name : String) : Bool := s.files.contains name

def beginReceiving (s : Store) (name : String) : Store :=
  { s with receiving := s.receiving.insert name, cancelled := s.cancelled.erase name }

def endReceiving (s : Store) (name : String) : Store :=
  { s with receiving := s.receiving.erase name, cancelled := s.cancelled.erase name }

/-- A complete file is served from now on, unless it was deleted on its way in; then it goes. The
result says whether it is kept. -/
def publish (s : Store) (d : Disk) (name : String) : Store × Disk × Bool :=
  if s.cancelled.contains name then
    ({ s with files := s.files.erase name, cancelled := s.cancelled.erase name },
      (d.remove (s.path name)).toOption.getD d, false)
  else ({ s with files := s.files.insert name }, d, true)

/-- Removes files from the disk. -/
def removeAll (s : Store) (d : Disk) (names : List String) : Disk × Deletion :=
  names.foldl
    (fun (d, r) name =>
      match d.remove (s.path name) with
      | .ok d => (d, { r with removed := r.removed + 1 })
      | .error _ => (d, { r with stuck := r.stuck ++ [name] }))
    (d, {})

/-- Deletes `target` itself and every version of the file `target`. Matching names on their way in
are cancelled. -/
def delete (s : Store) (d : Disk) (target : String) : Store × Disk × Deletion :=
  let hit (name : String) : Bool := StoredName.belongsTo name target
  let doomed := s.files.filter hit
  let (d, r) := s.removeAll d doomed.toList
  ({ s with
      files := s.files.filter (!hit ·)
      cancelled := s.cancelled.insertMany (s.receiving.filter hit).toList }, d, r)

/-- Serves a file: its size, then its bytes. -/
def get (s : Store) (d : Disk) (name : String) : Answer :=
  if !s.contains name then { reply := some .fail }
  else if !accepts name then { fault := some (.invalidName name) }
  else
    match d.size (s.path name) with
    | .error fault => { fault := some (.io fault) }
    | .ok size =>
      let reply := some { FileMessage.ok with size := some (UInt64.ofNat size) }
      match d.read (s.path name) with
      | .ok body => { reply, body, notes := [.served name body.length] }
      | .error fault => { reply, fault := some (.io fault) }

/-- All names that are served. -/
def catalog (s : Store) : Answer := { reply := some { FileMessage.ok with files := some s.files } }

/-- A put begins: a name that is free and may be stored is acknowledged. -/
def beginPut (s : Store) (d : Disk) (name : String) : Store × Disk × Admission :=
  if !accepts name || s.contains name || s.receiving.contains name then (s, d, .refused)
  else
    match Transfer.start d (s.path name) with
    | (d, .error fault) => (s.endReceiving name, d, .failed fault)
    | (d, .ok inflow) => (s.beginReceiving name, d, .receiving inflow)

/-- The bytes of a put have ended. The reply confirms that the file is kept. -/
def finishPut (s : Store) (d : Disk) (name : String) (announced : Option UInt64)
    (inflow : Inflow) : Store × Disk × Answer :=
  match Transfer.finish d (s.path name) announced inflow with
  | (d, .error fault) => (s.endReceiving name, d, { fault := some (.io fault) })
  | (d, .ok received) =>
    let (s, d, kept) := s.publish d name
    (s.endReceiving name, d,
      if kept then { reply := some .ok, notes := [.stored name received] }
      else { reply := some .fail, notes := [.discarded name] })

/-- The bytes of a put come at once. -/
def takePut (s : Store) (d : Disk) (name : String) (announced : Option UInt64) (inflow : Inflow)
    (body : Bytes) : Store × Disk × Answer :=
  let (d, inflow) := Transfer.collect d inflow body
  s.finishPut d name announced inflow

/-- The request for a stored file. -/
def getRequest (name : String) : Message := .file (FileMessage.request .get .fileServer name)

/-- Serves a request that needs neither more bytes nor another member. -/
def serve (s : Store) (d : Disk) (request : FileMessage) : Store × Disk × Answer :=
  match request.kind with
  | .get => (s, d, s.get d request.file)
  | .delete =>
    let (s, d, r) := s.delete d request.file
    (s, d, { notes := r.notes request.file })
  | .coordinatorStoreRequest => (s, d, s.catalog)
  | other =>
    (s, d, { reply := some .fail, notes := [.unexpectedRequest Log.Entry.store other] })

end Store

end ReplicaRing
