import ReplicaRing.Cluster.Peer
import ReplicaRing.Config
import ReplicaRing.Introducer
import ReplicaRing.Log.Filter
import ReplicaRing.Session
import ReplicaRing.Store.Copy

/-!
A group in one place: peers, participants, the introducer and the disk that all of them share.
Participants are members in full; they join, elect, serve and leave. Everything happens in one
order: an exchange is one step, and what is sent without waiting for a reply lies in the post until
the step is over.
-/
namespace ReplicaRing

namespace Cluster

structure Participant where
  config : MemberConfig
  session : Option Session := none

/-- What was sent and not looked at yet. -/
inductive Letter
  | message (recipient : Member) (message : Message)
  | event (participant : String) (event : Event)
deriving DecidableEq, Repr

/-- Someone with a store and a view of the ring. -/
inductive Seat
  | peer (index : Nat)
  /-- A store that a peer had before its store was opened anew. -/
  | former (index : Nat)
  | participant (name : String)
deriving DecidableEq, Repr

/-- How far a put has come. -/
inductive PutProgress
  | receiving (inflow : Inflow)
  | ended (answer : Answer)
deriving DecidableEq, Repr

/-- A put on its way in, whose bytes come piece by piece. -/
structure OpenPut where
  seat : Seat
  name : String
  announced : Option UInt64
  progress : PutProgress
deriving DecidableEq, Repr

/-- What the other side of a connection waits for. -/
inductive Pending
  | closed
  /-- The bytes of a put. -/
  | put (seat : Seat) (name : String) (announced : Option UInt64) (inflow : Inflow)
  /-- A script waits, or is silent. -/
  | script (peer : Nat) (pause : Pause)
deriving DecidableEq, Repr

/-- An open connection, as the caller finds it. -/
structure Line where
  said : Bytes := []
  pending : Pending := .closed
deriving DecidableEq, Repr

/-- A copy that runs beside other steps. -/
structure OpenCopy where
  key : String
  seat : Seat
  name : String
  progress : Store.CopyProgress
  /-- How far the file has come from the holder that is speaking. -/
  pull : Pull := .start

/-- A log that entries are written to. -/
structure OpenLog where
  filter : Log.Filter
  file : Handle
deriving DecidableEq, Repr

end Cluster

open Cluster in
structure Cluster where
  disk : Disk
  /-- The ring that all peers read; the first peer owns it. -/
  ring : Ring := Ring.alone default
  peers : List Peer := []
  /-- The stores that peers had before their stores were opened anew. -/
  formerStores : List Store := []
  /-- The failure detector of the first peer. -/
  detector : Detector := { owner := default }
  participants : List (String × Participant) := []
  introducer : Introducer := {}
  /-- Where the introducer listens, if it does. -/
  introducerAt : Option Endpoint := none
  /-- Endpoints that others have taken. -/
  occupied : List Endpoint := []
  post : List Letter := []
  puts : List (String × OpenPut) := []
  copies : List OpenCopy := []
  /-- The time, which is another one at each join. -/
  clock : UInt64 := 1700000000000
  /-- The next port that nobody uses. -/
  freePort : UInt16 := 20000
  log : Option OpenLog := none

namespace Cluster

/-- The folder that relative paths start from. -/
def homeFolder : Location := ["home"]

/-- An empty disk with the home folder. -/
def emptyDisk : Disk := ({} : Disk).set homeFolder .folder

/-- The folder of the store of a peer. -/
def storeFolder (i : Nat) : Location := ["stores", i.repr]

/-- A group of peers, the first of which owns the ring that all of them read. Their stores are
empty, each in a folder of its own. -/
def ofPeers (peers : List Peer) (ring : Ring) (introducerAt : Option Endpoint) : Cluster :=
  let peers := peers.mapIdx fun i p => { p with store := { root := storeFolder i } }
  let disk := peers.foldl (fun d p => d.set p.store.root .folder) (emptyDisk.set ["stores"] .folder)
  { disk, ring, peers, detector := { owner := ring.owner }, introducerAt }

/-- Steps of a group. -/
abbrev Act := StateM Cluster

/-- A path that starts from the home folder. -/
def homePath (text : String) : FilePath := ⟨homeFolder, text⟩

def peer? (i : Nat) : Act (Option Peer) := return (← get).peers[i]?

def updatePeer (i : Nat) (f : Peer → Peer) : Act Unit :=
  modify fun c => { c with peers := c.peers.modify i f }

/-- The messages that a peer received since it was asked last, last first. -/
def takeReceived (i : Nat) : Act (List Message) := do
  let messages := ((← peer? i).map (·.received)).getD []
  updatePeer i fun p => { p with received := [] }
  return messages

def participant? (name : String) : Act (Option Participant) :=
  return (← get).participants.lookup name

def session? (name : String) : Act (Option Session) :=
  return (← participant? name).bind (·.session)

def updateParticipant (name : String) (f : Participant → Participant) : Act Unit :=
  modify fun c =>
    { c with participants := c.participants.map fun (n, p) => (n, if n = name then f p else p) }

def updateSession (name : String) (f : Session → Session) : Act Unit :=
  updateParticipant name fun p => { p with session := p.session.map f }

/-- Uses the disk. -/
def onDisk {α : Type} (f : Disk → Disk × α) : Act α :=
  modifyGet fun c =>
    let (disk, x) := f c.disk
    (x, { c with disk })

/-- Uses the disk for something that may be refused, and says whether it was done. -/
def tryDisk (f : Disk → Except IoFault Disk) : Act Bool :=
  onDisk fun d =>
    match f d with
    | .ok d => (d, true)
    | .error _ => (d, false)

/-- Writes an entry to the log, if there is one and its filter lets the entry through. -/
def note (e : Log.Entry) : Act Unit :=
  modify fun c =>
    match c.log with
    | some log =>
      if log.filter.allows e then
        { c with disk := c.disk.append log.file e.line.toUTF8.toList }
      else c
    | none => c

/-- The store of a seat. -/
def store? : Seat → Act (Option Store)
  | .peer i => return (← peer? i).map (·.store)
  | .former i => return (← get).formerStores[i]?
  | .participant name => return (← session? name).map (·.store)

def setStore (seat : Seat) (store : Store) : Act Unit :=
  match seat with
  | .peer i => updatePeer i fun p => { p with store }
  | .former i => modify fun c => { c with formerStores := c.formerStores.set i store }
  | .participant name => updateSession name fun s => { s with store }

/-- Uses the store of a seat and the disk. A seat that nobody has is an empty store. -/
def onStore {α : Type} (seat : Seat) (f : Store → Disk → Store × Disk × α) : Act α := do
  let store := (← store? seat).getD { root := [] }
  let (store, disk, x) := f store (← get).disk
  setStore seat store
  modify fun c => { c with disk }
  return x

/-- The ring that a seat reads. -/
def ringOf : Seat → Act Ring
  | .peer _ | .former _ => return (← get).ring
  | .participant name => return ((← session? name).map (·.ring)).getD (← get).ring

/-- The role of the coordinator at a seat, if it runs there. -/
def coordinator? : Seat → Act (Option Coordinator)
  | .peer i => return (← peer? i).bind (·.coordinator)
  | .former _ => return none
  | .participant name => return (← session? name).bind (·.role)

def setCoordinator (seat : Seat) (c : Coordinator) : Act Unit :=
  match seat with
  | .peer i => updatePeer i fun p => { p with coordinator := some c }
  | .former _ => return
  | .participant name => updateSession name fun s => { s with role := some c }

/-- Who listens at an endpoint. -/
def seatAt? (e : Endpoint) : Act (Option Seat) := do
  let c ← get
  match c.peers.findIdx? fun p => p.member.endpoint == e && p.listens with
  | some i => return some (.peer i)
  | none =>
    return (c.participants.find? fun (_, p) => p.session.any (·.identity.endpoint == e)).map
      fun (name, _) => .participant name

def write (letter : Letter) : Act Unit := modify fun c => { c with post := c.post ++ [letter] }

end Cluster

end ReplicaRing
