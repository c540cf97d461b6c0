import ReplicaRing.Ring
import Std.Data.ExtTreeMap

/-!
What members say to each other. Membership events carry one subject. File messages ask for a file
operation, or answer one, and are routed by destination. Failure detectors exchange datagrams, and
the introducer has a request and a reply of its own.
-/
namespace ReplicaRing

inductive EventKind
  | join | leave | crash | ping | ack | memberListRequest | introducerCheckAlive | electionId
  | elected
deriving DecidableEq, Repr, Inhabited

namespace EventKind

/-- The kinds in the order of their tags on the wire. -/
def all : List EventKind :=
  [join, leave, crash, ping, ack, memberListRequest, introducerCheckAlive, electionId, elected]

def text : EventKind → String
  | join => "join"
  | leave => "leave"
  | crash => "crash"
  | ping => "ping"
  | ack => "ack"
  | memberListRequest => "member-list-request"
  | introducerCheckAlive => "introducer-check-alive"
  | electionId => "election-id"
  | elected => "elected"

end EventKind

/-- A membership event about one member. -/
structure Event where
  kind : EventKind
  subject : Member
deriving DecidableEq, Repr, Inhabited

/-- Holders by version; a version without holders is pending. -/
abbrev VersionMap := Std.ExtTreeMap UInt64 MemberSet compare

instance : DecidableEq VersionMap :=
  inferInstanceAs (DecidableEq (Std.ExtTreeMap UInt64 MemberSet compare))

/-- A finite set of names, listed code point by code point. -/
abbrev NameSet := Std.ExtTreeSet String compare

inductive FileKind
  | get | put | putOk | putFail | delete | replicate | getVersions | ok | fail | fileExists
  | coordinatorStoreRequest
deriving DecidableEq, Repr, Inhabited

namespace FileKind

/-- The kinds in the order of their tags on the wire. -/
def all : List FileKind :=
  [get, put, putOk, putFail, delete, replicate, getVersions, ok, fail, fileExists,
    coordinatorStoreRequest]

/-- The kind as a reader of an error message sees it. -/
def text : FileKind → String
  | get => "Get"
  | put => "Put"
  | putOk => "PutOk"
  | putFail => "PutFail"
  | delete => "Delete"
  | replicate => "Replicate"
  | getVersions => "GetVersions"
  | ok => "Ok"
  | fail => "Fail"
  | fileExists => "FileExists"
  | coordinatorStoreRequest => "CoordinatorStoreRequest"

end FileKind

/-- Who a file message is for. -/
inductive Destination
  | coordinator | fileServer | client
deriving DecidableEq, Repr, Inhabited

namespace Destination

/-- The destinations in the order of their tags on the wire. -/
def all : List Destination := [coordinator, fileServer, client]

def text : Destination → String
  | coordinator => "Coordinator"
  | fileServer => "FileServer"
  | client => "Client"

end Destination

structure FileMessage where
  kind : FileKind
  destination : Destination := .client
  file : String := ""
  nodes : List Member := []
  version : Option UInt64 := none
  versions : Option VersionMap := none
  files : Option NameSet := none
  size : Option UInt64 := none
deriving DecidableEq, Repr

namespace FileMessage

def request (kind : FileKind) (destination : Destination) (file : String) : FileMessage :=
  { kind, destination, file }

def reply (kind : FileKind) : FileMessage := { kind }

def ok : FileMessage := reply .ok

def fail : FileMessage := reply .fail

def isOk (m : FileMessage) : Bool := m.kind == .ok

end FileMessage

/-- The first frame of a connection between members. -/
inductive Message
  | membership (event : Event)
  | file (message : FileMessage)
deriving DecidableEq, Repr

/-- Whether the introducer asks if someone is there. Nothing is said to it. -/
def Message.isCheckAlive : Message → Bool
  | .membership e => e.kind == .introducerCheckAlive
  | .file _ => false

/-- What failure detectors exchange; an answer repeats the sequence number of its ping. -/
structure Datagram where
  seq : UInt64
  event : Event
deriving DecidableEq, Repr

structure IntroducerRequest where
  joining : Member
deriving DecidableEq, Repr

/-- A member of the group to join, or nothing when the joiner founds the group. -/
structure IntroducerReply where
  groupMember : Option Member
deriving DecidableEq, Repr

end ReplicaRing
