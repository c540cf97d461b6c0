import ReplicaRing.Log.Entry
import ReplicaRing.Message

/-!
What the parts of a member write into the log.
-/
namespace ReplicaRing.Log.Entry

/-- A number in a field. -/
def count (name : String) (n : Nat) : String × String := (name, n.repr)

/-- A version in a field. -/
def version (v : UInt64) : String × String := count "version" v.toNat

/-! ### The shell -/

def commandProcessed (name : String) (elapsedMs : Nat) : Entry :=
  ⟨"cli::shell", .info, "command processed", [("command", name), count "elapsed_ms" elapsedMs]⟩

/-! ### Membership -/

def session : String := "membership::session"

def founding (identity : Member) : Entry :=
  ⟨session, .info, "founding a new group", [("identity", identity.display)]⟩

def receivedMembership (via : Member) (members : Nat) : Entry :=
  ⟨session, .info, "received membership", [("via", via.display), count "members" members]⟩

def joinedGroup (identity : Member) (announcedTo : Nat) : Entry :=
  ⟨session, .info, "joined group",
    [("identity", identity.display), count "announced_to" announcedTo]⟩

def leftGroup (identity : Member) : Entry :=
  ⟨session, .info, "left group", [("identity", identity.display), ("announced", "true")]⟩

/-- A connection to the member of a session ends early. -/
def connectionEnded (reason : String) : Entry :=
  ⟨session, .debug, "connection ended with error: " ++ reason, [("peer", "caller")]⟩

def loopStopped (name : String) : Entry := ⟨session, .debug, name ++ " loop stopped", []⟩

def receiverStopped : Entry :=
  ⟨"membership::detector", .info, "failure detector receiver stopped", []⟩

def introducer : String := "membership::introducer"

def introducerListening (address : String) : Entry :=
  ⟨introducer, .info, "introducer listening", [("address", address)]⟩

def introducerStopped : Entry := ⟨introducer, .info, "introducer stopped", []⟩

/-! ### The coordinator -/

def coordinator : String := "replication::coordinator"

def coordinatorReady (files : Nat) (strategy : String) : Entry :=
  ⟨coordinator, .info, "coordinator ready", [count "files" files, ("strategy", strategy)]⟩

def coordinatorRequest (kind : FileKind) (file : String) : Entry :=
  ⟨coordinator, .debug, "coordinator request", [("kind", kind.text), ("file", file)]⟩

def putPlanned (file : String) (v : UInt64) (targets : Nat) : Entry :=
  ⟨coordinator, .info, "put planned", [("file", file), version v, count "targets" targets]⟩

def putConfirmed (file : String) (v : UInt64) (holders : Nat) : Entry :=
  ⟨coordinator, .info, "put confirmed", [("file", file), version v, count "holders" holders]⟩

def putReleased (file : String) (v : UInt64) : Entry :=
  ⟨coordinator, .warn, "put failed, releasing version", [("file", file), version v]⟩

def fileDeleted (file : String) : Entry := ⟨coordinator, .info, "file deleted", [("file", file)]⟩

def repairStopped : Entry := ⟨coordinator, .info, "repair loop stopped", []⟩

/-! ### The store -/

def store : String := "storage::store"

def storeOpened (root : String) : Entry := ⟨store, .info, "file store opened", [("root", root)]⟩

def storeRequest (kind : FileKind) (file : String) : Entry :=
  ⟨store, .debug, "file server request", [("kind", kind.text), ("file", file)]⟩

def served (file : String) (bytes : Nat) : Entry :=
  ⟨store, .debug, "served file", [("file", file), count "bytes" bytes]⟩

def putRejected (file : String) : Entry := ⟨store, .warn, "rejecting put", [("file", file)]⟩

def stored (file : String) (bytes : Nat) : Entry :=
  ⟨store, .info, "stored file", [("file", file), count "bytes" bytes]⟩

def discarded (file : String) : Entry :=
  ⟨store, .info, "deleted while in flight, discarded", [("file", file)]⟩

def deletedFiles (target : String) (removed : Nat) : Entry :=
  ⟨store, .info, "deleted files", [("target", target), count "removed" removed]⟩

def removalFailed (file : String) : Entry := ⟨store, .warn, "failed to remove", [("file", file)]⟩

def unexpectedRequest (part : String) (kind : FileKind) : Entry :=
  ⟨part, .warn, "unexpected message", [("kind", kind.text)]⟩

/-! ### File operations -/

def client : String := "storage::client"

def targetRefused (target : Member) (kind : FileKind) : Entry :=
  ⟨client, .warn, "target refused put", [("target", target.display), ("kind", kind.text)]⟩

def pushFailed (target : Member) (reason : String) : Entry :=
  ⟨client, .warn, "put transfer failed: " ++ reason, [("target", target.display)]⟩

def reportFailed (file : String) (reason : String) : Entry :=
  ⟨client, .warn, "failed to report put outcome: " ++ reason, [("file", file)]⟩

def putComplete (file : String) (v : UInt64) : Entry :=
  ⟨client, .info, "put complete", [("file", file), version v]⟩

def deleted (file : String) : Entry := ⟨client, .info, "deleted", [("file", file)]⟩

def fetched (file : String) (holder : Member) : Entry :=
  ⟨client, .debug, "fetched", [("file", file), ("from", holder.display)]⟩

def holderRefused (file : String) (holder : Member) (kind : FileKind) : Entry :=
  ⟨client, .debug, "holder refused",
    [("file", file), ("from", holder.display), ("kind", kind.text)]⟩

def fetchFailed (file : String) (holder : Member) (reason : String) : Entry :=
  ⟨client, .warn, "fetch failed: " ++ reason, [("file", file), ("from", holder.display)]⟩

def versionSkipped (file : String) (v : UInt64) (reason : String) : Entry :=
  ⟨client, .warn, "skipping version: " ++ reason, [("file", file), version v]⟩

end ReplicaRing.Log.Entry
