import ReplicaRing.Coordinator
import ReplicaRing.Store

/-!
A peer: someone at a fixed endpoint who takes part without a will of its own. A plain peer serves
its files, and runs the coordinator's role when it is given it. A scripted peer says on each
connection what its script tells it. A peer that is down does not listen.
-/
namespace ReplicaRing.Cluster

/-- What a scripted peer does on a connection. -/
inductive Deed
  | say (bytes : Bytes)
  /-- Wait until the caller has ended its side. -/
  | awaitEnd
  /-- Wait for a permit. -/
  | gate
  /-- Fall silent for good. -/
  | hang
deriving DecidableEq, Repr

/-- Where a script has come to. -/
inductive Pause
  | finished
  | awaitingEnd (rest : List Deed)
  | atGate (rest : List Deed)
  | silent
deriving DecidableEq, Repr

/-- What was said until the script paused, and the permits that are left. -/
structure Speech where
  said : Bytes
  permits : Nat
  pause : Pause
deriving DecidableEq, Repr

/-- Follows a script until it has to wait. -/
def speak (ended : Bool) (permits : Nat) : List Deed → Speech
  | [] => ⟨[], permits, .finished⟩
  | .say bytes :: rest =>
    let s := speak ended permits rest
    { s with said := bytes ++ s.said }
  | .awaitEnd :: rest =>
    if ended then speak ended permits rest else ⟨[], permits, .awaitingEnd rest⟩
  | .gate :: rest =>
    match permits with
    | 0 => ⟨[], 0, .atGate rest⟩
    | n + 1 => speak ended n rest
  | .hang :: _ => ⟨[], permits, .silent⟩

inductive Conduct
  | plain
  | down
  /-- One script a connection; the last one repeats. -/
  | scripted (scripts : List (List Deed))
deriving DecidableEq, Repr

/-- How a ping is answered. -/
inductive PingAnswer
  | ack | wrongSeq | join | garbage
deriving DecidableEq, Repr

/-- The datagram that answers a ping, if it can be read. -/
def PingAnswer.datagram? (answer : PingAnswer) (owner : Member) (seq : UInt64) : Option Datagram :=
  match answer with
  | ack => some ⟨seq, ⟨.ack, owner⟩⟩
  | wrongSeq => some ⟨seq + 1000, ⟨.ack, owner⟩⟩
  | join => some ⟨seq, ⟨.join, owner⟩⟩
  | garbage => none

/-- A script that waits for a permit. -/
structure Waiter where
  /-- The place of the copy that listens to it, if one does. -/
  copy : Option Nat
  rest : List Deed
deriving DecidableEq, Repr

structure Peer where
  member : Member
  store : Store := { root := [] }
  conduct : Conduct := .plain
  /-- What it says its ring is. -/
  snapshot : Option Snapshot := none
  /-- The answers to each ping. -/
  pingAnswers : List PingAnswer := [.ack]
  coordinator : Option Coordinator := none
  /-- First messages of connections, last first. -/
  received : List Message := []
  /-- Connections that had a script. -/
  connections : Nat := 0
  permits : Nat := 0
  waiters : List Waiter := []

namespace Peer

def listens (p : Peer) : Bool :=
  match p.conduct with
  | .down => false
  | _ => true

/-- The script of the next connection. -/
def nextScript (p : Peer) (scripts : List (List Deed)) : List Deed :=
  (scripts[p.connections]?.or scripts.getLast?).getD []

end Peer

end ReplicaRing.Cluster
