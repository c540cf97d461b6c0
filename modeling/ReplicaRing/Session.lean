import ReplicaRing.Coordinator
import ReplicaRing.Detector
import ReplicaRing.Election
import ReplicaRing.Store

/-!
A member from joining to leaving, and what it has to do when a membership event arrives. An event
becomes duties, done one after the other: each changes the member's view of the ring and may be a
step of the election. A member that its ring names as coordinator runs the role, from then until it
leaves.
-/
namespace ReplicaRing

/-- Why a member cannot do what it is told. -/
inductive MembershipFault
  | io (fault : IoFault)
  | storage (fault : StorageFault)
  | alreadyJoined (identity : Member)
  | notJoined
  | introducerUnreachable (address : String) (fault : ExchangeFault)
  | joinFailed (via : Member) (fault : ExchangeFault)
deriving DecidableEq, Repr

def MembershipFault.message : MembershipFault → String
  | io f => "i/o error: " ++ f.message
  | storage f => f.message
  | alreadyJoined m => "already joined as " ++ m.display
  | notJoined => "not joined to a group"
  | introducerUnreachable address f => "introducer " ++ address ++ " unreachable: " ++ f.message
  | joinFailed via f => "join via " ++ via.display ++ " failed: " ++ f.message

/-- What a member has while it is joined. -/
structure Session where
  elector : Elector
  store : Store
  detector : Detector
  /-- The role of the coordinator, if it runs. -/
  role : Option Coordinator := none

namespace Session

def ring (s : Session) : Ring := s.elector.ring

def identity (s : Session) : Member := s.ring.owner

inductive Duty
  | add (m : Member)
  | remove (m : Member)
  | token (t : Election.Token)
  | startElection
  /-- Leave without a word. -/
  | stop
deriving DecidableEq, Repr

/-- What an event asks of the member that owns the ring. A joiner replaces every other incarnation
at its endpoint. Nobody else's word removes the owner; a report of its own crash stops it. -/
def duties (ring : Ring) (event : Event) : List Duty :=
  let m := event.subject
  match event.kind with
  | .join =>
    ((ring.toList.filter fun known => known.sameEndpoint m ∧ known ≠ m).map .remove) ++ [.add m]
  | .leave => if m = ring.owner then [] else [.remove m]
  | .crash => if m = ring.owner then [.stop] else [.remove m]
  | .electionId => [.token (.candidate m)]
  | .elected => [.token (.elected m)]
  | .ping | .ack | .memberListRequest | .introducerCheckAlive => []

/-- Does one duty. -/
def perform (e : Elector) : Duty → Elector × Election.Action
  | .add m => ({ e with ring := (e.ring.add m).1 }, .ignore)
  | .remove m => e.remove m
  | .token t => e.onToken t
  | .startElection => e.initiate
  | .stop => (e, .ignore)

/-- The members that a round of the failure detector pings. -/
def targets (ring : Ring) (monitors : Nat) : List Member := ring.successors monitors

/-- The ring of a member that joins: its own if it founds the group, else a copy of another's. -/
def initialRing (identity : Member) : Option Snapshot → Ring
  | none => ((Ring.alone identity).setCoordinator identity).1
  | some snapshot => Ring.ofSnapshot identity snapshot

end Session

end ReplicaRing
