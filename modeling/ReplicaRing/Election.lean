import ReplicaRing.Message

/-!
Election of the coordinator by tokens that go around the ring. A member without a coordinator sends
itself as candidate to its successor. Each receiver passes on the higher of the candidate and
itself, so a candidate that comes back to its own member is the highest of the ring: that member
has won, and its name goes around once more. A token can be lost with the member that holds it;
the removal of a member, or `stallLimit` attempts in a row to start, send a new one.
-/
namespace ReplicaRing

namespace Election

/-- What goes around the ring. -/
inductive Token
  | candidate (member : Member)
  | elected (leader : Member)
deriving DecidableEq, Repr

namespace Token

def event : Token → Event
  | candidate m => ⟨.electionId, m⟩
  | elected m => ⟨.elected, m⟩

end Token

/-- What a member does after a step of the election. -/
inductive Action
  | ignore
  /-- Send the token to the successor. -/
  | forward (token : Token)
  /-- The member is coordinator now, and announces it if someone waits for the outcome. -/
  | won (announce : Option Token)
deriving DecidableEq, Repr

namespace Action

/-- The token that goes to the successor. -/
def token? : Action → Option Token
  | ignore => none
  | forward t => some t
  | won announce => announce

def isWon : Action → Bool
  | won _ => true
  | _ => false

end Action

/-- Attempts in a row after which an election in progress counts as lost. -/
def stallLimit : Nat := 5

end Election

/-- A member in an election: its ring, whether it waits for an outcome, and how many attempts to
start another election it has held back since. -/
structure Elector where
  ring : Ring
  inProgress : Bool := false
  stalled : Nat := 0
deriving DecidableEq, Repr

namespace Elector

open Election

/-- Forgets the election in progress. -/
def abort (e : Elector) : Elector :=
  { e with inProgress := false, stalled := 0 }

/-- Takes the role of the coordinator. -/
def lead (e : Elector) : Elector :=
  { e with ring := (e.ring.setCoordinator e.ring.owner).1 }.abort

/-- Starts an election if no coordinator is known. A member without successor wins at once. -/
def initiate (e : Elector) : Elector × Action :=
  if e.ring.coordinator.isSome then (e, .ignore)
  else if !e.ring.hasSuccessor then (e.lead, .won none)
  else if e.inProgress ∧ e.stalled + 1 < stallLimit then
    ({ e with stalled := e.stalled + 1 }, .ignore)
  else ({ e with inProgress := true, stalled := 0 }, .forward (.candidate e.ring.owner))

/-- Starts over after a member has left, because it may have held the token. -/
def onRemoved (e : Elector) : Elector × Action :=
  if e.ring.coordinator.isSome then (e, .ignore) else e.abort.initiate

/-- A candidate arrives. A candidate that left the ring is replaced as a lower one is. -/
def onCandidate (e : Elector) (m : Member) : Elector × Action :=
  if e.ring.coordinator.isSome then (e, .ignore)
  else if m = e.ring.owner then (e.lead, .won (some (.elected m)))
  else if m < e.ring.owner ∨ !e.ring.contains m then
    ({ e with inProgress := true }, .forward (.candidate e.ring.owner))
  else ({ e with inProgress := true }, .forward (.candidate m))

/-- The outcome arrives. It goes on to the successor until a member knows it already. -/
def onElected (e : Elector) (leader : Member) : Elector × Action :=
  if e.ring.coordinator.isSome then (e, .ignore)
  else
    let (ring, known) := e.ring.setCoordinator leader
    let e := { e with ring }.abort
    if !known then (e, .ignore)
    else if ring.isCoordinator then (e, .won none)
    else (e, .forward (.elected leader))

def onToken (e : Elector) : Token → Elector × Action
  | .candidate m => e.onCandidate m
  | .elected m => e.onElected m

/-- Removes a member. If it was there, the election may start over. -/
def remove (e : Elector) (m : Member) : Elector × Action :=
  let (ring, removed) := e.ring.remove m
  let e := { e with ring }
  if removed then e.onRemoved else (e, .ignore)

end Elector

end ReplicaRing
