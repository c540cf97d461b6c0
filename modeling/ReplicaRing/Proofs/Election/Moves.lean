import ReplicaRing.Election.Circuit
import ReplicaRing.Session

/-!
# Runs of an election in any order

A circuit hands tokens on first come, first served. Here anything may happen at any time: tokens
overtake each other, get lost or arrive twice, members are asked to start an election, hear that
another one is gone, or crash. A run is a list of such moves. A move that has no object (a token
place beyond the queue, a seat of a crashed member) changes nothing, so every list is a run.
-/
namespace ReplicaRing.Election

namespace Seat

/-- The member whose seat it is. -/
def name (s : Seat) : Member := s.elector.ring.owner

/-- The coordinator that the member knows. -/
def known (s : Seat) : Option Member := s.elector.ring.coordinator

end Seat

/-- One thing that happens. Members are named by their seats, tokens by their place in the queue. -/
inductive Move
  | initiate (seat : Nat)
  /-- Some removal is dealt with; the ring stays as it is. -/
  | restart (seat : Nat)
  | abort (seat : Nat)
  /-- A membership event arrives. -/
  | hear (seat : Nat) (event : Event)
  /-- The failure detector got no answer from the member. -/
  | suspect (seat : Nat) (m : Member)
  | deliver (place : Nat)
  | lose (place : Nat)
  | duplicate (place : Nat)
  | crash (seat : Nat)
deriving DecidableEq

namespace Circuit

/-- The members in the order of their seats. -/
def names (c : Circuit) : List Member := c.seats.map (·.name)

def liveAt (c : Circuit) (seat : Nat) : Bool := c.seats[seat]?.any (·.live)

/-- A crashed member does nothing. -/
def actLive (c : Circuit) (seat : Nat) (step : Elector → Elector × Action) : Circuit :=
  if c.liveAt seat then c.act seat step else c

def fulfil (seat : Nat) (c : Circuit) (duty : Session.Duty) : Circuit :=
  if duty = .stop then c.crash seat else c.actLive seat (Session.perform · duty)

/-- The member deals with an event as its session does, duty by duty. -/
def hear (c : Circuit) (seat : Nat) (event : Event) : Circuit :=
  match c.seats[seat]? with
  | none => c
  | some s => (Session.duties s.elector.ring event).foldl (fulfil seat) c

def suspect (c : Circuit) (seat : Nat) (m : Member) : Circuit :=
  if c.liveAt seat then c.remove seat m else c

/-- The token at `place` overtakes those before it. -/
def advance (c : Circuit) (place : Nat) : Circuit :=
  { c with queue := c.queue[place]?.toList ++ c.queue.eraseIdx place }

def deliverAt (c : Circuit) (place : Nat) : Circuit :=
  if place < c.queue.length then (c.advance place).deliverOne else c

def loseAt (c : Circuit) (place : Nat) : Circuit :=
  if place < c.queue.length then (c.advance place).drop else c

def duplicateAt (c : Circuit) (place : Nat) : Circuit :=
  { c with queue := c.queue ++ c.queue[place]?.toList }

def move (c : Circuit) : Move → Circuit
  | .initiate seat => c.actLive seat Elector.initiate
  | .restart seat => c.actLive seat Elector.onRemoved
  | .abort seat => c.actLive seat fun e => (e.abort, .ignore)
  | .hear seat event => c.hear seat event
  | .suspect seat m => c.suspect seat m
  | .deliver place => c.deliverAt place
  | .lose place => c.loseAt place
  | .duplicate place => c.duplicateAt place
  | .crash seat => c.crash seat

def run (c : Circuit) (moves : List Move) : Circuit := moves.foldl move c

/-- What a call to start an election returns, if the move is one. -/
def answer? (c : Circuit) : Move → Option Action
  | .initiate seat => (c.seats[seat]?.filter (·.live)).map fun s => s.elector.initiate.2
  | _ => none

/-- What the calls to start an election return, first first. -/
def answers (c : Circuit) : List Move → List Action
  | [] => []
  | mv :: moves => (c.answer? mv).toList ++ (c.move mv).answers moves

/-- How many tokens the calls to start an election send. -/
def launches (c : Circuit) (moves : List Move) : Nat :=
  (c.answers moves).countP (·.token?.isSome)

def delivers (c : Circuit) : Move → Bool
  | .deliver place => place < c.queue.length
  | _ => false

/-- How many tokens are delivered. -/
def deliveries (c : Circuit) : List Move → Nat
  | [] => 0
  | mv :: moves => (if c.delivers mv then 1 else 0) + (c.move mv).deliveries moves

/-- The member that an entry reports as winner. -/
def winner? (names : List Member) : Entry → Option Member
  | .acted seat (.won _) => names[seat]?
  | _ => none

/-- The members that have won, first first. -/
def winners (c : Circuit) : List Member := c.trace.filterMap (winner? c.names)

/-- `m` knows `l` as the coordinator. -/
def Knows (c : Circuit) (m l : Member) : Prop := ∃ s ∈ c.seats, s.name = m ∧ s.known = some l

instance (c : Circuit) (m l : Member) : Decidable (c.Knows m l) :=
  inferInstanceAs (Decidable (∃ s ∈ c.seats, _))

/-- Every member of `S` is at its seat and has all of `S` in its ring, nobody knows a coordinator
and nothing has happened yet. The flags are arbitrary. -/
structure Fresh (S : MemberSet) (c : Circuit) : Prop where
  names : c.names.Perm S.toList
  live : ∀ s ∈ c.seats, s.live = true
  members : ∀ s ∈ c.seats, s.elector.ring.members = S
  unknown : ∀ s ∈ c.seats, s.known = none
  queue : c.queue = []
  log : c.log = []

end Circuit

namespace Move

/-- A call to start an election, or a delivery. -/
def plain : Move → Bool
  | initiate _ | deliver _ => true
  | _ => false

/-- Anything that leaves all members where they are. -/
def keepsRings : Move → Bool
  | initiate _ | restart _ | abort _ | deliver _ | lose _ | duplicate _ => true
  | _ => false

/-- The member at `seat` is told, or finds out, that `m` is gone. -/
def RemovesAt (seat : Nat) (m : Member) (mv : Move) : Prop :=
  mv = hear seat ⟨.leave, m⟩ ∨ mv = hear seat ⟨.crash, m⟩ ∨ mv = suspect seat m

instance (seat : Nat) (m : Member) (mv : Move) : Decidable (RemovesAt seat m mv) :=
  inferInstanceAs (Decidable (_ ∨ _ ∨ _))

end Move

end ReplicaRing.Election
