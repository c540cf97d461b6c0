import ReplicaRing.Election

/-!
Electors that hand tokens to each other. Tokens wait in one queue and are delivered first come,
first served. A token that no live member can take aborts the election of its sender.
-/
namespace ReplicaRing.Election

structure Seat where
  elector : Elector
  live : Bool := true
deriving DecidableEq, Repr

/-- One thing that happened. Members are named by their seats. -/
inductive Entry
  | acted (seat : Nat) (action : Action)
  | undeliverable (seat : Nat)
  | crashed (seat : Nat)
  /-- The receiver is gone. -/
  | lost (token : Token)
  /-- The token at the head of the queue, if there is one, is thrown away. -/
  | dropped (token : Option Token)
deriving DecidableEq, Repr

structure Circuit where
  seats : List Seat
  /-- Tokens on their way, each with the seat that it goes to. -/
  queue : List (Nat × Token) := []
  /-- What happened, last first. -/
  log : List Entry := []
  wins : Nat := 0
deriving DecidableEq, Repr

namespace Circuit

/-- Every member's ring holds all members, and nobody knows a coordinator. -/
def ofMembers (members : List Member) : Circuit :=
  ⟨members.map fun m => ⟨{ ring := (Ring.alone m).addAll members }, true⟩, [], [], 0⟩

def setElector (c : Circuit) (seat : Nat) (e : Elector) : Circuit :=
  { c with seats := c.seats.modify seat fun s => { s with elector := e } }

def record (c : Circuit) (entry : Entry) : Circuit := { c with log := entry :: c.log }

/-- The seat of a member that is live. -/
def liveSeat? (c : Circuit) (m : Member) : Option Nat :=
  (c.seats.findIdx? (·.elector.ring.owner == m)).filter fun seat => c.seats[seat]?.any (·.live)

/-- The member at `seat` acts: a token goes to the live successor, or the election is aborted. -/
def perform (c : Circuit) (seat : Nat) (e : Elector) (action : Action) : Circuit :=
  let c := (c.setElector seat e).record (.acted seat action)
  let c := if action.isWon then { c with wins := c.wins + 1 } else c
  match action.token? with
  | none => c
  | some token =>
    match e.ring.successor?.bind c.liveSeat? with
    | some next => { c with queue := c.queue ++ [(next, token)] }
    | none => (c.setElector seat e.abort).record (.undeliverable seat)

/-- The member at `seat` takes a step of the election. -/
def act (c : Circuit) (seat : Nat) (step : Elector → Elector × Action) : Circuit :=
  match c.seats[seat]? with
  | none => c
  | some s =>
    let (e, action) := step s.elector
    c.perform seat e action

/-- Takes the first token off the queue and hands it over. -/
def deliverOne (c : Circuit) : Circuit :=
  match c.queue with
  | [] => c
  | (seat, token) :: queue =>
    let c := { c with queue }
    match c.seats[seat]? with
    | none => c
    | some s => if s.live then c.act seat (·.onToken token) else c.record (.lost token)

/-- At most `n` deliveries. -/
def deliver (c : Circuit) : Nat → Circuit
  | 0 => c
  | n + 1 => if c.queue.isEmpty then c else c.deliverOne.deliver n

def drop (c : Circuit) : Circuit :=
  { c with queue := c.queue.tail }.record (.dropped (c.queue.head?.map Prod.snd))

def crash (c : Circuit) (seat : Nat) : Circuit :=
  { c with seats := c.seats.modify seat fun s => { s with live := false } }.record (.crashed seat)

/-- The member at `seat` removes another, and performs what follows if it knew it. -/
def remove (c : Circuit) (seat : Nat) (m : Member) : Circuit :=
  match c.seats[seat]? with
  | none => c
  | some s => if (s.elector.ring.remove m).2 then c.act seat (·.remove m) else c

/-- The ring of the member at `seat` changes; no step of the election follows. -/
def updateRing (c : Circuit) (seat : Nat) (change : Ring → Ring) : Circuit :=
  { c with seats := c.seats.modify seat fun s =>
      { s with elector := { s.elector with ring := change s.elector.ring } } }

/-- What happened, first first. -/
def trace (c : Circuit) : List Entry := c.log.reverse

end Circuit

end ReplicaRing.Election
