import ReplicaRing.Member

/-!
The membership ring as one member sees it: the live members in ring order, the owner of the view
and the coordinator, if one is known. The operations keep the owner and the coordinator among the
members. Neighbours are found by stepping to the next member in order, from the last to the first.
-/
namespace ReplicaRing

/-- A ring as it is handed to a joining member. -/
structure Snapshot where
  members : List Member := []
  coordinator : Option Member := none
deriving DecidableEq, Repr, Inhabited

structure Ring where
  members : MemberSet
  owner : Member
  coordinator : Option Member
deriving DecidableEq, Repr

namespace Ring

/-- The ring of a member that knows nobody else. -/
def alone (owner : Member) : Ring :=
  ⟨(∅ : MemberSet).insert owner, owner, none⟩

/-- The members in ring order. -/
def toList (r : Ring) : List Member := r.members.toList

def size (r : Ring) : Nat := r.members.size

def contains (r : Ring) (m : Member) : Bool := r.members.contains m

/-- Adds a member and says whether it is new. -/
def add (r : Ring) (m : Member) : Ring × Bool :=
  (⟨r.members.insert m, r.owner, r.coordinator⟩, !r.contains m)

def addAll (r : Ring) (ms : List Member) : Ring :=
  ms.foldl (fun r m => (r.add m).1) r

/-- Removes a member, never the owner, and says whether it was there. A removed coordinator is
forgotten. -/
def remove (r : Ring) (m : Member) : Ring × Bool :=
  if m = r.owner then (r, false)
  else
    (⟨r.members.erase m, r.owner, if r.coordinator = some m then none else r.coordinator⟩,
      r.contains m)

/-- Records a coordinator if it is a member, and says whether it is. -/
def setCoordinator (r : Ring) (m : Member) : Ring × Bool :=
  if r.contains m then (⟨r.members, r.owner, some m⟩, true) else (r, false)

def isCoordinator (r : Ring) : Bool := r.coordinator == some r.owner

/-- The ring that `owner` builds from a snapshot. Other incarnations at the owner's endpoint are
gone, and a coordinator that is not a member is not known. -/
def ofSnapshot (owner : Member) (s : Snapshot) : Ring :=
  let ring := s.members.foldl
    (fun r m => if m.sameEndpoint owner ∧ m ≠ owner then r else (r.add m).1) (alone owner)
  match s.coordinator with
  | some c => (ring.setCoordinator c).1
  | none => ring

def snapshot (r : Ring) : Snapshot := ⟨r.toList, r.coordinator⟩

/-- The next member in ring order; after the last one comes the first. -/
def next? (r : Ring) (m : Member) : Option Member :=
  (r.toList.find? (m < ·)).or r.toList.head?

/-- At most `k` steps around the ring, ending before the owner. -/
def walk (r : Ring) : Nat → Member → List Member
  | 0, _ => []
  | k + 1, m =>
    match r.next? m with
    | some next => if next = r.owner then [] else next :: r.walk k next
    | none => []

/-- The `n` members that follow the owner, or all others if there are fewer. -/
def successors (r : Ring) (n : Nat) : List Member :=
  r.walk (min n (r.size - 1)) r.owner

def successor? (r : Ring) : Option Member := (r.successors 1).head?

def hasSuccessor (r : Ring) : Bool := 1 < r.size

/-- The last member before the owner, else the last member of all, unless the owner is alone. -/
def predecessor? (r : Ring) : Option Member :=
  match (r.toList.filter (· < r.owner)).getLast?.or r.toList.getLast? with
  | some m => if m = r.owner then none else some m
  | none => none

end Ring

end ReplicaRing
