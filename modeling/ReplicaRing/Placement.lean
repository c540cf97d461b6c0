import ReplicaRing.Arrangement

/-!
Which members receive copies. A new version goes to the first `factor` members of some order, and a
version that lacks copies to as many members that hold none.
-/
namespace ReplicaRing

structure Placement where
  /-- The number of holders that a version should have. -/
  factor : Nat := 4
  arrangement : Arrangement := .asGiven

namespace Placement

/-- What this way of placing copies is called. -/
def strategy : String := "RandomPlacement"

def putTargets (p : Placement) (name : String) (members : List Member) : List Member :=
  (p.arrangement.order name members).take p.factor

/-- The members that could hold one more copy. -/
def candidates (members : List Member) (holders : MemberSet) : List Member :=
  members.filter (!holders.contains ·)

def repairTargets (p : Placement) (name : String) (members : List Member) (holders : MemberSet) :
    List Member :=
  (p.arrangement.order name (candidates members holders)).take (p.factor - holders.size)

/-- What can be said of a choice of targets, whichever order it was made in. -/
structure Choice where
  count : Nat
  /-- Every target is a member. -/
  subset : Bool
  /-- No target is a holder. -/
  disjoint : Bool
  /-- The targets in ring order, if every candidate is one. -/
  all : Option (List Member)
deriving DecidableEq, Repr

/-- Judges `targets`, chosen among `candidates`, against the members and the holders. -/
def judge (targets candidates members : List Member) (holders : MemberSet) : Choice :=
  { count := targets.length
    subset := targets.all members.contains
    disjoint := targets.all (!holders.contains ·)
    all :=
      if targets.length = candidates.length then some (targets.mergeSort (compare · · |>.isLE))
      else none }

end Placement

end ReplicaRing
