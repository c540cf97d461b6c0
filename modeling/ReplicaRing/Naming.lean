import ReplicaRing.Listing

/-!
Names for members. A reader knows members by name and not by where they listen and when they
joined. Some members keep one name; others join again and again, and each time they are a new
incarnation, numbered from one. A name without a number means the last incarnation.
-/
namespace ReplicaRing

structure Naming where
  fixed : List (String × Member) := []
  /-- Incarnations in the order of their joining. -/
  incarnations : List (String × Member) := []
deriving DecidableEq, Repr

namespace Naming

/-- How many of the first `k` incarnations have a name. -/
def count (n : Naming) (name : String) (k : Nat) : Nat :=
  ((n.incarnations.take k).filter (·.1 == name)).length

/-- Every member with its full name. -/
def all (n : Naming) : List (String × Member) :=
  n.fixed ++ n.incarnations.mapIdx fun i (name, m) =>
    (name ++ "#" ++ (n.count name (i + 1)).repr, m)

def member? (n : Naming) (name : String) : Option Member :=
  (n.all.lookup name).or (n.incarnations.reverse.lookup name)

def name? (n : Naming) (m : Member) : Option String :=
  (n.all.find? (·.2 == m)).map (·.1)

/-- Adds an incarnation, unless it is known. -/
def join (n : Naming) (name : String) (m : Member) : Naming :=
  if (n.name? m).isSome then n else { n with incarnations := n.incarnations ++ [(name, m)] }

/-- A text with names in place of lines of the table of members, of members, and of their addresses.
A long text is looked for before a short one that it may contain. -/
def inText (n : Naming) (text : String) : String :=
  let known := n.all.mergeSort fun a b => b.2.display.length ≤ a.2.display.length
  let put (shown : Member → String) (tag text : String) : String :=
    known.foldl (fun text (name, m) => text.replace (shown m) ("<" ++ name ++ tag ++ ">")) text
  put Member.address " address" (put Member.display "" (put Listing.memberColumns "" text))

end Naming

end ReplicaRing
