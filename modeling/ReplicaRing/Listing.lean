import ReplicaRing.Ring

/-!
The members of a ring as a table. Columns are filled with blanks to a number of characters; a
longer text is not cut.
-/
namespace ReplicaRing.Listing

/-- `text` with blanks behind it, at least `width` characters in all. -/
def pad (width : Nat) (text : String) : String :=
  text ++ "".pushn ' ' (width - text.length)

/-- A line of the table without its last column. -/
def columns (host port joined : String) : String :=
  pad 24 host ++ pad 8 port ++ pad 16 joined

def memberColumns (m : Member) : String :=
  columns m.host m.port.toNat.repr m.joinedAt.toNat.repr

def heading : String := columns "Host" "Port" "Joined (ms)"

def rule : String := "".pushn '-' 56

/-- The last column says who reads the table and who coordinates. -/
def tags (owner : Member) (coordinator : Option Member) (m : Member) : String :=
  ", ".intercalate <|
    (if m = owner then ["self"] else []) ++ (if coordinator = some m then ["coordinator"] else [])

def text (owner : Member) (s : Snapshot) : String :=
  "\n".intercalate <|
    heading :: rule :: s.members.map fun m => memberColumns m ++ tags owner s.coordinator m

end ReplicaRing.Listing
