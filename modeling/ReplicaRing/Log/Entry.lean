import ReplicaRing.Log.Level

/-!
An entry of the log: which part of the program it comes from, how weighty it is, what it says, and
fields with values.
-/
namespace ReplicaRing.Log

structure Entry where
  part : String
  level : Level
  text : String
  fields : List (String × String) := []
deriving DecidableEq, Repr

namespace Entry

/-- The field that holds the text of an entry. -/
def textField : String := "message"

/-- Whether an entry has a field. Its text counts as one. -/
def hasField (e : Entry) (name : String) : Bool :=
  name == textField || e.fields.any (·.1 == name)

/-- The line that an entry makes in the log. -/
def line (e : Entry) : String :=
  let fields := e.fields.map fun (name, value) => " " ++ name ++ "=" ++ value
  e.level.name ++ " " ++ e.part ++ ": " ++ e.text ++ String.join fields ++ "\n"

end Entry

end ReplicaRing.Log
