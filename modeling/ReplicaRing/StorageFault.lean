import ReplicaRing.Fault

/-!
Why an operation on stored files fails.
-/
namespace ReplicaRing

inductive StorageFault
  | io (fault : IoFault)
  | exchange (fault : ExchangeFault)
  | invalidName (name : String)
  | noCoordinator
  | notFound (name : String)
  | putFailed (file : String)
  | unavailable (name : String)
  | rejected (answer : String)
deriving DecidableEq, Repr

namespace StorageFault

def message : StorageFault → String
  | io f => "i/o error: " ++ f.message
  | exchange f => f.message
  | invalidName name => "file name not allowed: " ++ name
  | noCoordinator => "no coordinator is known; retry once the election converges"
  | notFound name => "file not found: " ++ name
  | putFailed file => "put of " ++ file ++ " failed: no target stored the file"
  | unavailable name => "no holder could serve " ++ name
  | rejected answer => "coordinator replied " ++ answer

/-- The kind of a failed file operation, in one word. -/
def kind : StorageFault → String
  | io _ => "Io"
  | exchange f => f.kind
  | invalidName _ => "InvalidName"
  | noCoordinator => "NoCoordinator"
  | notFound _ => "NotFound"
  | putFailed _ => "PutFailed"
  | unavailable _ => "Unavailable"
  | rejected _ => "Rejected"

end StorageFault

end ReplicaRing
