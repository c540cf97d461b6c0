import ReplicaRing.Coordinator

/-!
Stores kept in memory, as a network for a coordinator. A store holds names only. It can be told to
withhold its catalog, and to give a fixed answer to copy orders. Copy orders are noted down.
-/
namespace ReplicaRing

/-- How a store answers copy orders. -/
inductive CopyManner
  /-- It takes the copy if it lacks it. -/
  | honest
  | silent
  /-- It gives one answer and takes no copy. -/
  | fixed (answer : FileKind)
deriving DecidableEq, Repr

structure MemoryStore where
  names : NameSet := ∅
  catalogSilent : Bool := false
  copies : CopyManner := .honest
deriving DecidableEq, Repr

structure MemoryStores where
  stores : Std.ExtTreeMap Member MemoryStore compare := ∅
  /-- The copy orders noted down, last first. -/
  ordered : List CopyOrder := []
deriving DecidableEq, Repr

namespace MemoryStores

def store (s : MemoryStores) (m : Member) : MemoryStore := s.stores.getD m {}

def update (s : MemoryStores) (m : Member) (change : MemoryStore → MemoryStore) : MemoryStores :=
  { s with stores := s.stores.insert m (change (s.store m)) }

/-- Adds a name and says whether it is new. -/
def add (s : MemoryStores) (m : Member) (name : String) : MemoryStores × Bool :=
  (s.update m fun st => { st with names := st.names.insert name }, !(s.store m).names.contains name)

def remove (s : MemoryStores) (m : Member) (name : String) : MemoryStores :=
  s.update m fun st => { st with names := st.names.erase name }

def catalog (s : MemoryStores) (m : Member) : Option NameSet :=
  if (s.store m).catalogSilent then none else some (s.store m).names

def copy (s : MemoryStores) (order : CopyOrder) : MemoryStores × Option FileKind :=
  let s := { s with ordered := order :: s.ordered }
  match (s.store order.target).copies with
  | .silent => (s, none)
  | .fixed answer => (s, some answer)
  | .honest =>
    let (s, new) := s.add order.target order.storedName
    (s, some (if new then .ok else .fileExists))

def network : StoreNetwork (StateM MemoryStores) where
  catalog m := return (← get).catalog m
  copy order := modifyGet fun s => let (s, answer) := s.copy order; (answer, s)

end MemoryStores

end ReplicaRing
