import ReplicaRing.MemoryStores
import ReplicaRing.Ring

/-!
A coordinator at work with stores that are kept in memory, and the ring that it reads.
-/
namespace ReplicaRing

structure MemoryGroup where
  ring : Ring
  coordinator : Coordinator
  stores : MemoryStores
  /-- The deletions that the last request ordered. -/
  deletes : List (Member × String) := []

namespace MemoryGroup

/-- Forgets what was noted down of earlier steps. -/
def fresh (g : MemoryGroup) : MemoryGroup :=
  { g with deletes := [], stores := { g.stores with ordered := [] } }

/-- A new coordinator takes over and recovers. -/
def restart (g : MemoryGroup) : MemoryGroup :=
  let (coordinator, stores) :=
    (Coordinator.recover g.coordinator.placement MemoryStores.network g.ring.toList).run g.stores
  { g with coordinator, stores }

/-- Serves a request and carries out the deletions that it orders. -/
def handle (g : MemoryGroup) (request : FileMessage) : MemoryGroup × Option FileMessage :=
  let (coordinator, response) := g.coordinator.handle g.ring.toList request
  let stores := response.deletes.foldl (fun s (m, name) => s.remove m name) g.stores
  ({ g with coordinator, stores, deletes := response.deletes }, response.reply)

/-- One repair pass. -/
def repair (g : MemoryGroup) : MemoryGroup × RepairReport :=
  let ((coordinator, report), stores) :=
    (g.coordinator.repair MemoryStores.network g.ring.toList).run g.stores
  ({ g with coordinator, stores }, report)

/-- So many repair passes. -/
def repairs (g : MemoryGroup) : Nat → MemoryGroup
  | 0 => g
  | n + 1 => g.repair.1.repairs n

def updateRing (g : MemoryGroup) (change : Ring → Ring × Bool) : MemoryGroup × Bool :=
  let (ring, changed) := change g.ring
  ({ g with ring }, changed)

def updateStores {α : Type} (g : MemoryGroup) (change : MemoryStores → MemoryStores × α) :
    MemoryGroup × α :=
  let (stores, x) := change g.stores
  ({ g with stores }, x)

/-- The ordered deletions, by holder. -/
def deleteOrders (g : MemoryGroup) : List (Member × String) :=
  g.deletes.mergeSort fun a b =>
    (compareLex (compareOn Prod.fst) (compareOn Prod.snd) a b).isLE

/-- The ordered copies, by target. -/
def copyOrders (g : MemoryGroup) : List CopyOrder :=
  g.stores.ordered.mergeSort fun a b =>
    (compareLex (compareOn CopyOrder.target) (compareLex (compareOn CopyOrder.storedName)
      (compareOn CopyOrder.holders)) a b).isLE

end MemoryGroup

end ReplicaRing
