import ReplicaRing.Disk.Writing

/-!
Receiving a file. Bytes are collected in a hidden sibling of the destination, which takes the place
of the destination when the stream has ended with the announced length. Until then the destination
is as it was.
-/
namespace ReplicaRing

/-- A file on its way in: the sibling that collects it, and how many bytes have come. -/
structure Inflow where
  handle : Handle
  received : Nat := 0
deriving DecidableEq, Repr

namespace Transfer

/-- Gives up: the sibling goes. -/
def abandon (d : Disk) (destination : FilePath) : Disk :=
  (d.remove destination.inTransit).toOption.getD d

/-- Makes the sibling that collects the bytes. -/
def start (d : Disk) (destination : FilePath) : Disk × Except IoFault Inflow :=
  match d.create destination.inTransit with
  | .ok (d, handle) => (d, .ok { handle })
  | .error fault => (abandon d destination, .error fault)

/-- Collects bytes behind those that have come. -/
def collect (d : Disk) (inflow : Inflow) (bytes : Bytes) : Disk × Inflow :=
  (d.writeAt inflow.handle inflow.received bytes,
    { inflow with received := inflow.received + bytes.length })

/-- The stream falls silent. The sibling stays. -/
def stall (d : Disk) (inflow : Inflow) : Disk := d.close inflow.handle

/-- The stream has ended. Whatever is where the sibling was made takes the place of the
destination. -/
def finish (d : Disk) (destination : FilePath) (announced : Option UInt64) (inflow : Inflow) :
    Disk × Except IoFault Nat :=
  let d := d.close inflow.handle
  let received := inflow.received
  match announced with
  | some n =>
    if n.toNat = received then settle d received
    else (abandon d destination, .error (.wrongLength received n.toNat))
  | none => settle d received
where
  settle (d : Disk) (received : Nat) : Disk × Except IoFault Nat :=
    match d.rename destination.inTransit destination with
    | .ok d => (d, .ok received)
    | .error fault => (d, .error fault)

/-- Receives a stream that ends after `bytes`. -/
def receive (d : Disk) (destination : FilePath) (announced : Option UInt64) (bytes : Bytes) :
    Disk × Except IoFault Nat :=
  match start d destination with
  | (d, .error fault) => (d, .error fault)
  | (d, .ok inflow) =>
    let (d, inflow) := collect d inflow bytes
    finish d destination announced inflow

end Transfer

end ReplicaRing
