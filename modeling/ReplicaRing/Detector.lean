import ReplicaRing.Message

/-!
The failure detector. Every ping carries a number of its own. A ping succeeds if an acknowledgment
with its number arrives while it is outstanding; later acknowledgments are dropped.
-/
namespace ReplicaRing

structure Detector where
  owner : Member
  nextSeq : UInt64 := 1
  /-- The numbers of the pings that are outstanding and not acknowledged. -/
  pending : Std.ExtTreeSet UInt64 compare := ∅
  /-- A closed detector sends no ping. -/
  isOpen : Bool := true
deriving DecidableEq, Repr

/-- What the detector does with a datagram. -/
inductive DatagramEffect
  | none
  | reply (datagram : Datagram)
  /-- The ping with this number succeeds. -/
  | acknowledged (seq : UInt64)
deriving DecidableEq, Repr

namespace Detector

/-- Starts a ping: its number, and the datagram to send unless the detector is closed. -/
def beginPing (d : Detector) : Detector × UInt64 × Option Datagram :=
  ({ d with nextSeq := d.nextSeq + 1, pending := d.pending.insert d.nextSeq }, d.nextSeq,
    if d.isOpen then some ⟨d.nextSeq, ⟨.ping, d.owner⟩⟩ else none)

/-- Ends a ping, acknowledged or not. -/
def endPing (d : Detector) (seq : UInt64) : Detector := { d with pending := d.pending.erase seq }

/-- A datagram arrives. Pings are acknowledged under their number. -/
def receive (d : Detector) (datagram : Datagram) : Detector × DatagramEffect :=
  match datagram.event.kind with
  | .ping => (d, .reply ⟨datagram.seq, ⟨.ack, d.owner⟩⟩)
  | .ack =>
    if d.pending.contains datagram.seq then
      ({ d with pending := d.pending.erase datagram.seq }, .acknowledged datagram.seq)
    else (d, .none)
  | _ => (d, .none)

/-- Datagrams arrive while the ping with number `seq` is outstanding. The result says whether one
of them acknowledges it. -/
def hear (d : Detector) (seq : UInt64) (datagrams : List Datagram) : Detector × Bool :=
  datagrams.foldl
    (fun (d, acked) datagram =>
      let (d, effect) := d.receive datagram
      (d, acked || effect == .acknowledged seq))
    (d, false)

/-- Datagrams arrive while no ping is outstanding. The result is what is sent back. -/
def answers (d : Detector) (datagrams : List Datagram) : Detector × List Datagram :=
  datagrams.foldl
    (fun (d, sent) datagram =>
      match d.receive datagram with
      | (d, .reply reply) => (d, sent ++ [reply])
      | (d, _) => (d, sent))
    (d, [])

def close (d : Detector) : Detector := { d with isOpen := false }

end Detector

end ReplicaRing
