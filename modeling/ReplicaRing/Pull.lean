import ReplicaRing.Exchange
import ReplicaRing.Transfer

/-!
Fetching a file, as the caller hears it: an acknowledgment, and if that is an `Ok`, the bytes of the
file until the other side closes. The bytes are on the disk as they come.
-/
namespace ReplicaRing

inductive Pull
  /-- The acknowledgment is not complete. -/
  | greeting (said : Bytes)
  | receiving (ack : FileMessage) (inflow : Inflow)
  | ended (result : Except ExchangeFault FileMessage)

namespace Pull

/-- Nothing has been heard. -/
def start : Pull := .greeting []

/-- The acknowledgment is complete, and bytes follow it. Only an `Ok` has bytes. -/
def acknowledge (d : Disk) (destination : FilePath) (ack : FileMessage) (rest : Bytes) :
    Disk × Pull :=
  if ack.isOk then
    match Transfer.start d destination with
    | (d, .error fault) => (d, .ended (.error (.io fault)))
    | (d, .ok inflow) =>
      let (d, inflow) := Transfer.collect d inflow rest
      (d, .receiving ack inflow)
  else (d, .ended (.ok ack))

/-- Bytes are heard. -/
def hear (d : Disk) (destination : FilePath) (bytes : Bytes) : Pull → Disk × Pull
  | greeting said =>
    match Wire.Frame.cut (said ++ bytes) with
    | .inHeader | .inBody => (d, greeting (said ++ bytes))
    | .tooLarge length => (d, ended (.error (.frameTooLarge length)))
    | .whole body rest =>
      match Wire.decode (α := FileMessage) body with
      | .ok ack => acknowledge d destination ack rest
      | .error fault => (d, ended (.error (.codec fault)))
  | receiving ack inflow =>
    let (d, inflow) := Transfer.collect d inflow bytes
    (d, receiving ack inflow)
  | ended result => (d, ended result)

/-- Nothing more is heard: the other side has closed, or it has fallen silent. -/
def finish (d : Disk) (destination : FilePath) (closed : Bool) : Pull →
    Disk × Except ExchangeFault FileMessage
  | greeting said => (d, Heard.reply ⟨said, closed⟩ .awaitingAcknowledgment)
  | receiving ack inflow =>
    if closed then
      let (d, received) := Transfer.finish d destination ack.size inflow
      (d, (received.map fun _ => ack).mapError .io)
    else (Transfer.stall d inflow, .error (.timeout .receivingFile))
  | ended result => (d, result)

end Pull

/-- Fetches a file from someone who says this. -/
def Heard.pull (h : Heard) (d : Disk) (destination : FilePath) :
    Disk × Except ExchangeFault FileMessage :=
  let (d, pull) := Pull.start.hear d destination h.bytes
  pull.finish d destination h.closed

end ReplicaRing
