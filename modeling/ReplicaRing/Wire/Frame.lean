import ReplicaRing.Wire.Codec

/-!
Frames on a stream: a length of four bytes, highest first, and a body of that length. A body has a
limit. What follows a frame stays on the stream, so that the bytes of a file can follow it.
-/
namespace ReplicaRing.Wire

namespace Frame

/-- The longest body of a frame. -/
def maxBody : Nat := 16 * 1024 * 1024

/-- The longest datagram that is received. -/
def maxDatagram : Nat := 64 * 1024

/-- The length of a body as it stands before it. -/
def header (length : Nat) : Bytes := (littleEndian 4 length).reverse

/-- The length of the frame of a body of the given length. -/
def lengthFor (bodyLength : Nat) : Except ExchangeFault Nat :=
  if bodyLength ≤ maxBody then .ok (4 + bodyLength) else .error (.frameTooLarge bodyLength)

def ofBody (body : Bytes) : Except ExchangeFault Bytes :=
  (lengthFor body.length).map fun _ => header body.length ++ body

def encode {α : Type} [Codec α] (x : α) : Except ExchangeFault Bytes :=
  ofBody (Wire.encode x)

/-- The frame of a value, or nothing if the value is too long for one. -/
def bytes {α : Type} [Codec α] (x : α) : Bytes := (encode x).toOption.getD []

/-- How the front of a stream is cut. -/
inductive Cut
  /-- A whole body and the bytes behind it. -/
  | whole (body rest : Bytes)
  /-- The length is not complete. -/
  | inHeader
  /-- The body is not complete. -/
  | inBody
  | tooLarge (length : Nat)
deriving DecidableEq, Repr

def cut (stream : Bytes) : Cut :=
  let front := stream.take 4
  if front.length < 4 then .inHeader
  else
    let length := ofLittleEndian front.reverse
    if maxBody < length then .tooLarge length
    else
      let rest := stream.drop 4
      let body := rest.take length
      if body.length < length then .inBody else .whole body (rest.drop length)

/-- Reads a frame off a stream that ends where the bytes end. -/
def read {α : Type} [Codec α] (stream : Bytes) : Except ExchangeFault (α × Bytes) :=
  match cut stream with
  | .inHeader => .error (.io .endOfFile)
  | .inBody => .error (.io .earlyEnd)
  | .tooLarge length => .error (.frameTooLarge length)
  | .whole body rest =>
    match decode body with
    | .ok x => .ok (x, rest)
    | .error fault => .error (.codec fault)

/-- Reads at most so many frames, until no bytes are left, and returns what follows them. -/
def readMany {α : Type} [Codec α] : Nat → Bytes → Except ExchangeFault (List α × Bytes)
  | 0, stream => .ok ([], stream)
  | _ + 1, [] => .ok ([], [])
  | n + 1, stream => do
    let (x, rest) ← read stream
    let (xs, rest) ← readMany n rest
    return (x :: xs, rest)

end Frame

/-- A datagram has no length in front. -/
def encodeDatagram (d : Datagram) : Bytes := encode d

def decodeDatagram (bytes : Bytes) : Except ExchangeFault Datagram :=
  (decode bytes).mapError .codec

end ReplicaRing.Wire
