import ReplicaRing.Bytes
import ReplicaRing.Fault
import ReplicaRing.Message

/-!
The encoding of values as bytes. Integers are little-endian words of fixed width, a text is its
length and its UTF-8 bytes, lists, sets and maps are a length and their elements, an option is a
tag byte and a value, a variant is a 32-bit tag, and a structure is its fields in order. A reader
takes one value off the front of some bytes; the first field that fails decides the fault.
-/
namespace ReplicaRing.Wire

/-- Takes a value off the front and returns the bytes behind it. -/
abbrev Reader (α : Type) := Bytes → Except DecodeFault (α × Bytes)

class Codec (α : Type) where
  encode : α → Bytes
  read : Reader α

export Codec (encode read)

/-- The lowest `k` bytes of a number, lowest first. -/
def littleEndian : Nat → Nat → Bytes
  | 0, _ => []
  | k + 1, n => UInt8.ofNat n :: littleEndian k (n / 256)

/-- The number whose bytes these are, lowest first. -/
def ofLittleEndian : Bytes → Nat
  | [] => 0
  | b :: rest => b.toNat + 256 * ofLittleEndian rest

/-- A word of `k` bytes. -/
def readWord (k : Nat) : Reader Nat := fun bytes =>
  let front := bytes.take k
  if front.length < k then .error .cutShort else .ok (ofLittleEndian front, bytes.drop k)

/-- `n` values one after the other. -/
def readMany {α : Type} (reader : Reader α) : Nat → Reader (List α)
  | 0, bytes => .ok ([], bytes)
  | n + 1, bytes => do
    let (x, bytes) ← reader bytes
    let (xs, bytes) ← readMany reader n bytes
    .ok (x :: xs, bytes)

instance : Codec UInt16 where
  encode n := littleEndian 2 n.toNat
  read bytes := do
    let (n, rest) ← readWord 2 bytes
    .ok (UInt16.ofNat n, rest)

instance : Codec UInt64 where
  encode n := littleEndian 8 n.toNat
  read bytes := do
    let (n, rest) ← readWord 8 bytes
    .ok (UInt64.ofNat n, rest)

instance : Codec String where
  encode s := encode (UInt64.ofNat s.utf8ByteSize) ++ Text.Utf8.encode s
  read bytes := do
    let (n, bytes) ← read (α := UInt64) bytes
    let front := bytes.take n.toNat
    if front.length < n.toNat then .error .textCutShort
    else
      match Text.Utf8.decode front with
      | .ok s => .ok (s, bytes.drop n.toNat)
      | .error fault => .error (.badText fault)

instance {α : Type} [Codec α] : Codec (List α) where
  encode xs := encode (UInt64.ofNat xs.length) ++ xs.flatMap encode
  read bytes := do
    let (n, bytes) ← read (α := UInt64) bytes
    readMany read n.toNat bytes

instance {α : Type} [Codec α] : Codec (Option α) where
  encode
    | none => [0]
    | some x => 1 :: encode x
  read
    | [] => .error .cutShort
    | tag :: rest =>
      if tag = 0 then .ok (none, rest)
      else if tag = 1 then do
        let (x, rest) ← read rest
        .ok (some x, rest)
      else .error (.badOptionTag tag.toNat)

instance {α β : Type} [Codec α] [Codec β] : Codec (α × β) where
  encode p := encode p.1 ++ encode p.2
  read bytes := do
    let (x, bytes) ← read bytes
    let (y, bytes) ← read bytes
    .ok ((x, y), bytes)

/-- A set is written in order; read, it may come in any order and repeat elements. -/
instance {α : Type} [Codec α] [Ord α] [Std.TransOrd α] : Codec (Std.ExtTreeSet α compare) where
  encode s := encode s.toList
  read bytes := do
    let (xs, rest) ← read (α := List α) bytes
    .ok (Std.ExtTreeSet.ofList xs compare, rest)

/-- A map is written in the order of its keys; read, the last entry of a key counts. -/
instance {α β : Type} [Codec α] [Codec β] [Ord α] [Std.TransOrd α] :
    Codec (Std.ExtTreeMap α β compare) where
  encode m := encode m.toList
  read bytes := do
    let (xs, rest) ← read (α := List (α × β)) bytes
    .ok (Std.ExtTreeMap.ofList xs compare, rest)

/-- The tag of one of several variants: its position among them. -/
def encodeVariant {α : Type} [BEq α] (variants : List α) (x : α) : Bytes :=
  littleEndian 4 (variants.idxOf x)

def readVariant {α : Type} (variants : List α) : Reader α := fun bytes => do
  let (tag, rest) ← readWord 4 bytes
  match variants[tag]? with
  | some x => .ok (x, rest)
  | none => .error (.unknownVariant tag variants.length)

instance : Codec EventKind where
  encode := encodeVariant EventKind.all
  read := readVariant EventKind.all

instance : Codec FileKind where
  encode := encodeVariant FileKind.all
  read := readVariant FileKind.all

instance : Codec Destination where
  encode := encodeVariant Destination.all
  read := readVariant Destination.all

instance : Codec Member where
  encode m := encode m.host ++ encode m.port ++ encode m.joinedAt
  read bytes := do
    let (host, bytes) ← read bytes
    let (port, bytes) ← read bytes
    let (joinedAt, bytes) ← read bytes
    .ok (⟨host, port, joinedAt⟩, bytes)

instance : Codec Event where
  encode e := encode e.kind ++ encode e.subject
  read bytes := do
    let (kind, bytes) ← read bytes
    let (subject, bytes) ← read bytes
    .ok (⟨kind, subject⟩, bytes)

instance : Codec FileMessage where
  encode m :=
    encode m.kind ++ encode m.destination ++ encode m.file ++ encode m.nodes ++
      encode m.version ++ encode m.versions ++ encode m.files ++ encode m.size
  read bytes := do
    let (kind, bytes) ← read bytes
    let (destination, bytes) ← read bytes
    let (file, bytes) ← read bytes
    let (nodes, bytes) ← read bytes
    let (version, bytes) ← read bytes
    let (versions, bytes) ← read bytes
    let (files, bytes) ← read bytes
    let (size, bytes) ← read bytes
    .ok (⟨kind, destination, file, nodes, version, versions, files, size⟩, bytes)

instance : Codec Message where
  encode
    | .membership e => littleEndian 4 0 ++ encode e
    | .file m => littleEndian 4 1 ++ encode m
  read bytes := do
    let (isFile, bytes) ← readVariant [false, true] bytes
    if isFile then
      let (m, bytes) ← read bytes
      .ok (.file m, bytes)
    else
      let (e, bytes) ← read bytes
      .ok (.membership e, bytes)

instance : Codec Snapshot where
  encode s := encode s.members ++ encode s.coordinator
  read bytes := do
    let (members, bytes) ← read bytes
    let (coordinator, bytes) ← read bytes
    .ok (⟨members, coordinator⟩, bytes)

instance : Codec IntroducerRequest where
  encode r := encode r.joining
  read bytes := do
    let (joining, bytes) ← read bytes
    .ok (⟨joining⟩, bytes)

instance : Codec IntroducerReply where
  encode r := encode r.groupMember
  read bytes := do
    let (groupMember, bytes) ← read bytes
    .ok (⟨groupMember⟩, bytes)

instance : Codec Datagram where
  encode d := encode d.seq ++ encode d.event
  read bytes := do
    let (seq, bytes) ← read bytes
    let (event, bytes) ← read bytes
    .ok (⟨seq, event⟩, bytes)

/-- The value at the front of a body; what follows it is ignored. -/
def decode {α : Type} [Codec α] (bytes : Bytes) : Except DecodeFault α :=
  (read bytes).map Prod.fst

/-- The length of a message's encoding, without building it for the name of its file. -/
def fileMessageLength (m : FileMessage) : Nat :=
  (encode { m with file := "" }).length + m.file.utf8ByteSize

theorem fileMessageLength_eq (m : FileMessage) : fileMessageLength m = (encode m).length := by
  simp [fileMessageLength, encode, littleEndian, Text.Utf8.encode]
  omega

end ReplicaRing.Wire
