/-!
Text as UTF-8 bytes. A byte string is text or has a first fault: the index of the first character
that is not encoded properly, and how many bytes of it were looked at before that was certain. A
fault without a count lies at the end, where more bytes could have completed the character.
-/
namespace ReplicaRing.Text.Utf8

structure Fault where
  index : Nat
  width : Option Nat
deriving DecidableEq, Repr

def Fault.message (f : Fault) : String :=
  match f.width with
  | some n => "invalid utf-8 sequence of " ++ n.repr ++ " bytes from index " ++ f.index.repr
  | none => "incomplete utf-8 byte sequence from index " ++ f.index.repr

def encode (s : String) : List UInt8 := s.toUTF8.data.toList

/-- How one character ends at the front of some bytes: after its last byte, at a byte that does
not continue it, or with the bytes. -/
inductive Scan
  | complete (width : Nat)
  | broken (width : Nat)
  | unfinished
deriving DecidableEq, Repr

/-- Bytes that continue a character, `n` of them, after `seen` bytes of it. -/
def scanTail (seen : Nat) : Nat → List UInt8 → Scan
  | 0, _ => .complete seen
  | _ + 1, [] => .unfinished
  | n + 1, b :: rest =>
    if 0x80 ≤ b ∧ b ≤ 0xBF then scanTail (seen + 1) n rest else .broken seen

/-- The second byte of a character lies between `low` and `high`; `more` bytes follow it. -/
def scanSecond (low high : UInt8) (more : Nat) : List UInt8 → Scan
  | [] => .unfinished
  | b :: rest => if low ≤ b ∧ b ≤ high then scanTail 2 more rest else .broken 1

/-- The character at the front. Its first byte fixes how long it is, and which second bytes would
make it overlong, a surrogate or too large. -/
def scan (first : UInt8) (rest : List UInt8) : Scan :=
  if first < 0x80 then .complete 1
  else if 0xC2 ≤ first ∧ first ≤ 0xDF then scanSecond 0x80 0xBF 0 rest
  else if first = 0xE0 then scanSecond 0xA0 0xBF 1 rest
  else if first = 0xED then scanSecond 0x80 0x9F 1 rest
  else if 0xE1 ≤ first ∧ first ≤ 0xEF then scanSecond 0x80 0xBF 1 rest
  else if first = 0xF0 then scanSecond 0x90 0xBF 2 rest
  else if 0xF1 ≤ first ∧ first ≤ 0xF3 then scanSecond 0x80 0xBF 2 rest
  else if first = 0xF4 then scanSecond 0x80 0x8F 2 rest
  else .broken 1

/-- The first fault from `index` on; `skip` bytes belong to a character already read. -/
def findFault (index : Nat) : Nat → List UInt8 → Option Fault
  | _, [] => none
  | skip + 1, _ :: rest => findFault (index + 1) skip rest
  | 0, b :: rest =>
    match scan b rest with
    | .complete width => findFault (index + 1) (width - 1) rest
    | .broken width => some ⟨index, some width⟩
    | .unfinished => some ⟨index, none⟩

def decode (bytes : List UInt8) : Except Fault String :=
  match String.fromUTF8? ⟨bytes.toArray⟩ with
  | some s => .ok s
  | none => .error ((findFault 0 0 bytes).getD ⟨0, some 1⟩)

theorem decode_encode (s : String) : decode (encode s) = .ok s := by
  have hb : (⟨(encode s).toArray⟩ : ByteArray) = s.toByteArray := by simp [encode]
  have h : String.fromUTF8? ⟨(encode s).toArray⟩ = some s := by
    rw [hb, String.fromUTF8?, dif_pos s.isValidUTF8]
    rfl
  rw [decode, h]

end ReplicaRing.Text.Utf8
