/-!
Byte strings.
-/
namespace ReplicaRing

abbrev Bytes := List UInt8

/-- Writes `bytes` over `content` from an offset on. A gap before the offset is filled with
zeros. -/
def Bytes.splice (content : Bytes) (offset : Nat) (bytes : Bytes) : Bytes :=
  content.take offset ++ List.replicate (offset - content.length) 0 ++ bytes ++
    content.drop (offset + bytes.length)

theorem Bytes.splice_length (content bytes : Bytes) :
    content.splice content.length bytes = content ++ bytes := by
  simp [Bytes.splice]

end ReplicaRing
