import ReplicaRing.Text.Hidden

/-!
Texts in quotes. A quote and a backslash are written with a backslash before them, the common
controls by a letter, and every other hidden character by its number.
-/
namespace ReplicaRing.Text.Quoted

/-- How a character is written between quotes. -/
def escape (c : Char) : String :=
  if c = '\x00' then "\\0"
  else if c = '\t' then "\\t"
  else if c = '\r' then "\\r"
  else if c = '\n' then "\\n"
  else if c = '"' then "\\\""
  else if c = '\\' then "\\\\"
  else if isHidden c then "\\u\x7b" ++ String.ofList (Nat.toDigits 16 c.toNat) ++ "\x7d"
  else c.toString

def encode (s : String) : String :=
  "\"" ++ String.join (s.toList.map escape) ++ "\""

end ReplicaRing.Text.Quoted
