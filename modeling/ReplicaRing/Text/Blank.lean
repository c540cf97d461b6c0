/-!
White space as Unicode defines it (property White_Space), and words between white space.
-/
namespace ReplicaRing.Text

/-- The code points with property White_Space. -/
def isBlank (c : Char) : Bool :=
  let n := c.toNat
  (9 ≤ n && n ≤ 13) || n == 32 || n == 0x85 || n == 0xA0 || n == 0x1680 ||
  (0x2000 ≤ n && n ≤ 0x200A) || n == 0x2028 || n == 0x2029 || n == 0x202F || n == 0x205F ||
  n == 0x3000

/-- The maximal runs of characters that are not blank, in order. -/
def words (s : List Char) : List (List Char) :=
  (s.foldr step [[]]).filter (!·.isEmpty)
where
  /-- A blank opens a new run; any other character joins the run to its right. -/
  step (c : Char) : List (List Char) → List (List Char)
    | [] => if isBlank c then [[]] else [[c]]
    | w :: ws => if isBlank c then [] :: w :: ws else (c :: w) :: ws

example : words " a\u000bbc\u3000d ".toList = [['a'], ['b', 'c'], ['d']] := by decide

end ReplicaRing.Text
