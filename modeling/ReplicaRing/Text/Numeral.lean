/-!
Decimal numerals as people type them: ASCII digits, one optional sign in front. Printing is
`Nat.repr`, so `unsigned?_repr` says that every number below the limit is read back.
-/
namespace ReplicaRing.Text

/-- A numeral with an optional plus sign and at least one digit, for a number below `limit`. -/
def unsigned? (limit : Nat) (s : List Char) : Option Nat :=
  let digits := match s with
    | '+' :: rest => rest
    | _ => s
  if digits.isEmpty || !digits.all Char.isDigit then none
  else
    let n := Nat.ofDigitChars 10 digits 0
    if n < limit then some n else none

/-- As `unsigned?`, but a minus sign may stand before a zero. -/
def signed? (limit : Nat) (s : List Char) : Option Nat :=
  match s with
  | '-' :: digits =>
    match digits with
    | '+' :: _ => none
    | _ => unsigned? (min limit 1) digits
  | _ => unsigned? limit s

/-- A number that a 64-bit word can hold. -/
def word64? (s : List Char) : Option UInt64 :=
  (unsigned? UInt64.size s).map UInt64.ofNat

/-- A number that a 16-bit word can hold. -/
def word16? (s : List Char) : Option UInt16 :=
  (unsigned? UInt16.size s).map UInt16.ofNat

theorem unsigned?_repr {n limit : Nat} (h : n < limit) :
    unsigned? limit n.repr.toList = some n := by
  have hne : (Nat.toDigits 10 n) ≠ [] := Nat.toDigits_ne_nil
  have hd : (Nat.toDigits 10 n).all Char.isDigit = true := by
    simp only [List.all_eq_true]
    intro c hc
    exact Nat.isDigit_of_mem_toDigits (by decide) (by decide) hc
  have hplus : ∀ rest, Nat.toDigits 10 n ≠ '+' :: rest := by
    intro rest he
    have := hd
    rw [he] at this
    simp [Char.isDigit] at this
  rw [Nat.toList_repr]
  unfold unsigned?
  split
  · rename_i rest he; exact absurd he (hplus _)
  · simp [hne, hd, h]

theorem word64?_repr (v : UInt64) : word64? v.toNat.repr.toList = some v := by
  rw [word64?, unsigned?_repr v.toNat_lt_size]
  simp

end ReplicaRing.Text
