import ReplicaRing.Text.Alphanumeric
import ReplicaRing.Text.Numeral

/-!
Patterns for the value of a field, and whether they are well formed. A pattern has groups,
alternatives, repetitions and classes of characters. Only classes that are written out are known: a
pattern that asks for all digits, letters or blanks by an escape is not well formed.
-/
namespace ReplicaRing.Log.Pattern

/-- A part of a pattern once its escapes are resolved. -/
inductive Piece
  /-- A character as it is written, which may be a mark. -/
  | plain (c : Char)
  /-- A character that stands for itself. -/
  | literal (c : Char)
  /-- A place in the text, such as its start. -/
  | place
deriving DecidableEq, Repr

def hexDigit? (c : Char) : Option Nat :=
  if c.isDigit then some (c.toNat - '0'.toNat)
  else if 'a' ≤ c ∧ c ≤ 'f' then some (c.toNat - 'a'.toNat + 10)
  else if 'A' ≤ c ∧ c ≤ 'F' then some (c.toNat - 'A'.toNat + 10)
  else none

/-- The character with the given hexadecimal number. -/
def ofHex? (digits : List Char) : Option Piece := do
  let n ← digits.foldlM (fun n c => (hexDigit? c).map (16 * n + ·)) 0
  if n.isValidChar then some (.literal (Char.ofNat n)) else none

/-- What a backslash and one character stand for. -/
def escape? (c : Char) : Option Piece :=
  if c = 'A' ∨ c = 'z' then some .place
  else if c = 'a' then some (.literal '\x07')
  else if c = 'f' then some (.literal '\x0c')
  else if c = 't' then some (.literal '\t')
  else if c = 'n' then some (.literal '\n')
  else if c = 'r' then some (.literal '\r')
  else if c = 'v' then some (.literal '\x0b')
  else if c.isAlphanum ∨ 127 < c.toNat ∨ c = '<' ∨ c = '>' then none
  else some (.literal c)

def pieces? : List Char → Option (List Piece)
  | [] => some []
  | '\\' :: 'x' :: a :: b :: rest => return (← ofHex? [a, b]) :: (← pieces? rest)
  | '\\' :: 'u' :: a :: b :: c :: d :: rest =>
    return (← ofHex? [a, b, c, d]) :: (← pieces? rest)
  | '\\' :: 'U' :: a :: b :: c :: d :: e :: f :: g :: h :: rest =>
    return (← ofHex? [a, b, c, d, e, f, g, h]) :: (← pieces? rest)
  | '\\' :: c :: rest => return (← escape? c) :: (← pieces? rest)
  | ['\\'] => none
  | c :: rest => return .plain c :: (← pieces? rest)

/-- The character that a piece of a class stands for. -/
def Piece.char? : Piece → Option Char
  | plain c | literal c => some c
  | place => none

/-- Where a reader of a pattern is. -/
inductive Spot
  /-- Between pieces; `operand` says whether there is something to repeat. -/
  | outside (operand : Bool)
  /-- Behind the parenthesis of a group. -/
  | opened
  /-- Behind the question mark of a group that has a name or flags. -/
  | asked
  /-- Behind the letter before a name. -/
  | named
  | name (first : Bool)
  | flags (seen : List Char)
  /-- Behind the bracket of a class, where a caret turns it round. -/
  | bracket
  /-- Before the first character of a class, which may be a bracket. -/
  | classStart
  /-- Behind dashes that start a class. -/
  | classDashes
  /-- In a class. A range may begin at `last`. -/
  | inClass (last : Option Piece)
  /-- Behind a dash in a class. It makes a range if it stands behind a character. -/
  | dash (first : Option Char)
deriving DecidableEq, Repr

/-- A reader is inside so many groups and so many classes, and at a spot. -/
structure Reader where
  groups : Nat := 0
  classes : Nat := 0
  spot : Spot := .outside false
deriving DecidableEq, Repr

namespace Reader

/-- Characters that a name of a group is made of. -/
def isNameChar (first : Bool) (c : Char) : Bool :=
  c = '_' || (Text.isAlphanumeric c && !(first && c.isDigit)) ||
    (!first && (c = '.' || c = '[' || c = ']'))

/-- A flag, or the dash before flags that are taken back. None stands twice. -/
def isFlag (seen : List Char) (c : Char) : Bool :=
  "msUuxR-".toList.contains c && !seen.contains c

/-- A group opens. -/
def enter (r : Reader) : Reader := { r with groups := r.groups + 1, spot := .outside false }

/-- Only something can be repeated, and a count cannot be written. -/
def outside (r : Reader) (operand : Bool) (p : Piece) : Option Reader :=
  match p with
  | .plain '(' => some { r with spot := .opened }
  | .plain ')' =>
    if r.groups = 0 then none else some { r with groups := r.groups - 1, spot := .outside true }
  | .plain '|' => some { r with spot := .outside false }
  | .plain '[' => some { r with classes := 1, spot := .bracket }
  | .plain '*' | .plain '+' | .plain '?' =>
    if operand then some { r with spot := .outside true } else none
  | .plain '{' => none
  | _ => some { r with spot := .outside true }

/-- A doubled ampersand, tilde or dash joins classes. A bracket opens a class in a class. -/
def inClass (r : Reader) (last : Option Piece) (p : Piece) : Option Reader :=
  match p with
  | .plain '[' => some { r with classes := r.classes + 1, spot := .bracket }
  | .plain ']' =>
    if r.classes ≤ 1 then some { r with classes := 0, spot := .outside true }
    else some { r with classes := r.classes - 1, spot := .inClass none }
  | .plain '-' => some { r with spot := .dash (last.bind Piece.char?) }
  | .place => none
  | _ =>
    if (p = .plain '&' ∨ p = .plain '~') ∧ last = some p then some { r with spot := .inClass none }
    else some { r with spot := .inClass (some p) }

/-- The first and the last character of a range are in order. -/
def behindDash (r : Reader) (first : Option Char) (p : Piece) : Option Reader :=
  if p = .plain '-' then some { r with spot := .inClass none }
  else
    match first with
    | some c =>
      if p = .plain ']' then r.inClass none p
      else
        match p.char? with
        | some c' => if c ≤ c' then some { r with spot := .inClass none } else none
        | none => none
    | none => r.inClass (some (.plain '-')) p

def step (r : Reader) (p : Piece) : Option Reader :=
  match r.spot, p with
  | .outside operand, _ => r.outside operand p
  | .opened, .plain '?' => some { r with spot := .asked }
  | .opened, _ => r.enter.outside false p
  | .asked, .plain ':' => some r.enter
  | .asked, .plain 'P' => some { r with spot := .named }
  | .asked, .plain '<' | .named, .plain '<' => some { r with spot := .name true }
  | .asked, .plain c => if isFlag [] c then some { r with spot := .flags [c] } else none
  | .name first, .plain c =>
    if c = '>' ∧ !first then some r.enter
    else if isNameChar first c then some { r with spot := .name false }
    else none
  | .flags seen, .plain c =>
    if c = ')' ∧ seen.head? ≠ some '-' then some { r with spot := .outside false }
    else if c = ':' ∧ seen.head? ≠ some '-' then some r.enter
    else if isFlag seen c then some { r with spot := .flags (c :: seen) }
    else none
  | .bracket, .plain '^' => some { r with spot := .classStart }
  | .bracket, .plain ']' | .classStart, .plain ']' => some { r with spot := .inClass (some p) }
  | .bracket, .plain '-' | .classStart, .plain '-' | .classDashes, .plain '-' =>
    some { r with spot := .classDashes }
  | .bracket, _ | .classStart, _ | .classDashes, _ => r.inClass none p
  | .inClass last, _ => r.inClass last p
  | .dash first, _ => r.behindDash first p
  | .asked, _ | .named, _ | .name _, _ | .flags _, _ => none

/-- A pattern may end where a reader is outside of all groups and classes. -/
def atEnd (r : Reader) : Bool :=
  match r.spot with
  | .outside _ => r.groups = 0
  | _ => false

end Reader

/-- Whether a text is a pattern. -/
def isValid (text : List Char) : Bool :=
  ((pieces? text).bind (·.foldlM Reader.step {})).any (·.atEnd)

example : isValid "a(b|[^]x-z]*)+?".toList = true := by decide +kernel
example : isValid "(a".toList = false := by decide +kernel
example : isValid "*".toList = false := by decide +kernel
example : isValid "[z-a]".toList = false := by decide +kernel
example : isValid "\\d".toList = false := by decide +kernel

end ReplicaRing.Log.Pattern
