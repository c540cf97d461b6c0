import ReplicaRing.Log.Level
import ReplicaRing.Log.Pattern
import ReplicaRing.Text.Blank

/-!
Directives of a log filter. A directive is a level, or it names what it is for: a target, and in
brackets a span and in braces a field; a level may follow behind an equals sign. A directive without
a level lets everything through.
-/
namespace ReplicaRing.Log

/-- What a directive asks of the fields of an entry: there is one of that name, perhaps with a value
of a certain form. -/
structure FieldTest where
  name : List Char
  valued : Bool := false
deriving DecidableEq, Repr

structure Directive where
  target : Option (List Char) := none
  span : Option (List Char) := none
  field : Option FieldTest := none
  level : Level := .trace
deriving DecidableEq, Repr

namespace FieldTest

/-- A number with a plus sign, which would be no pattern. It may have a fraction and an exponent, or
be infinite or no number at all. -/
def isPositive (text : List Char) : Bool :=
  match text with
  | '+' :: rest =>
    let whole := rest.takeWhile Char.isDigit
    let (fraction, rest') :=
      match rest.dropWhile Char.isDigit with
      | '.' :: r => (r.takeWhile Char.isDigit, r.dropWhile Char.isDigit)
      | r => ([], r)
    let names := ["inf", "infinity", "nan"].map String.toList
    names.contains (rest.map Char.toLower) ||
      (!(whole ++ fraction).isEmpty && (rest'.isEmpty || isExponent rest'))
  | _ => false
where
  isExponent (text : List Char) : Bool :=
    match text with
    | e :: rest =>
      let digits := match rest with
        | '+' :: r | '-' :: r => r
        | r => r
      (e = 'e' || e = 'E') && !digits.isEmpty && digits.all Char.isDigit
    | [] => false

/-- A name, and behind an equals sign a value, which ends at a second one. -/
def parse? (text : List Char) : Option FieldTest :=
  let name := text.takeWhile (· ≠ '=')
  match text.dropWhile (· ≠ '=') with
  | [] => some { name }
  | _ :: rest =>
    let value := rest.takeWhile (· ≠ '=')
    if isPositive value || Pattern.isValid value then some { name, valued := true } else none

end FieldTest

namespace Directive

/-- Where a reader of a directive is, and what it has read there, last first. -/
inductive Spot
  | start
  /-- In a level or a target; which of them, the end decides. -/
  | word (read : List Char)
  | span (read : List Char)
  | field (read : List Char)
  | behindField
  | behindBracket
  | level (read : List Char)
deriving DecidableEq, Repr

structure Reader where
  spot : Spot := .start
  directive : Directive := {}
deriving DecidableEq, Repr

/-- Characters that a level or a target starts with. -/
def startsWord (c : Char) : Bool := c = '-' || c = ':' || c = '_' || Text.isAlphanumeric c

/-- The span that a text in brackets names, if a field follows. -/
def spanBefore (read : List Char) : Option (List Char) :=
  if read.isEmpty then none else some read.reverse

namespace Reader

/-- Reads on. A mark is looked for in `seen`, and a name consists of what is `written`. -/
def step (r : Reader) (seen written : Char) : Option Reader :=
  match r.spot, seen with
  | .start, '[' => some { r with spot := .span [] }
  | .start, c => if startsWord c then some { r with spot := .word [written] } else none
  | .word read, '=' => some ⟨.level [], { r.directive with target := some read.reverse }⟩
  | .word read, '[' => some ⟨.span [], { r.directive with target := some read.reverse }⟩
  | .word read, _ => some { r with spot := .word (written :: read) }
  | .span read, ']' => some ⟨.behindBracket, { r.directive with span := some read.reverse }⟩
  | .span read, '\x7b' => some ⟨.field [], { r.directive with span := spanBefore read }⟩
  | .span read, _ => some { r with spot := .span (written :: read) }
  | .field [], '\x7d' => none
  | .field read, '\x7d' =>
    (FieldTest.parse? read.reverse).map fun field =>
      ⟨.behindField, { r.directive with field := some field }⟩
  | .field read, _ => some { r with spot := .field (written :: read) }
  | .behindField, ']' => some { r with spot := .behindBracket }
  | .behindField, _ => none
  | .behindBracket, '=' => some { r with spot := .level [] }
  | .behindBracket, _ => none
  | .level read, _ => some { r with spot := .level (written :: read) }

/-- The text has ended, but for what no mark was looked for in. -/
def finish (r : Reader) (rest : List Char) : Option Directive :=
  match r.spot with
  | .word read =>
    let text := read.reverse ++ rest
    match Level.ofText? text with
    | some level => some { r.directive with level }
    | none => some { r.directive with target := some text }
  | .level read =>
    let text := read.reverse ++ rest
    if text.isEmpty then some r.directive
    else (Level.ofText? text).map fun level => { r.directive with level }
  | .behindBracket => some r.directive
  | .start | .span _ | .field _ | .behindField => none

end Reader

/-- Blanks around a directive do not count when marks are looked for. Names, though, are cut from
the whole text, at the places where the marks stand without the blanks. -/
def parse? (text : List Char) : Option Directive := do
  let trimmed := ((text.dropWhile Text.isBlank).reverse.dropWhile Text.isBlank).reverse
  let read ← (trimmed.zip text).foldlM (fun (r : Reader) (seen, written) => r.step seen written) {}
  read.finish (text.drop trimmed.length)

end Directive

end ReplicaRing.Log
