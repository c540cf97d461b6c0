import ReplicaRing.Log.Directive
import ReplicaRing.Log.Entry

/-!
Which entries go to the log. A filter is a list of directives between commas. Directives that ask
for a span or for the value of a field hold inside of spans only, and no entry is written inside of
one; the others are the rules of the filter. Of the rules for an entry the most specific decides.
-/
namespace ReplicaRing.Log

/-- A level for the entries of a target that have a field. -/
structure Rule where
  target : Option (List Char) := none
  field : Option String := none
  level : Level
deriving DecidableEq, Repr

/-- The rule that a directive is outside of spans. -/
def Directive.rule? (d : Directive) : Option Rule :=
  match d.span, d.field with
  | some _, _ | none, some ⟨_, true⟩ => none
  | none, field => some ⟨d.target, field.map (String.ofList ·.name), d.level⟩

namespace Rule

/-- Whether a rule is for an entry. -/
def covers (r : Rule) (e : Entry) : Bool :=
  (r.target.getD []).isPrefixOf e.part.toList && r.field.all e.hasField

/-- A rule with a longer target is more specific. Of rules with one target, one with a field is, and
of these, the one with the greater name. -/
def isAsSpecificAs (a b : Rule) : Bool :=
  let size (r : Rule) : Nat := (r.target.map (·.length + 1)).getD 0
  if size a = size b then
    match a.field, b.field with
    | some f, some g => (compare g f).isLE
    | none, some _ => false
    | _, none => true
  else size b < size a

end Rule

structure Filter where
  rules : List Rule
deriving DecidableEq, Repr

namespace Filter

/-- Without directives only errors go through. -/
def parse? (text : String) : Option Filter := do
  let directives ←
    ((text.splitOn ",").filter (· ≠ "")).mapM fun part => Directive.parse? part.toList
  if directives.isEmpty then return ⟨[{ level := .error }]⟩
  else return ⟨directives.filterMap Directive.rule?⟩

/-- The most specific rule for an entry; of equally specific ones the last. -/
def ruleFor? (f : Filter) (e : Entry) : Option Rule :=
  (f.rules.filter (·.covers e)).foldl
    (fun best r =>
      match best with
      | some b => if r.isAsSpecificAs b then some r else some b
      | none => some r)
    none

/-- Whether an entry goes to the log. -/
def allows (f : Filter) (e : Entry) : Bool :=
  (f.ruleFor? e).any fun r => e.level.rank ≤ r.level.rank

end Filter

end ReplicaRing.Log
