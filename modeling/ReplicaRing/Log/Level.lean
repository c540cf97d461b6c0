import ReplicaRing.Text.Numeral

/-!
How weighty an entry of the log is, and how much a rule of the log lets through.
-/
namespace ReplicaRing.Log

inductive Level
  | off | error | warn | info | debug | trace
deriving DecidableEq, Repr

namespace Level

/-- A higher rank lets more through. -/
def rank : Level → Nat
  | off => 0
  | error => 1
  | warn => 2
  | info => 3
  | debug => 4
  | trace => 5

/-- The levels by rank. -/
def all : List Level := [off, error, warn, info, debug, trace]

def name : Level → String
  | off => "off"
  | error => "error"
  | warn => "warn"
  | info => "info"
  | debug => "debug"
  | trace => "trace"

/-- A level by its rank, or by its name in letters of either case. -/
def ofText? (text : List Char) : Option Level :=
  match Text.word64? text with
  | some rank => all[rank.toNat]?
  | none => all.find? fun level => level.name.toList = text.map Char.toLower

example : ofText? "+03".toList = some info := by decide +kernel
example : ofText? "WARN".toList = some warn := by decide +kernel
example : ofText? "6".toList = none := by decide +kernel

end Level

end ReplicaRing.Log
