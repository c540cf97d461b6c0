import ReplicaRing.Member

/-!
The introducer. It is no member; it remembers who joined last and hands the newest of them that
still answers to the next joiner. Whoever does not answer is forgotten. A joiner that is handed
nobody founds a group.
-/
namespace ReplicaRing

structure Introducer where
  /-- Recent joiners, newest first. -/
  recent : List Member := []
deriving DecidableEq, Repr

namespace Introducer

/-- How many joiners are remembered. -/
def capacity : Nat := 16

def forget (i : Introducer) (m : Member) : Introducer := ⟨i.recent.filter (· ≠ m)⟩

def remember (i : Introducer) (m : Member) : Introducer := ⟨(m :: i.recent).take capacity⟩

variable {m : Type → Type} [Monad m]

/-- The first candidate that answers. Earlier incarnations of the joiner are not asked. -/
def search (answers : Member → m Bool) (joining : Member) :
    List Member → Introducer → m (Introducer × Option Member)
  | [], i => return (i, none)
  | candidate :: rest, i => do
    if candidate.sameEndpoint joining then search answers joining rest (i.forget candidate)
    else if ← answers candidate then return (i, some candidate)
    else search answers joining rest (i.forget candidate)

/-- Hands a member of the group to a joiner and remembers the joiner. -/
def introduce (answers : Member → m Bool) (i : Introducer) (joining : Member) :
    m (Introducer × Option Member) := do
  let (i, found) ← search answers joining i.recent i
  return (i.remember joining, found)

end Introducer

end ReplicaRing
