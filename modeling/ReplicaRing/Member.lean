import ReplicaRing.Text.Numeral
import ReplicaRing.Text.Split
import Std.Data.ExtTreeSet

/-!
Members of the ring. A member is where it listens and when it joined; the join time tells
incarnations at one endpoint apart. Members are ordered by host (code point by code point), then
port, then join time, and that order is the order of the ring.
-/
namespace ReplicaRing

open Text

/-- Where a member listens. -/
structure Endpoint where
  host : String
  port : UInt16
deriving DecidableEq, Repr, Inhabited

/-- An address that is not a host and a port. -/
structure MalformedAddress where
  address : String
deriving DecidableEq, Repr

def MalformedAddress.message (e : MalformedAddress) : String :=
  "invalid address: " ++ e.address

namespace Endpoint

def text (e : Endpoint) : String :=
  e.host ++ ":" ++ e.port.toNat.repr

/-- The last colon stands between a host, which is not empty, and the port. -/
def parse? (address : String) : Option Endpoint :=
  match splitLast? ':' address.toList with
  | none => none
  | some (host, port) =>
    if host = [] then none else (word16? port).map fun p => ⟨String.ofList host, p⟩

def parse (address : String) : Except MalformedAddress Endpoint :=
  match parse? address with
  | some endpoint => .ok endpoint
  | none => .error ⟨address⟩

end Endpoint

/-- One incarnation of a process in the group. -/
structure Member where
  host : String
  port : UInt16
  joinedAt : UInt64
deriving DecidableEq, Repr, Inhabited

namespace Member

def endpoint (m : Member) : Endpoint := ⟨m.host, m.port⟩

def address (m : Member) : String := m.endpoint.text

def display (m : Member) : String :=
  m.address ++ "@" ++ m.joinedAt.toNat.repr

/-- Whether two members are incarnations at one endpoint. -/
def sameEndpoint (m n : Member) : Bool := m.endpoint == n.endpoint

/-- Host first, then port, then join time. -/
def order : Member → Member → Ordering :=
  compareLex (compareOn host) (compareLex (compareOn port) (compareOn joinedAt))

instance : Ord Member := ⟨order⟩

instance : Std.TransOrd Member :=
  inferInstanceAs (Std.TransCmp (compareLex (compareOn host)
    (compareLex (compareOn port) (compareOn joinedAt))))

instance : Std.LawfulEqOrd Member where
  eq_of_compare {m n} h := by
    change compareLex (compareOn host)
      (compareLex (compareOn port) (compareOn joinedAt)) m n = .eq at h
    simp only [compareLex_eq_eq, compareOn, Std.compare_eq_iff_eq] at h
    cases m; cases n; simp_all

instance : LT Member := ⟨fun m n => compare m n = .lt⟩

instance (m n : Member) : Decidable (m < n) :=
  inferInstanceAs (Decidable (compare m n = .lt))

theorem lt_iff {m n : Member} : m < n ↔ compare m n = .lt := Iff.rfl

end Member

/-- A finite set of members, listed in ring order. -/
abbrev MemberSet := Std.ExtTreeSet Member compare

end ReplicaRing
