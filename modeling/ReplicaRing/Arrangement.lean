import ReplicaRing.Member

/-!
An order among candidates. Members that could serve equally well are taken in an order that is
chosen anew for each stored name. Whatever the order, nobody is added, lost or repeated.
-/
namespace ReplicaRing

structure Arrangement where
  order : String → List Member → List Member
  order_perm : ∀ name members, (order name members).Perm members

namespace Arrangement

/-- Candidates stay in the order in which they are given. -/
def asGiven : Arrangement := ⟨fun _ members => members, fun _ _ => .refl _⟩

instance : Inhabited Arrangement := ⟨asGiven⟩

end Arrangement

end ReplicaRing
