import ReplicaRing.Fault

/-!
Hosts. A host is written as four numbers, or it is the name of the own machine; other names lead
nowhere. Only addresses of the own machine can be listened on.
-/
namespace ReplicaRing.Host

/-- A number below 256 without a zero in front. -/
def part? (text : String) : Option Nat :=
  match text.toNat? with
  | some n => if n < 256 ∧ n.repr = text then some n else none
  | none => none

/-- The four numbers of a host. -/
def numbers? (host : String) : Option (List Nat) :=
  if host = "localhost" then some [127, 0, 0, 1]
  else (host.splitOn "." |>.mapM part?).filter (·.length = 4)

/-- Why nobody answers at a host where nobody listens. -/
def refusal (host : String) : ExchangeFault :=
  .io (if (numbers? host).isSome then .os .connectionRefused else .unknownHost)

/-- Whether the own machine can listen on a host. -/
def claim (host : String) : Except IoFault Unit :=
  match numbers? host with
  | none => .error .unknownHost
  | some ns =>
    if ns.head? = some 127 ∨ ns = [0, 0, 0, 0] then .ok () else .error (.os .addressNotAvailable)

end ReplicaRing.Host
