import ReplicaRing.Path
import ReplicaRing.Member

/-!
What can be set for a member. Times are in milliseconds.
-/
namespace ReplicaRing

/-- How long an exchange waits: for a connection, for one frame, for a whole file. -/
structure TransportConfig where
  connectMs : Nat := 2000
  ioMs : Nat := 10000
  transferMs : Nat := 60000
deriving DecidableEq, Repr

structure DetectorConfig where
  protocolPeriodMs : Nat
  pingTimeoutMs : Nat
  monitors : Nat
deriving DecidableEq, Repr

structure MemberConfig where
  host : String := "127.0.0.1"
  /-- Port 0 stands for any free port. -/
  port : UInt16 := 0
  /-- Without introducer a member founds its own group. -/
  introducer : Option String := none
  storageRoot : String := "storage"
  protocolPeriodMs : Nat := 1500
  pingTimeoutMs : Nat := 500
  monitors : Nat := 1
  repairPeriodMs : Nat := 10000
  replicationFactor : Nat := 4
  transport : TransportConfig := {}
deriving DecidableEq, Repr

namespace MemberConfig

def detector (c : MemberConfig) : DetectorConfig :=
  ⟨c.protocolPeriodMs, c.pingTimeoutMs, c.monitors⟩

/-- The folder of the member that listens on `port`: one folder a host, and in it one a port. -/
def storageDir (c : MemberConfig) (port : UInt16) : String :=
  String.ofList <| Path.join (Path.join c.storageRoot.toList c.host.toList) port.toNat.repr.toList

end MemberConfig

end ReplicaRing
