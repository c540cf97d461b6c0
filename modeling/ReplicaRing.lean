import ReplicaRing.Cluster.Reception
import ReplicaRing.Election.Circuit
import ReplicaRing.Main
import ReplicaRing.MemoryGroup
import ReplicaRing.Naming
import ReplicaRing.Proofs.Cluster.Refinement
import ReplicaRing.Proofs.Deletion
import ReplicaRing.Proofs.MemberOrder
import ReplicaRing.Proofs.Neighbour
import ReplicaRing.Proofs.Tenure.Agreement
import ReplicaRing.Proofs.Election.Conduct
import ReplicaRing.Proofs.Election.Moves
import ReplicaRing.Proofs.Election.Effect
import ReplicaRing.Proofs.Election.Truth
import ReplicaRing.Proofs.Election.Safety
import ReplicaRing.Proofs.Election.Steady
import ReplicaRing.Proofs.Election.Convergence
import ReplicaRing.Proofs.Election.Departure
import ReplicaRing.Proofs.Election.Recovery
import ReplicaRing.Proofs.Election.LostOutcome
import ReplicaRing.Proofs.Wire.Canonical
import ReplicaRing.Proofs.Wire.Streams
import ReplicaRing.Proofs.Directory.Reports
import ReplicaRing.Proofs.Directory.Recovery
import ReplicaRing.Proofs.Directory.Chronicle
import ReplicaRing.Proofs.Repair
import ReplicaRing.Proofs.Session.Convergence
import ReplicaRing.Proofs.Session.Joining
import ReplicaRing.Proofs.Tenure.Origins
import ReplicaRing.Proofs.Tenure.Deletions
import ReplicaRing.Proofs.Disk.Folders
import ReplicaRing.Proofs.Store.Traffic
import ReplicaRing.Proofs.Store.Orderly
import ReplicaRing.Proofs.Store.Fates
import ReplicaRing.Proofs.Session.Endpoints
import ReplicaRing.Proofs.Ring.Cycle
import ReplicaRing.Proofs.NameForms
import ReplicaRing.Proofs.Pings
import ReplicaRing.Proofs.Introductions
import ReplicaRing.Proofs.Disk.Programs
import ReplicaRing.Proofs.Store.Confinement
import ReplicaRing.Proofs.Store.Isolation
import ReplicaRing.Proofs.RemoteNames
import ReplicaRing.Proofs.Disk.Wholeness
import ReplicaRing.Proofs.Holders
import ReplicaRing.Proofs.HolderOrder
import ReplicaRing.Proofs.Store.Traces
import ReplicaRing.Proofs.FetchedPaths
import ReplicaRing.Proofs.Election.Stalls
import ReplicaRing.Proofs.Overlaps
import ReplicaRing.Proofs.Probes
import ReplicaRing.Proofs.Cluster.Refusals
