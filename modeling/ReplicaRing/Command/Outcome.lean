import ReplicaRing.Client
import ReplicaRing.Command
import ReplicaRing.Listing
import ReplicaRing.Session

/-!
What a person reads after a command. Every outcome has one text; its lines are joined by line
breaks, and the last line has none.
-/
namespace ReplicaRing

inductive Outcome
  | joined (identity : Member)
  | left
  | members (owner : Member) (ring : Snapshot)
  | self (identity : Member)
  /-- The names that are stored here. -/
  | stored (names : List String)
  | put (remote : String) (receipt : PutReceipt)
  | fetched (remote : String) (holder : Member) (localPath : String)
  | deleted (remote : String)
  | versions (versions : VersionMap)
  /-- The versions that were fetched, each with its path. -/
  | fetchedVersions (remote : String) (copies : List (UInt64 × String))
  | help
  | exit
  | failed (fault : MembershipFault)
deriving DecidableEq, Repr

namespace Outcome

def names (ms : List Member) : String := ", ".intercalate (ms.map Member.display)

def lines (ls : List String) : String := "\n".intercalate ls

def versionLine (version : UInt64) (holders : MemberSet) : String :=
  "version " ++ version.toNat.repr ++ ": " ++
    if holders.isEmpty then "(pending)" else names holders.toList

def text : Outcome → String
  | joined m => "Joined as " ++ m.display
  | left => "Left the group"
  | members owner ring => Listing.text owner ring
  | self m => m.display
  | stored names =>
    if names.isEmpty then "No files stored here" else lines (names.map RemoteName.restore)
  | put remote receipt =>
    "Stored " ++ remote ++ " version " ++ receipt.version.toNat.repr ++ " on " ++
      names receipt.storedOn
  | fetched remote holder localPath =>
    "Fetched " ++ remote ++ " from " ++ holder.display ++ " into " ++ localPath
  | deleted remote => "Deleted " ++ remote
  | versions vs =>
    lines (vs.toList.reverse.map fun (version, holders) => versionLine version holders)
  | fetchedVersions remote copies =>
    if copies.isEmpty then "No versions of " ++ remote ++ " could be fetched"
    else lines (copies.map fun (version, path) =>
      "version " ++ version.toNat.repr ++ " -> " ++ path)
  | help => Command.usage
  | exit => ""
  | failed .notJoined => "Not joined"
  | failed fault => "Operation failed: " ++ fault.message

end Outcome

end ReplicaRing
