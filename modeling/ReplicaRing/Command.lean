import ReplicaRing.Text.Blank
import ReplicaRing.Text.Numeral
import ReplicaRing.Text.Quoted

/-!
Commands that a person gives to a member, one a line. The first word says which command it is, and
the other words are its arguments.
-/
namespace ReplicaRing

inductive Command
  | join | leave | listMembers | listSelf | store
  | put (localPath remote : String)
  | get (remote localPath : String)
  | delete (remote : String)
  | versions (remote : String)
  | getVersions (remote : String) (count : Nat) (localPath : String)
  | help | exit
deriving DecidableEq, Repr

/-- Why a line is no command. -/
inductive CommandFault
  | empty
  | unknown (word : String)
  | badUsage (usage : String)
  | badCount (word : String)
deriving DecidableEq, Repr

namespace Command

def usage : String :=
  "commands: join, leave, list_mem, list_self, store, put <local> <remote>, " ++
  "get <remote> <local>, delete <remote>, ls <remote>, " ++
  "get-versions <remote> <count> <local>, help, exit"

/-- The first word of a command. -/
def name : Command → String
  | join => "join"
  | leave => "leave"
  | listMembers => "list_mem"
  | listSelf => "list_self"
  | store => "store"
  | put .. => "put"
  | get .. => "get"
  | delete .. => "delete"
  | versions .. => "ls"
  | getVersions .. => "get-versions"
  | help => "help"
  | exit => "exit"

/-- The local file that a command reads. -/
def source? : Command → Option String
  | put localPath _ => some localPath
  | _ => none

/-- A number of versions: at least one. -/
def count? (word : String) : Option Nat :=
  (Text.unsigned? UInt64.size word.toList).filter (0 < ·)

def ofWords : List String → Except CommandFault Command
  | [] => .error .empty
  | ["join"] => .ok join
  | ["leave"] => .ok leave
  | ["list_mem"] => .ok listMembers
  | ["list_self"] => .ok listSelf
  | ["store"] => .ok store
  | "help" :: _ => .ok help
  | ["exit"] | ["quit"] => .ok exit
  | ["put", localPath, remote] => .ok (put localPath remote)
  | "put" :: _ => .error (.badUsage "put <local> <remote>")
  | ["get", remote, localPath] => .ok (get remote localPath)
  | "get" :: _ => .error (.badUsage "get <remote> <local>")
  | ["delete", remote] => .ok (delete remote)
  | "delete" :: _ => .error (.badUsage "delete <remote>")
  | ["ls", remote] => .ok (versions remote)
  | "ls" :: _ => .error (.badUsage "ls <remote>")
  | ["get-versions", remote, count, localPath] =>
    match count? count with
    | some n => .ok (getVersions remote n localPath)
    | none => .error (.badCount count)
  | "get-versions" :: _ => .error (.badUsage "get-versions <remote> <count> <local>")
  | word :: _ => .error (.unknown word)

def parse (line : String) : Except CommandFault Command :=
  ofWords ((Text.words line.toList).map String.ofList)

end Command

def CommandFault.message : CommandFault → String
  | empty => "empty command"
  | unknown word => "unrecognized command " ++ Text.Quoted.encode word ++ "; " ++ Command.usage
  | badUsage usage => "usage: " ++ usage
  | badCount word => "version count must be a positive integer, got " ++ Text.Quoted.encode word

/-- The kind of a line that is no command, in one word. -/
def CommandFault.kind : CommandFault → String
  | empty => "Empty"
  | unknown _ => "Unknown"
  | badUsage _ => "Usage"
  | badCount _ => "InvalidCount"

end ReplicaRing
