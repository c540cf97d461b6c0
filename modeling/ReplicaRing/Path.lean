/-!
Paths as text. A path names components between slashes; trailing slashes and `.` components are
skipped, except for a `.` that starts the path. A path has a file name when its last component is
neither `.` nor `..` nor the root.
-/
namespace ReplicaRing.Path

/-- A reversed path without trailing slashes and without trailing `.` components. -/
def dropTrailing : List Char → List Char
  | '/' :: r => dropTrailing r
  | '.' :: '/' :: r => dropTrailing ('/' :: r)
  | r => r

/-- The last component, when it can name a file. -/
def fileName? (path : List Char) : Option (List Char) :=
  let name := ((dropTrailing path.reverse).takeWhile (· ≠ '/')).reverse
  if name = [] ∨ name = ['.'] ∨ name = ['.', '.'] then none else some name

/-- The path without its last component, and without the slashes and dots before it. -/
def parent (path : List Char) : List Char :=
  let rest := dropTrailing ((dropTrailing path.reverse).dropWhile (· ≠ '/'))
  if rest = [] ∧ path.head? = some '/' then ['/'] else rest.reverse

/-- A path, the path that it is below, and so on. The empty path is left out. -/
def ancestors (path : List Char) : List (List Char) := climb path.length path
where
  /-- Climbs at most so many steps. -/
  climb : Nat → List Char → List (List Char)
    | 0, _ => []
    | n + 1, path => if path = [] then [] else path :: climb n (parent path)

/-- `name` below `path`. An absolute `name` stands alone; a slash is put between only if needed. -/
def join (path name : List Char) : List Char :=
  match name with
  | '/' :: _ => name
  | _ =>
    match path.getLast? with
    | none => name
    | some c => if c = '/' then path ++ name else path ++ '/' :: name

/-- The path with `name` for its last component. A path that has no file name gets `name` below
it. -/
def withFileName (path name : List Char) : List Char :=
  match fileName? path with
  | some _ => join (parent path) name
  | none => join path name

example : ancestors "a//b/.".toList = ["a//b/.".toList, "a".toList] := by decide
example : withFileName "a//b".toList ['c'] = "a/c".toList := by decide
example : withFileName "a/..".toList ['c'] = "a/../c".toList := by decide
example : withFileName "./././x".toList ['c'] = "./c".toList := by decide
example : withFileName "/.".toList ['c'] = "/./c".toList := by decide

end ReplicaRing.Path
