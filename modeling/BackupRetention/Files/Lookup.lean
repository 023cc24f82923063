import BackupRetention.Fault.Violation
import BackupRetention.Files.Tree

/-!
# Looking up paths

A path leads from the root, or from where relative paths start, along its names. Links on
the way are followed, up to a limit; a link at the end is followed or not as the caller
asks. What a path leads to is a node, or a free name in a directory.
-/

namespace BackupRetention

/-- Where a path leads. -/
inductive Place where
  | found (l : Location) (n : Node)
  | vacant (l : Location)
  deriving DecidableEq

namespace FileTree

/-- How many links one look-up follows. -/
def maxLinks : Nat := 40

/-- The longest name, and the first length that is too long for a path, in bytes. -/
def maxName : Nat := 255

def maxPath : Nat := 4096

/-- Follows the names from the directory `here`. Behind a link `jump` goes on. -/
def walkUntil (t : FileTree) (followLast : Bool)
    (jump : Location → List String → Except Errno Place) (here : Location) :
    List String → Except Errno Place
  | [] => .ok (.found here .dir)
  | name :: rest =>
    if name = "." then t.walkUntil followLast jump here rest
    else if name = ".." then t.walkUntil followLast jump here.dropLast rest
    else if maxName < name.utf8ByteSize then .error .nameTooLong
    else
      let l := here ++ [name]
      match t.node? l with
      | none => if rest = [] then .ok (.vacant l) else .error .noEntry
      | some .dir => t.walkUntil followLast jump l rest
      | some (.link target) =>
        if rest = [] ∧ ¬ followLast then .ok (.found l (.link target))
        else jump (if Path.isAbsolute target then [] else here) (Path.names target ++ rest)
      | some n => if rest = [] then .ok (.found l n) else .error .notDirectory

/-- Follows the names from a directory, with at most so many links on the way. -/
def walk (t : FileTree) (followLast : Bool) :
    Nat → Location → List String → Except Errno Place
  | 0 => t.walkUntil followLast fun _ _ => .error .tooManyLinks
  | links + 1 => t.walkUntil followLast (t.walk followLast links)

/-- A path with a slash at its end means a directory. -/
def demandDirectory (path : String) : Place → Except Errno Place
  | .found l .dir => .ok (.found l .dir)
  | .found l n => if Path.endsInSlash path then .error .notDirectory else .ok (.found l n)
  | .vacant l => .ok (.vacant l)

/-- Where `path` leads. -/
def lookup (t : FileTree) (follow : Bool) (path : String) : Except IoFault Place :=
  if path.toList = [] then .error (.system .noEntry)
  else if path.toList.contains '\x00' then
    .error (.other "file name contained an unexpected NUL byte")
  else if maxPath ≤ path.utf8ByteSize then .error (.system .nameTooLong)
  else
    let start := if Path.isAbsolute path then [] else t.current
    match t.walk (follow || Path.endsInSlash path) maxLinks start (Path.names path) with
    | .error e => .error (.system e)
    | .ok place =>
      match demandDirectory path place with
      | .error e => .error (.system e)
      | .ok place => .ok place

/-- The node that `path` leads to. -/
def find (t : FileTree) (follow : Bool) (path : String) : Except IoFault (Location × Node) :=
  match t.lookup follow path with
  | .error e => .error e
  | .ok (.vacant _) => .error (.system .noEntry)
  | .ok (.found l n) => .ok (l, n)

end FileTree

end BackupRetention
