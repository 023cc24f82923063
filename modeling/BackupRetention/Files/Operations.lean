import BackupRetention.Files.Lookup

/-!
# Reading and changing files

What a program can do with the files of a machine. An operation that fails leaves the tree
as it was.

## Main definitions

* `FileTree.readText`, `FileTree.list`: reading a file and listing a directory.
* `FileTree.touch`, `FileTree.append`: a file opened for writing, created if need be.
* `FileTree.unlink`, `FileTree.removeAll`: taking away a name, or a whole tree.
* `FileTree.makeDirs`: a directory with all directories above it.
-/

namespace BackupRetention.FileTree

/-- The text in the file at `path`. -/
def readText (t : FileTree) (path : String) : Except IoFault String :=
  match t.find true path with
  | .error e => .error e
  | .ok (_, .file content) =>
    match String.fromUTF8? content with
    | some s => .ok s
    | none => .error .notText
  | .ok (_, .dir) => .error (.system .isDirectory)
  | .ok _ => .ok ""

/-- The names in the directory at `path`. -/
def list (t : FileTree) (path : String) : Except IoFault (List String) :=
  match t.find true path with
  | .error e => .error e
  | .ok (l, .dir) => .ok (t.children l)
  | .ok _ => .error (.system .notDirectory)

/-- Whether something is at `path`. A link to nothing counts as nothing. -/
def isThere (t : FileTree) (path : String) : Bool :=
  match t.find true path with
  | .ok _ => true
  | .error _ => false

/-- Whether `path` leads to a directory. -/
def isDir (t : FileTree) (path : String) : Bool :=
  match t.find true path with
  | .ok (_, .dir) => true
  | _ => false

/-- Opens the file at `path` for writing, creating it empty if it is missing. What a file
holds is kept. The answer is where the open file is. -/
def touch (t : FileTree) (path : String) : Except IoFault Location × FileTree :=
  match t.lookup true path with
  | .error e => (.error e, t)
  | .ok (.found _ .dir) => (.error (.system .isDirectory), t)
  | .ok (.found l _) => (.ok l, t)
  | .ok (.vacant l) =>
    if Path.endsInSlash path then (.error (.system .isDirectory), t)
    else (.ok l, t.set l (.file .empty))

/-- Writes at the end of the open file at `l`. A file that is gone takes the text without
an error, and it is lost. -/
def append (t : FileTree) (l : Location) (text : String) : Except IoFault Unit × FileTree :=
  match t.node? l with
  | some (.file content) => (.ok (), t.set l (.file (content ++ text.toUTF8)))
  | some .fullDevice => (.error (.system .noSpace), t)
  | _ => (.ok (), t)

/-- Takes away the name at `path`, which must not be that of a directory. -/
def unlink (t : FileTree) (path : String) : Except IoFault Unit × FileTree :=
  match t.find false path with
  | .error e => (.error e, t)
  | .ok (_, .dir) => (.error (.system .isDirectory), t)
  | .ok (l, _) => (.ok (), t.erase l)

/-- Takes away what is at `path` with everything below it. Nothing there is fine. -/
def removeAll (t : FileTree) (path : String) : FileTree :=
  match t.find false path with
  | .ok (l, _) => t.eraseBelow l
  | .error _ => t

/-- Makes the directory at `path`; the one above it must be there. -/
def makeDir (t : FileTree) (path : String) : Except IoFault Unit × FileTree :=
  match t.lookup false path with
  | .error e => (.error e, t)
  | .ok (.found _ _) => (.error (.system .exists_), t)
  | .ok (.vacant l) => (.ok (), t.set l .dir)

/-- Makes the first of `paths`, after the ones behind it where they are missing. A directory
that is there already will do. -/
def makeAll (t : FileTree) : List String → Except IoFault Unit × FileTree
  | [] => (.error (.other "failed to create whole tree"), t)
  | path :: above =>
    if path.toList = [] then (.ok (), t)
    else
      match t.makeDir path with
      | (.ok (), t) => (.ok (), t)
      | (.error e, t) =>
        if e = .system .noEntry then
          match t.makeAll above with
          | (.error e, t) => (.error e, t)
          | (.ok (), t) =>
            match t.makeDir path with
            | (.ok (), t) => (.ok (), t)
            | (.error e, t) => if t.isDir path then (.ok (), t) else (.error e, t)
        else if t.isDir path then (.ok (), t)
        else (.error e, t)

/-- Makes the directory at `path` and all directories above it. -/
def makeDirs (t : FileTree) (path : String) : Except IoFault Unit × FileTree :=
  t.makeAll (Path.ancestors path)

/-- Writes a file in place of what it held, or a new one. -/
def write (t : FileTree) (path : String) (content : ByteArray) :
    Except IoFault Unit × FileTree :=
  match t.touch path with
  | (.error e, t) => (.error e, t)
  | (.ok l, t) =>
    match t.node? l with
    | some (.file _) => (.ok (), t.set l (.file content))
    | some .fullDevice => (.error (.system .noSpace), t)
    | _ => (.ok (), t)

/-- Makes a link at `path`, where nothing may be yet. -/
def makeLink (t : FileTree) (path target : String) : Except IoFault Unit × FileTree :=
  match t.lookup false path with
  | .error e => (.error e, t)
  | .ok (.found _ _) => (.error (.system .exists_), t)
  | .ok (.vacant l) => (.ok (), t.set l (.link target))

end BackupRetention.FileTree
