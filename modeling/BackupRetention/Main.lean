import BackupRetention.Program
import BackupRetention.Programs.System
import Std.Time

/-!
# The executable

Takes a picture of the files that a run can look at, makes the run on the picture and carries
its changes out in their order. What a link leads to is pictured in its place.
-/

namespace BackupRetention.Disk

/-- Where a path leads from the current directory. -/
def locate (current : Location) (path : String) : Location :=
  (Path.names path).foldl step (if Path.isAbsolute path then [] else current)
where
  step (l : Location) (name : String) : Location :=
    if name = "." then l else if name = ".." then l.dropLast else l ++ [name]

/-- The absolute path of a place. -/
def pathOf (l : Location) : String :=
  "/" ++ String.intercalate "/" l

/-- Adds what is at `l` to a picture, but not what is in a directory. -/
def look (l : Location) (t : FileTree) : IO FileTree := do
  let path := (← IO.currentDir).join (pathOf l)
  if l.isEmpty || (t.node? l).isSome then return t
  if !(← path.pathExists) then return t
  match (← path.metadata).type with
  | .dir => return t.set l .dir
  | .file => return t.set l (.file (← IO.FS.readBinFile path))
  | _ => return t.set l .nullDevice

/-- Adds what is at `l` and the directories on the way. -/
def lookAt (l : Location) (t : FileTree) : IO FileTree :=
  (List.range (l.length + 1)).foldlM (fun t n => look (l.take n) t) t

/-- Adds the entries of the directory at `l`. -/
def lookInto (l : Location) (t : FileTree) : IO FileTree := do
  let t ← lookAt l t
  if t.node? l = some .dir then
    let entries ← ((← IO.currentDir).join (pathOf l)).readDir
    entries.foldlM (fun t e => look (l ++ [e.fileName]) t) t
  else return t

/-- Adds the entries of a directory down to `depth` levels. -/
def lookBelow : Nat → Location → FileTree → IO FileTree
  | 0, _, t => return t
  | depth + 1, l, t => do
    let t ← lookInto l t
    (t.children l).foldlM (fun t name => lookBelow depth (l ++ [name]) t) t

/-- The picture for a run with a configuration file: the file, the logs, and the stores with
the data of hosts and volumes. -/
def picture (configPath : String) : IO FileTree := do
  let current := locate [] (toString (← IO.currentDir))
  let t ← lookAt (locate current configPath) { FileTree.empty with current := current }
  match Config.read configPath t with
  | .error _ => return { t with changes := [] }
  | .ok c =>
    let t ← lookBelow 1 (locate current c.logs) t
    let t ← c.stores.foldlM (fun t store => lookBelow 3 (locate current store) t) t
    return { t with changes := [] }

/-- Carries a change out. -/
def carryOut (change : Change) : IO Unit := do
  let here ← IO.currentDir
  match change with
  | .put l (.file content) => IO.FS.writeBinFile (here.join (pathOf l)) content
  | .put l _ => IO.FS.createDirAll (here.join (pathOf l))
  | .drop l => IO.FS.removeFile (here.join (pathOf l))
  | .dropBelow l =>
    let path := here.join (pathOf l)
    if ← path.isDir then IO.FS.removeDirAll path else IO.FS.removeFile path

/-- The current date of the clock. -/
def today : IO Date := do
  let d ← Std.Time.PlainDate.now
  return ⟨d.year.toInt, d.month.toInt, d.day.toInt⟩

end BackupRetention.Disk

open BackupRetention in
def main (arguments : List String) : IO UInt32 := do
  let configPath := match CommandLine.read arguments with
    | .ok c => c.config.getD CommandLine.defaultConfig
    | .error _ => CommandLine.defaultConfig
  let environment : Program.Environment :=
    ⟨← IO.getEnv "BACKUP_TODAY", ← Disk.today, Programs.system⟩
  let t ← Disk.picture configPath
  let (ending, m) := Program.exit environment arguments (.ofTree t)
  m.tree.changes.reverse.forM Disk.carryOut
  match ending.fault with
  | some f => IO.eprintln f.text
  | none => pure ()
  return ending.status.toUInt32
