import BackupRetention.Programs.Runner
import BackupRetention.Programs.Shell

/-!
# The programs of a machine

The few programs that a machine has: `true`, `false`, `test`, `sh` and `rm`. A program that
cannot be started is a fault; one that ends badly has a status.

## Main definitions

* `Programs.system`: the runner that starts these programs.
-/

namespace BackupRetention.Programs

/-- The program that a command names, or why there is none. A name with a slash is the path of
the program. -/
def resolve (t : FileTree) (name : String) : Except IoFault String :=
  if name.toList.contains '/' then
    if paths.contains name then .ok ((Path.names name).getLast?.getD "")
    else
      match t.find true name with
      | .error e => .error e
      | .ok _ => .error (.system .accessDenied)
  else if name ∈ available then .ok name
  else .error (.system .noEntry)

/-- The operands of a command line without its options. -/
def operands : List String → List String
  | [] => []
  | "--" :: rest => rest
  | a :: rest =>
    if a.toList.head? = some '-' ∧ a ≠ "-" then operands rest else a :: operands rest

/-- The last name of a path without slashes at its end. -/
def lastName (path : String) : String :=
  (Path.names path).getLast?.getD ""

/-- What keeps a whole tree from being removed: the tree itself, or a fault on the way. Names
that stay in place are never removed, nor is the root. -/
def irremovable (t : FileTree) (path : String) : Bool :=
  if path = "" then false
  else if lastName path = "." ∨ lastName path = ".." ∨ Path.names path = [] then true
  else
    match t.find false path with
    | .ok _ => false
    | .error e => e ≠ .system .noEntry ∧ e ≠ .system .notDirectory

/-- Whether every letter of an option is understood, of an option of letters. -/
def understood (args : List String) : Bool :=
  (args.takeWhile (· ≠ "--")).all fun a =>
    match a.toList with
    | '-' :: c :: cs => (c :: cs).all fun c => "rRfidv".toList.contains c
    | _ => true

/-- Removes the trees that are named. -/
def remove (args : List String) (t : FileTree) : Int × FileTree :=
  if understood args then
    let paths := operands args
    (if paths.any (irremovable t) then 1 else 0,
      paths.foldl (fun t path => if irremovable t path then t else t.removeAll path) t)
  else (1, t)

/-- Runs one of the programs. -/
def start (program : String) (args : List String) (t : FileTree) : Int × FileTree :=
  match program, args with
  | "true", _ => (0, t)
  | "false", _ => (1, t)
  | "test", _ => (Condition.status t args, t)
  | "[", _ => (if args.getLast? = some "]" then Condition.status t args.dropLast else 2, t)
  | "sh", "-c" :: script :: arguments =>
    (Shell.run t script (if arguments = [] then ["sh"] else arguments), t)
  | "sh", ["-c"] => (2, t)
  | "sh", [] => (0, t)
  | "sh", path :: arguments =>
    match t.readText path with
    | .ok script => (Shell.run t script (path :: arguments), t)
    | .error _ => (2, t)
  | _, _ => remove args t

/-- The program that a command line starts, if it can be started. No argument may hold a NUL. -/
def startable (t : FileTree) (name : String) (args : List String) : Except IoFault String :=
  if (name :: args).any (·.toList.contains '\x00') then
    .error (.other "nul byte found in provided data")
  else resolve t name

/-- Starts the program that a command line names. -/
def system : Runner := fun args t =>
  match args with
  | [] => (.error (.io (.other "empty command line")), t)
  | name :: rest =>
    match startable t name rest with
    | .error e => (.error (.during ("Failed to run " ++ Text.quote name) (.io e)), t)
    | .ok program =>
      let (status, t) := start program rest t
      (.ok status, t)

end BackupRetention.Programs
