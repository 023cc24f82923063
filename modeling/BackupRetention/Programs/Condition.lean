import BackupRetention.Files.Operations
import BackupRetention.Text.Decimal

/-!
# Conditions on texts, numbers and files

What the program `test` decides about its arguments. Numbers are compared as numbers; texts
that are no numbers make a condition malformed. Everything on the machine can be read and
written, and only directories and programs can be entered or run.

## Main definitions

* `Condition.holds?`: whether a condition holds, if it is one.
* `Condition.status`: the exit status for a condition.
-/

namespace BackupRetention

namespace Programs

/-- The directories that programs are looked for in. -/
def searchPath : List String := ["/bin", "/usr/bin"]

/-- The programs that there are. -/
def available : List String := ["true", "false", "test", "[", "sh", "rm"]

/-- The paths of all programs. -/
def paths : List String :=
  searchPath.flatMap fun d => available.map fun p => d ++ "/" ++ p

end Programs

namespace Condition

def isLink (t : FileTree) (path : String) : Bool :=
  match t.find false path with
  | .ok (_, .link _) => true
  | _ => false

def integer? (s : String) : Option Int :=
  match s.toList with
  | '-' :: cs => (Text.number? cs).map fun n => -(n : Int)
  | '+' :: cs => (Text.number? cs).map Int.ofNat
  | cs => (Text.number? cs).map Int.ofNat

/-- A condition on one text or on one file. -/
def unary (t : FileTree) (operator operand : String) : Option Bool :=
  match operator with
  | "-n" => some (operand ≠ "")
  | "-z" => some (operand = "")
  | "-e" => some (t.isThere operand)
  | "-d" => some (t.isDir operand)
  | "-f" => some (match t.find true operand with
    | .ok (_, .file _) => true
    | _ => false)
  | "-s" => some (match t.find true operand with
    | .ok (_, .file content) => content.size ≠ 0
    | .ok (_, .dir) => true
    | _ => false)
  | "-h" => some (isLink t operand)
  | "-L" => some (isLink t operand)
  | "-r" => some (t.isThere operand)
  | "-w" => some (t.isThere operand)
  | "-x" => some (t.isDir operand || Programs.paths.contains operand)
  | _ => none

/-- A comparison of two numbers; other texts are no numbers. -/
def compare (holds : Int → Int → Bool) (a b : String) : Option Bool :=
  match integer? a, integer? b with
  | some a, some b => some (holds a b)
  | _, _ => none

/-- A condition on two texts or two numbers. -/
def binary (a operator b : String) : Option Bool :=
  match operator with
  | "=" => some (a = b)
  | "==" => some (a = b)
  | "!=" => some (a ≠ b)
  | "-eq" => compare (fun a b => a = b) a b
  | "-ne" => compare (fun a b => a ≠ b) a b
  | "-lt" => compare (fun a b => a < b) a b
  | "-le" => compare (fun a b => a ≤ b) a b
  | "-gt" => compare (fun a b => a > b) a b
  | "-ge" => compare (fun a b => a ≥ b) a b
  | _ => none

/-- Whether a condition holds, if it is one. -/
def holds? (t : FileTree) : List String → Option Bool
  | [] => some false
  | [a] => some (a ≠ "")
  | ["!", a] => some (a = "")
  | [operator, operand] => unary t operator operand
  | [a, operator, b] =>
    match binary a operator b with
    | some holds => some holds
    | none => if a = "!" then (unary t operator b).map not else none
  | ["!", a, operator, b] => (binary a operator b).map not
  | _ => none

/-- The status of a condition: 0 if it holds, 1 if not, 2 if it is malformed. -/
def status (t : FileTree) (args : List String) : Int :=
  match holds? t args with
  | some true => 0
  | some false => 1
  | none => 2

end Condition

end BackupRetention
