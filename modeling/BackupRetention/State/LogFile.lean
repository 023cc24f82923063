import BackupRetention.Backup
import BackupRetention.Calendar.Written

/-!
# Logs of backups

Every attempt leaves a log. Its name tells the date, the device, the host and the volume,
and its last line that is not blank tells whether the attempt failed.
-/

namespace BackupRetention.LogFile

/-- `cs` without `ending` at its end. -/
def dropEnding? (ending cs : List Char) : Option (List Char) :=
  if ending <:+ cs then some (cs.take (cs.length - ending.length)) else none

theorem dropEnding?_append (ending cs : List Char) :
    dropEnding? ending (cs ++ ending) = some cs := by
  simp [dropEnding?]

/-- `cs` without `start` at its start. -/
def dropStart? (start cs : List Char) : Option (List Char) :=
  if start <+: cs then some (cs.drop start.length) else none

theorem dropStart?_append (start cs : List Char) :
    dropStart? start (start ++ cs) = some cs := by
  simp [dropStart?]

def ending : List Char := ".log".toList

/-- What the name of a log says. The date is not checked yet. -/
structure Label where
  dateText : String
  device : String
  host : String
  volume : String
  deriving DecidableEq, Repr

/-- Whether `cs` is a number, of whatever size. -/
def isNumber (cs : List Char) : Bool :=
  !cs.isEmpty && cs.all Char.isDigit

/-- Reads the name of a log: six parts with `-` between them, the first three of them
numbers. -/
def label? (name : String) : Option Label :=
  match dropEnding? ending name.toList with
  | none => none
  | some stem =>
    match Text.pieces '-' stem with
    | [y, m, d, device, host, volume] =>
      if isNumber y ∧ isNumber m ∧ isNumber d ∧ device ≠ [] ∧ host ≠ [] ∧ volume ≠ [] then
        some ⟨String.ofList (y ++ '-' :: (m ++ '-' :: d)), String.ofList device,
          String.ofList host, String.ofList volume⟩
      else none
    | _ => none

def errorMark : List Char := "ERROR:".toList

/-- Whether there is anything on a line. -/
def isBlankLine (line : List Char) : Bool :=
  (Text.trimChars line).isEmpty

/-- The status that a log records: 1 if its last line that is not blank reports an error. -/
def outcome (content : String) : Int :=
  match (Text.lines content.toList).reverse.find? fun line => !isBlankLine line with
  | some line => if errorMark <+: line then 1 else 0
  | none => 0

example : label? "2024-02-29-dev0-host.example-root.log" =
    some ⟨"2024-02-29", "dev0", "host.example", "root"⟩ := by decide

example : label? "prune-2024-02-29.log" = none := by decide

example : outcome "copying\nERROR: status 23\n\n" = 1 := by decide

end BackupRetention.LogFile
