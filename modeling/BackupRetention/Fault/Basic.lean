import BackupRetention.Calendar.Written
import BackupRetention.Fault.Violation
import BackupRetention.Schedule.ActionId

/-!
# Faults

Everything that can go wrong, with the layers of context added on the way up and with
several faults held together as one.

## Main definitions

* `Fault.parts`, `Fault.gather`: the faults inside an aggregate, and an aggregate of faults.
* `Fault.isFatal`: whether a fault ends a run.
* `Fault.text`: the text of a fault, each layer indented below its heading.
-/

namespace BackupRetention

inductive Fault where
  | io (cause : IoFault)
  | malformed
  | rejected (fields : List (String × List Violation))
  | invalidDate (date : InvalidDate)
  | untracked (id : ActionId)
  | commandFailed (program : String) (status : Int)
  | during (message : String) (cause : Fault)
  | within (function : String) (cause : Fault)
  | several (members : List Fault)

namespace Fault

/-- A fault that the operating system numbered. -/
def system (number : Errno) : Fault :=
  .io (.system number)

/-! ## Aggregates -/

mutual

/-- The faults of an aggregate, at any depth; a layer of context keeps an aggregate below
it whole. -/
def parts : Fault → List Fault
  | .several members => partsOfAll members
  | .io cause => [.io cause]
  | .malformed => [.malformed]
  | .rejected fields => [.rejected fields]
  | .invalidDate date => [.invalidDate date]
  | .untracked id => [.untracked id]
  | .commandFailed program status => [.commandFailed program status]
  | .during message cause => [.during message cause]
  | .within function cause => [.within function cause]

def partsOfAll : List Fault → List Fault
  | [] => []
  | f :: fs => parts f ++ partsOfAll fs

end

@[simp] theorem partsOfAll_eq (fs : List Fault) : partsOfAll fs = fs.flatMap parts := by
  induction fs with
  | nil => rfl
  | cons f fs ih => simp [partsOfAll, ih]

/-- One fault for a list of them. There is no aggregate of nothing. -/
def gather : List Fault → Option Fault
  | [] => none
  | f :: fs => some (.several ((f :: fs).flatMap parts))

/-- Success, unless something went wrong. -/
def raiseAll (fs : List Fault) : Except Fault Unit :=
  match gather fs with
  | none => .ok ()
  | some f => .error f

@[simp] theorem raiseAll_nil : raiseAll [] = .ok () := rfl

/-! ## Severity -/

mutual

/-- Broken promises and malformed dates end a run; a caller may recover from all else. -/
def isFatal : Fault → Bool
  | .invalidDate _ => true
  | .untracked _ => true
  | .during _ cause => isFatal cause
  | .within _ cause => isFatal cause
  | .several members => anyFatal members
  | .io _ => false
  | .malformed => false
  | .rejected _ => false
  | .commandFailed _ _ => false

def anyFatal : List Fault → Bool
  | [] => false
  | f :: fs => isFatal f || anyFatal fs

end

@[simp] theorem anyFatal_eq (fs : List Fault) : anyFatal fs = fs.any isFatal := by
  induction fs with
  | nil => rfl
  | cons f fs ih => simp [anyFatal, ih]

/-! ## Context -/

/-- The fault below all layers of context. -/
def core : Fault → Fault
  | .during _ cause => core cause
  | .within _ cause => core cause
  | f => f

/-- The headings of the layers of context, outermost first. -/
def layers : Fault → List String
  | .during message cause => message :: layers cause
  | .within function cause => function :: layers cause
  | _ => []

/-! ## Text -/

def reasonText : DateReason → String
  | .badFormat => "bad format"
  | .yearTooSmall => "year too small"
  | .monthOutOfRange => "month out of range"
  | .dayOutOfRange => "day out of range"

def fieldText (field : String × List Violation) : String :=
  field.1 ++ ": " ++ String.intercalate ", " (field.2.map Violation.text)

mutual

/-- The text of a fault. -/
def text : Fault → String
  | .io cause => cause.text
  | .malformed => "malformed configuration"
  | .rejected fields => String.intercalate "\n" (fields.map fieldText)
  | .invalidDate date =>
    "invalid date string " ++ Text.quote date.input ++ " - " ++ reasonText date.reason
  | .untracked id =>
    "action " ++ id.text ++ " completed but is not tracked by this action list"
  | .commandFailed program status =>
    program ++ " exited with status " ++ String.ofList (Text.hexWord status)
  | .during message cause => message ++ ":\n" ++ Text.indent (text cause)
  | .within function cause => function ++ " failed:\n" ++ Text.indent (text cause)
  | .several members => String.intercalate "\n\n" (textOfAll members)

def textOfAll : List Fault → List String
  | [] => []
  | f :: fs => text f :: textOfAll fs

end

@[simp] theorem textOfAll_eq (fs : List Fault) : textOfAll fs = fs.map text := by
  induction fs with
  | nil => rfl
  | cons f fs ih => simp [textOfAll, ih]

instance : ToString Fault := ⟨text⟩

end Fault

/-- Adds a message to a failure. -/
def during {α : Type} (message : String) : Except Fault α → Except Fault α
  | .ok a => .ok a
  | .error f => .error (.during message f)

/-- Adds the name of a function to a failure. -/
def within {α : Type} (function : String) : Except Fault α → Except Fault α
  | .ok a => .ok a
  | .error f => .error (.within function f)

@[simp] theorem during_ok {α : Type} (message : String) (a : α) :
    during message (.ok a) = .ok a := rfl

@[simp] theorem during_error {α : Type} (message : String) (f : Fault) :
    during message (.error f : Except Fault α) = .error (.during message f) := rfl

@[simp] theorem within_ok {α : Type} (function : String) (a : α) :
    within function (.ok a) = .ok a := rfl

@[simp] theorem within_error {α : Type} (function : String) (f : Fault) :
    within function (.error f : Except Fault α) = .error (.within function f) := rfl

/-- A rejected date as a fault. -/
def dated {α : Type} : Except InvalidDate α → Except Fault α
  | .ok a => .ok a
  | .error e => .error (.invalidDate e)

@[simp] theorem dated_ok {α : Type} (a : α) : dated (.ok a) = .ok a := rfl

@[simp] theorem dated_error {α : Type} (e : InvalidDate) :
    dated (.error e : Except InvalidDate α) = .error (.invalidDate e) := rfl

end BackupRetention
