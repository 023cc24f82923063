import BackupRetention.Fault.Errno
import BackupRetention.Text.Quoted

/-!
# Violations of the rules for settings

A configuration that reads well may still hold values that the rules forbid. Each
violation has a code and, but for numbers out of range, a message.
-/

namespace BackupRetention

/-- What went wrong in reading or writing files. -/
inductive IoFault where
  | system (number : Errno)
  | notText
  | other (text : String)
  deriving DecidableEq, Repr

def IoFault.text : IoFault → String
  | .system number => number.text
  | .notText => "stream did not contain valid UTF-8"
  | .other text => text

/-- The things that have names. -/
inductive NameKind where
  | device
  | volume
  | host
  deriving DecidableEq, Repr

/-- The characters that a name may hold besides letters and digits. -/
def NameKind.extra : NameKind → String
  | .device => "_."
  | .volume => "_."
  | .host => "."

inductive Violation where
  | name (kind : NameKind) (given : String)
  | notDirectory (path : String)
  | unusableDirectory (path : String) (cause : IoFault)
  | negative
  | volumeAge (host volume : String)
  deriving DecidableEq, Repr

namespace Violation

def code : Violation → String
  | .name .device _ => "InvalidDeviceName"
  | .name .volume _ => "InvalidVolumeName"
  | .name .host _ => "InvalidHostName"
  | .notDirectory _ => "InvalidDirectory"
  | .unusableDirectory _ _ => "InvalidDirectory"
  | .negative => "range"
  | .volumeAge _ _ => "InvalidVolume"

def message : Violation → Option String
  | .name kind given =>
    some ("Invalid name " ++ Text.quote given ++ ", use letters, digits and "
      ++ Text.quote kind.extra)
  | .notDirectory path => some (Text.quote path ++ " is not a directory")
  | .unusableDirectory path cause =>
    some ("cannot create or access log path " ++ Text.quote path ++ ": " ++ cause.text)
  | .negative => none
  | .volumeAge host volume =>
    some (host ++ ":" ++ volume ++ ": prune_age: Validation error: range")

/-- The message, or the code where there is none. -/
def text (v : Violation) : String :=
  v.message.getD ("Validation error: " ++ v.code)

end Violation

end BackupRetention
