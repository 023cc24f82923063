import BackupRetention.Config.Validation
import BackupRetention.Config.Written

/-!
# Loading a configuration

A configuration file is read, then checked. Checking may create the log directory.
-/

namespace BackupRetention.Config

def parsingFailed (path : String) : String :=
  "Parse YAML config failed: " ++ Text.quote path

def validationFailed (path : String) : String :=
  "Config validation failed: " ++ Text.quote path

/-- The configuration in the file at `path`, not checked yet. -/
def read (path : String) (t : FileTree) : Except Fault Config :=
  match t.find true path with
  | .error e => .error (.io e)
  | .ok _ =>
    match t.readText path with
    | .error _ => .error .malformed
    | .ok s =>
      match ofYaml? s with
      | none => .error .malformed
      | some c => .ok c

/-- The configuration in the file at `path`. -/
def load (path : String) (t : FileTree) : Except Fault Config × FileTree :=
  match during (parsingFailed path) (read path t) with
  | .error f => (.error f, t)
  | .ok c =>
    let (checked, t) := c.validate t
    match during (validationFailed path) checked with
    | .error f => (.error f, t)
    | .ok () => (.ok c, t)

end BackupRetention.Config
