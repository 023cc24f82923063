import BackupRetention.Fault.Basic
import BackupRetention.Files.Operations
import BackupRetention.State.Basic
import BackupRetention.State.LogFile

/-!
# Loading a state

The state of all volumes is told by the logs in one directory. Entries with other names are
passed over; a name with an impossible date, or a log that cannot be read, ends the loading.

## Main definitions

* `State.ofListing`: the state that a listing of logs tells.
* `State.load`: the state that the configured directory tells.
-/

namespace BackupRetention

/-- An entry of a directory: its name and what reading it gives. -/
structure Listed where
  name : String
  content : Except IoFault String

namespace State

def readingLog (path : String) : String :=
  "Reading backup log " ++ Text.quote path ++ " failed"

def readingDirectory (path : String) : String :=
  "Reading log directory " ++ Text.quote path ++ " failed"

/-- The backup that an entry records, if it is a log of a backup. The date is looked at
before the content. -/
def recorded (logs : String) (entry : Listed) : Except Fault (Option Backup) :=
  match LogFile.label? entry.name with
  | none => .ok none
  | some label =>
    match within "read_state" (dated (Date.ofText label.dateText)) with
    | .error f => .error f
    | .ok date =>
      match entry.content with
      | .error e => .error (.during (readingLog (Path.join logs entry.name)) (.io e))
      | .ok content =>
        .ok (some ⟨label.host, label.volume, label.device, date, LogFile.outcome content⟩)

/-- Files what the entries record, in the order of the listing. Of several records for one
place the first stays, and records of volumes that are not configured are left out. -/
def fileAll (logs : String) (serial : Nat) (s : State) : List Listed → Except Fault State
  | [] => .ok s
  | entry :: rest =>
    match recorded logs entry with
    | .error f => .error f
    | .ok none => fileAll logs (serial + 1) s rest
    | .ok (some b) => fileAll logs (serial + 1) (s.add ⟨b, serial⟩).2 rest

/-- The state that a listing of the logs tells. -/
def ofListing (c : Config) (entries : List Listed) : Except Fault State :=
  fileAll c.logs 0 (ofConfig c) entries

/-- The entries of a directory, with what reading each of them gives. -/
def listed (t : FileTree) (logs : String) : Except IoFault (List Listed) :=
  match t.list logs with
  | .error e => .error e
  | .ok names => .ok (names.map fun name => ⟨name, t.readText (Path.join logs name)⟩)

/-- The state that the configured log directory tells. -/
def load (c : Config) (t : FileTree) : Except Fault State :=
  match listed t c.logs with
  | .error e => .error (.within "read_state" (.during (readingDirectory c.logs) (.io e)))
  | .ok entries => ofListing c entries

end State

end BackupRetention
