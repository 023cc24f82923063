import BackupRetention.Backup
import BackupRetention.Files.Operations
import BackupRetention.Programs.Runner

/-!
# Removing a backup

The sentinel is placed first, so that data of which only a part is left can be told. Then the
log goes, then the data; the sentinel is cleared once the data is gone. A step that fails
ends the removal, except that a sentinel may stay behind.

## Main definitions

* `Removal.Step`: the steps in their order.
* `Removal.run`: all steps, up to the first that fails.
-/

namespace BackupRetention

/-- What is to be removed and from where. -/
structure Removal where
  backup : Backup
  store : String
  logs : String
  deriving DecidableEq, Repr

namespace Removal

inductive Step where
  | placeSentinel
  | dropLog
  | removeData
  | clearSentinel
  deriving DecidableEq, Repr

def dataPath (x : Removal) : String := x.backup.dataPath x.store

def sentinelPath (x : Removal) : String := x.backup.sentinelPath x.store

def logPath (x : Removal) : String := x.backup.logPath x.logs

def creating (path : String) : String := "creating " ++ path

def removing (path : String) : String := "removing " ++ path

def placeSentinel (x : Removal) (m : Machine) : Except Fault Unit × Machine :=
  match m.tree.touch x.sentinelPath with
  | (.error e, tree) =>
    (.error (.during (creating x.sentinelPath) (.io e)), { m with tree := tree })
  | (.ok _, tree) => (.ok (), { m with tree := tree })

def dropLog (x : Removal) (m : Machine) : Except Fault Unit × Machine :=
  match m.tree.unlink x.logPath with
  | (.error e, tree) => (.error (.during (removing x.logPath) (.io e)), { m with tree := tree })
  | (.ok (), tree) => (.ok (), { m with tree := tree })

/-- Leaves the data to a program. A status other than 0 is a failure. -/
def removeData (runner : Runner) (x : Removal) (m : Machine) : Except Fault Unit × Machine :=
  match m.execute runner (removeTree x.dataPath) with
  | (.error f, m) => (.error (.during (removing x.dataPath) f), m)
  | (.ok status, m) =>
    (if status = 0 then .ok ()
      else .error (.during (removing x.dataPath) (.commandFailed "rm" status)), m)

/-- A sentinel that stays behind is no failure. -/
def clearSentinel (x : Removal) (m : Machine) : Except Fault Unit × Machine :=
  (.ok (), { m with tree := (m.tree.unlink x.sentinelPath).2 })

def perform (runner : Runner) (x : Removal) : Step → Machine → Except Fault Unit × Machine
  | .placeSentinel => x.placeSentinel
  | .dropLog => x.dropLog
  | .removeData => x.removeData runner
  | .clearSentinel => x.clearSentinel

/-- Takes steps in order until one fails. -/
def performAll (runner : Runner) (x : Removal) :
    List Step → Machine → Except Fault Unit × Machine
  | [], m => (.ok (), m)
  | s :: rest, m =>
    match x.perform runner s m with
    | (.error f, m) => (.error f, m)
    | (.ok (), m) => x.performAll runner rest m

def steps : List Step := [.placeSentinel, .dropLog, .removeData, .clearSentinel]

/-- Removes the backup. -/
def run (runner : Runner) (x : Removal) (m : Machine) : Except Fault Unit × Machine :=
  x.performAll runner steps m

theorem performAll_append (runner : Runner) (x : Removal) (before after : List Step)
    (m : Machine) :
    x.performAll runner (before ++ after) m =
      match x.performAll runner before m with
      | (.error f, m) => (.error f, m)
      | (.ok (), m) => x.performAll runner after m := by
  induction before generalizing m with
  | nil => rfl
  | cons s rest ih =>
    simp only [List.cons_append, performAll]
    rcases x.perform runner s m with ⟨_ | _, n⟩ <;> simp [ih]

end Removal

end BackupRetention
