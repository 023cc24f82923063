import BackupRetention.Prune.Log
import BackupRetention.State.LogFile

/-!
# Expiry of prune logs

Prune logs of days that are too long ago are removed. Every one of them is tried; what failed
is reported together.

## Main definitions

* `PruneLog.dated?`: the day of a prune log, by its name.
* `PruneLog.expire`: removes the logs of days that are too long ago.
-/

namespace BackupRetention.PruneLog

/-- What stands for the date in the name of a prune log. -/
def dateText? (name : String) : Option String :=
  match LogFile.dropStart? namePrefix.toList name.toList with
  | none => none
  | some rest => (LogFile.dropEnding? nameEnding.toList rest).map String.ofList

/-- The day of a prune log. Other files have none. -/
def dated? (name : String) : Option Date :=
  match dateText? name with
  | none => none
  | some text => (Date.ofText text).toOption

/-- Whether the file called `name` is the prune log of a day more than `keep` days ago. -/
def isExpired (today : Date) (keep : Int) (name : String) : Bool :=
  match dated? name with
  | some date => keep < today.daysSince date
  | none => false

def removingFailed (path : String) : String :=
  "Removing " ++ Text.quote path ++ " failed"

/-- Removes the files at `paths`: how many could be removed, and what went wrong with the
others. -/
def removeEach (t : FileTree) : List String → Nat × List Fault × FileTree
  | [] => (0, [], t)
  | path :: rest =>
    match t.unlink path with
    | (.ok (), t) =>
      let (count, faults, t) := removeEach t rest
      (count + 1, faults, t)
    | (.error e, t) =>
      let (count, faults, t) := removeEach t rest
      (count, .during (removingFailed path) (.io e) :: faults, t)

/-- Removes the prune logs of days more than `keep` days ago, and tells how many. -/
def expire (logs : String) (today : Date) (keep : Int) (t : FileTree) :
    Except Fault Nat × FileTree :=
  match t.list logs with
  | .error e => (.error (.io e), t)
  | .ok names =>
    let (count, faults, t) :=
      removeEach t ((names.filter (isExpired today keep)).map (Path.join logs))
    (match Fault.raiseAll faults with
      | .ok () => .ok count
      | .error f => .error f, t)

end BackupRetention.PruneLog
