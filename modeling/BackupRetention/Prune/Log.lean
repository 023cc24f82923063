import BackupRetention.Fault.Basic
import BackupRetention.Files.Operations

/-!
# Prune logs

One file a day among the logs, with a line for each removal that was tried. A failure is
folded onto one line. Lines are added at the end of whatever the file holds.

## Main definitions

* `PruneLog.openFor`: the log of a day, created if need be.
* `PruneLog.removed`, `PruneLog.failed`: one more line.
-/

namespace BackupRetention

/-- An open log. -/
structure PruneLog where
  path : String
  today : Date
  /-- Where the open file is. -/
  place : Location
  deriving DecidableEq, Repr

namespace PruneLog

def namePrefix : String := "prune-"

def nameEnding : String := ".log"

def fileName (date : Date) : String :=
  namePrefix ++ date.text ++ nameEnding

/-- The log of a day. -/
def pathFor (logs : String) (date : Date) : String :=
  Path.join logs (fileName date)

def openingFailed (path : String) : String :=
  "Opening prune log " ++ Text.quote path ++ " failed"

def writingFailed (path : String) : String :=
  "Writing prune log " ++ Text.quote path ++ " failed"

/-- Opens the log of a day. -/
def openFor (logs : String) (today : Date) (t : FileTree) : Except Fault PruneLog × FileTree :=
  let path := pathFor logs today
  match t.touch path with
  | (.error e, t) => (.error (.during (openingFailed path) (.io e)), t)
  | (.ok place, t) => (.ok ⟨path, today, place⟩, t)

/-- Adds a line. -/
def writeLine (log : PruneLog) (line : String) (t : FileTree) : Except Fault Unit × FileTree :=
  match t.append log.place (line ++ "\n") with
  | (.error e, t) => (.error (.during (writingFailed log.path) (.io e)), t)
  | (.ok (), t) => (.ok (), t)

/-- The line about a backup that was removed. -/
def removedLine (today : Date) (path : String) : String :=
  today.text ++ ": removed " ++ path

/-- The line about a backup that could not be removed. -/
def failedLine (today : Date) (path : String) (reason : Fault) : String :=
  today.text ++ ": FAILED to remove " ++ path ++ ": " ++ Text.fold reason.text

/-- Writes to the log, unless the disk refuses to take more. -/
def unlessRefused (log : PruneLog) (refused : Option IoFault)
    (write : FileTree → Except Fault Unit × FileTree) (t : FileTree) :
    Except Fault Unit × FileTree :=
  match refused with
  | none => write t
  | some e => (.error (.during (writingFailed log.path) (.io e)), t)

def removed (log : PruneLog) (path : String) (t : FileTree) : Except Fault Unit × FileTree :=
  log.writeLine (removedLine log.today path) t

def failed (log : PruneLog) (path : String) (reason : Fault) (t : FileTree) :
    Except Fault Unit × FileTree :=
  log.writeLine (failedLine log.today path reason) t

end PruneLog

end BackupRetention
