import BackupRetention.Calendar.Date
import BackupRetention.Files.Path

/-!
# Backups

One attempt to back up a volume of a host onto a device, and the places that belong to it:
its data and its sentinel on the store of the device, and its log among the logs.
-/

namespace BackupRetention

/-- One attempt. It is complete when it ended with status 0. -/
structure Backup where
  host : String
  volume : String
  device : String
  date : Date
  status : Int
  deriving DecidableEq, Repr

namespace Backup

def isComplete (b : Backup) : Bool :=
  b.status == 0

/-- The directory with the data of `b` on the store at `store`. -/
def dataPath (b : Backup) (store : String) : String :=
  Path.join (Path.join (Path.join store b.host) b.volume) b.date.text

def sentinelSuffix : String := ".incomplete"

/-- The file that marks the data of `b` as possibly incomplete. -/
def sentinelPath (b : Backup) (store : String) : String :=
  b.dataPath store ++ sentinelSuffix

def logName (b : Backup) : String :=
  b.date.text ++ "-" ++ b.device ++ "-" ++ b.host ++ "-" ++ b.volume ++ ".log"

def logPath (b : Backup) (logs : String) : String :=
  Path.join logs b.logName

end Backup

/-- A backup as it is filed. The serial number tells apart records that agree in all else:
a record is the same only as itself. -/
structure Record where
  backup : Backup
  serial : Nat
  deriving DecidableEq, Repr

namespace Record

def date (r : Record) : Date := r.backup.date
def device (r : Record) : String := r.backup.device
def isComplete (r : Record) : Bool := r.backup.isComplete

/-- Records of one volume stand in the order of their dates, and on one date in the order of
their devices. -/
def Before (a b : Record) : Prop :=
  a.date < b.date ∨ (a.date = b.date ∧ a.device < b.device)

instance : LT Record := ⟨Before⟩

instance (a b : Record) : Decidable (a < b) :=
  inferInstanceAs (Decidable (_ ∨ (_ ∧ _)))

/-- Both claim the same place in a ledger. -/
def SameKey (a b : Record) : Prop :=
  a.date = b.date ∧ a.device = b.device

instance (a b : Record) : Decidable (SameKey a b) :=
  inferInstanceAs (Decidable (_ ∧ _))

end Record

end BackupRetention
