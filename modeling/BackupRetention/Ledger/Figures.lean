import BackupRetention.Backup

/-!
# Figures of a volume

How many complete backups there are, from when to when, in all and on each device. Failed
attempts count for nothing. While a pass picks backups to remove, each device also keeps
count of those that are picked.
-/

namespace BackupRetention

/-- The complete backups on one device. -/
structure Tally where
  count : Nat
  oldest : Date
  newest : Date
  /-- How many backups are picked for removal. -/
  marked : Nat
  deriving DecidableEq, Repr

namespace Tally

def first (date : Date) : Tally := ⟨1, date, date, 0⟩

def extend (t : Tally) (date : Date) : Tally :=
  { t with
    count := t.count + 1
    oldest := t.oldest.earlier date
    newest := t.newest.later date }

/-- How many complete backups are left once the picked ones are gone. -/
def remaining (t : Tally) : Nat :=
  t.count - t.marked

end Tally

/-- The figures of one volume; the devices stand in the order of their names. -/
structure Figures where
  completed : Nat
  oldest : Option Date
  newest : Option Date
  devices : List (String × Tally)
  deriving DecidableEq, Repr

namespace Figures

def zero : Figures := ⟨0, none, none, []⟩

/-- Counts a complete backup on `device`. -/
def countOn (device : String) (date : Date) : List (String × Tally) → List (String × Tally)
  | [] => [(device, Tally.first date)]
  | (d, t) :: rest =>
    if device < d then (device, Tally.first date) :: (d, t) :: rest
    else if d = device then (d, t.extend date) :: rest
    else (d, t) :: countOn device date rest

def extend (f : Figures) (r : Record) : Figures where
  completed := f.completed + 1
  oldest := some (match f.oldest with
    | none => r.date
    | some d => d.earlier r.date)
  newest := some (match f.newest with
    | none => r.date
    | some d => d.later r.date)
  devices := countOn r.device r.date f.devices

/-- The figures of some records, with nothing picked. -/
def ofRecords (records : List Record) : Figures :=
  (records.filter Record.isComplete).foldl extend zero

/-- The figures of one device, if it has a complete backup. -/
def tally? (f : Figures) (device : String) : Option Tally :=
  f.devices.lookup device

/-- Picks one more backup on `device`. A device without complete backups keeps no count. -/
def mark (f : Figures) (device : String) : Figures :=
  { f with devices := f.devices.map fun e =>
      if e.1 = device then (e.1, { e.2 with marked := e.2.marked + 1 }) else e }

/-- Forgets which backups were picked. -/
def clearMarks (f : Figures) : Figures :=
  { f with devices := f.devices.map fun e => (e.1, { e.2 with marked := 0 }) }

end Figures

end BackupRetention
