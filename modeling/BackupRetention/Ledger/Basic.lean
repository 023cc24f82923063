import BackupRetention.Ledger.Figures

/-!
# Ledgers

The records of one volume, one for each date and device, with their figures. The figures are
worked out anew after every change, which also forgets the removal marks.

## Main definitions

* `Ledger.add`: files a record unless its place is taken.
* `Ledger.remove`: takes out exactly the given record.
* `Ledger.mark`, `Ledger.clearMarks`: the counts of picked backups.
-/

namespace BackupRetention

structure Ledger where
  records : List Record
  figures : Figures
  deriving DecidableEq, Repr

namespace Ledger

def empty : Ledger := ⟨[], Figures.zero⟩

/-- Files `r` among records in order, unless one with its date and device is there. -/
def file (r : Record) : List Record → Bool × List Record
  | [] => (true, [r])
  | x :: xs =>
    if r < x then (true, r :: x :: xs)
    else if r.SameKey x then (false, x :: xs)
    else
      let (filed, ys) := file r xs
      (filed, x :: ys)

/-- The same records with fresh figures. -/
def recount (records : List Record) : Ledger :=
  ⟨records, Figures.ofRecords records⟩

/-- Files `r` unless there is a record for its date and device, and tells whether it did. -/
def add (l : Ledger) (r : Record) : Bool × Ledger :=
  let (filed, records) := file r l.records
  (filed, recount records)

/-- Takes out `r` itself, and tells whether it was there. A record that merely looks like
`r` stays. -/
def remove (l : Ledger) (r : Record) : Bool × Ledger :=
  if r ∈ l.records then (true, recount (l.records.filter (· ≠ r))) else (false, l)

def mark (l : Ledger) (device : String) : Ledger :=
  { l with figures := l.figures.mark device }

def clearMarks (l : Ledger) : Ledger :=
  { l with figures := l.figures.clearMarks }

/-- The figures of one device. -/
def tally? (l : Ledger) (device : String) : Option Tally :=
  l.figures.tally? device

def size (l : Ledger) : Nat := l.records.length

def isEmpty (l : Ledger) : Bool := l.records.isEmpty

@[simp] theorem records_mark (l : Ledger) (device : String) :
    (l.mark device).records = l.records := rfl

@[simp] theorem records_clearMarks (l : Ledger) : l.clearMarks.records = l.records := rfl

@[simp] theorem records_recount (records : List Record) :
    (recount records).records = records := rfl

theorem remove_of_not_mem {l : Ledger} {r : Record} (h : r ∉ l.records) :
    l.remove r = (false, l) := by
  simp [remove, h]

/-- One step in the life of a ledger. -/
inductive Entry where
  | add (r : Record)
  | remove (r : Record)
  | mark (device : String)
  | clearMarks

/-- The answer to a step, and the ledger after it. -/
def Entry.apply : Entry → Ledger → Bool × Ledger
  | .add r, l => l.add r
  | .remove r, l => l.remove r
  | .mark device, l => (true, l.mark device)
  | .clearMarks, l => (true, l.clearMarks)

end Ledger

end BackupRetention
