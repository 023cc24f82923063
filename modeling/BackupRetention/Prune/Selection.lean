import BackupRetention.State.Basic

/-!
# Selecting backups for removal

A pass goes after backups that are past the policy of their volume, or after failed attempts.
Past the policy is a backup that is too old, as long as enough complete backups stay on its
device once all that are picked so far are gone. Each pick is marked in the ledger, so that
later ones on the same device see the lower count.

## Main definitions

* `State.select`: the picked records in the order of volumes and ledgers.
-/

namespace BackupRetention

/-- What a pass goes after. -/
inductive PruneMode where
  /-- Backups past the policy of their volume. -/
  | obsolete
  /-- Failed attempts, whatever their age. -/
  | incomplete
  deriving DecidableEq, Repr

namespace Volume

/-- Whether `r` is older than the policy keeps. -/
def isExpired (v : Volume) (today : Date) (r : Record) : Bool :=
  v.pruneAge < today.daysSince r.date

/-- How many complete backups stay on a device once the marked ones are gone. -/
def remaining (l : Ledger) (device : String) : Nat :=
  match l.tally? device with
  | some t => t.remaining
  | none => 0

/-- Whether the device of `r` can do with one backup less. -/
def isSpare (v : Volume) (l : Ledger) (r : Record) : Bool :=
  v.minBackups < remaining l r.device

/-- Whether `r` is picked, and the ledger after that. -/
def pick (v : Volume) (mode : PruneMode) (today : Date) (l : Ledger) (r : Record) :
    Bool × Ledger :=
  match mode with
  | .incomplete => (!r.isComplete, l)
  | .obsolete =>
    if v.isExpired today r ∧ v.isSpare l r then (true, l.mark r.device) else (false, l)

/-- The records that are picked out of a list, and the ledger with their marks. -/
def pickAll (v : Volume) (mode : PruneMode) (today : Date) (l : Ledger) :
    List Record → List Record × Ledger
  | [] => ([], l)
  | r :: rs =>
    let (picked, l) := v.pick mode today l r
    let (others, l) := v.pickAll mode today l rs
    (if picked then r :: others else others, l)

/-- The records of a volume that are picked, and the volume with their marks. Marks of an
earlier pass are forgotten first. -/
def select (mode : PruneMode) (today : Date) (v : Volume) : List Record × Volume :=
  let (picked, ledger) := v.pickAll mode today v.ledger.clearMarks v.ledger.records
  (picked, { v with ledger := ledger })

end Volume

namespace State

/-- The records of all volumes that are picked. -/
def selectIn (mode : PruneMode) (today : Date) : List Volume → List Record × List Volume
  | [] => ([], [])
  | v :: vs =>
    let (picked, v) := v.select mode today
    let (others, vs) := selectIn mode today vs
    (picked ++ others, v :: vs)

def select (mode : PruneMode) (today : Date) (s : State) : List Record × State :=
  let (picked, volumes) := selectIn mode today s.volumes
  (picked, ⟨volumes⟩)

end State

end BackupRetention
