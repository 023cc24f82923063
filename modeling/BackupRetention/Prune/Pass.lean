import BackupRetention.DeviceMap
import BackupRetention.Prune.Expiry
import BackupRetention.Prune.Removal
import BackupRetention.Prune.Selection
import BackupRetention.Schedule.Pool

/-!
# Prune passes

A pass selects backups, finds out where their devices are and removes them, one at a time on
each device. What could not be removed is written to the prune log and stays in the state. A
pass that only looks changes no file.

## Main definitions

* `Pass`: what a pass is told.
* `Pass.run`: a whole pass.
* `Pass.Result`: its report, and the state and machine after it.
-/

namespace BackupRetention

/-- The day that a pass takes for the current one. -/
inductive CurrentDay where
  | given (date : Date)
  /-- The day set from outside if there is one, otherwise that of the clock. -/
  | found (setDay : Option String) (clock : Date)
  deriving DecidableEq, Repr

/-- Finds the store of a device, if it is available. -/
abbrev Locator := String → Option String

/-- How a disk comes to take no more lines of a log. Of a line that it refuses nothing is written,
and it goes on refusing. -/
structure Refusal where
  /-- How many lines it takes before. -/
  room : Nat
  fault : IoFault

structure Pass where
  config : Config
  mode : PruneMode := .obsolete
  /-- Whether anything is to be removed. -/
  act : Bool := true
  day : CurrentDay
  runner : Runner
  /-- Looks for the devices. -/
  identify : FileTree → Locator
  /-- Which removals are done first, and how far they have come at each wait. -/
  pace : List (List Nat) := []
  /-- Whether there comes a time when no more lines of the log can be written. -/
  refusal : Option Refusal := none

/-- What a pass did. -/
structure Report where
  /-- How many backups were selected. -/
  candidates : Nat
  removed : Nat := 0
  failed : Nat := 0
  /-- How many of them were left alone because their device is not available. -/
  skipped : Nat := 0
  deriving DecidableEq, Repr

namespace Pass

/-- What the removals of a pass work on, and what came of them. -/
structure Site where
  machine : Machine
  /-- The removed records in order. -/
  removed : List Record
  failed : Nat
  /-- What went wrong with lines of the log. -/
  unwritten : List Fault

abbrev World := Pool Site (Except Fault Unit)

/-- What a pass has before the first removal. -/
def Site.start (m : Machine) : Site :=
  { machine := m, removed := [], failed := 0, unwritten := [] }

/-- Writes to the log. What cannot be written is lost. -/
def Site.note (write : FileTree → Except Fault Unit × FileTree) (s : Site) : Site :=
  let written := write s.machine.tree
  { s with
    machine := { s.machine with tree := written.2 }
    unwritten := s.unwritten ++ match written.1 with
      | .ok () => []
      | .error f => [f] }

/-- Notes what came of the removal of `r`, if the disk takes another line. -/
def Site.settle (refused : Option IoFault) (log : PruneLog) (r : Record) (path : String)
    (s : Site) : Except Fault Unit → Site
  | .ok () =>
    { s.note (log.unlessRefused refused (log.removed path)) with removed := s.removed ++ [r] }
  | .error f =>
    { s.note (log.unlessRefused refused (log.failed path f)) with failed := s.failed + 1 }

/-- Why the disk does not take the next line, if it does not. -/
def refused? (p : Pass) (s : Site) : Option IoFault :=
  match p.refusal with
  | none => none
  | some refusal => if refusal.room ≤ s.removed.length + s.failed then some refusal.fault else none

/-- The outcome of a removal that has none. -/
def unreported : Fault :=
  .io (.other "removal finished without reporting an outcome")

/-- The job that removes one backup. -/
def removalJob (runner : Runner) (x : Removal) (s : Site) : Except Fault Unit × Site :=
  let (outcome, machine) := x.run runner s.machine
  (outcome, { s with machine := machine })

/-- Removes one backup while its device is held, then notes what came of it. -/
def removalAction (p : Pass) (log : PruneLog) (store : String) (r : Record) : Action World :=
  let x : Removal := ⟨r.backup, store, p.config.logs⟩
  .mk x.dataPath [r.device]
    (fun id w => (.ok (), w.spawn id (removalJob p.runner x)))
    fun id => .look fun _ w =>
      let outcome := (w.result? id).getD (.error unreported)
      .put { w with shared := w.shared.settle (p.refused? w.shared) log r x.dataPath outcome }
        .nothing

/-- The records whose device is available, each with its store. -/
def located (locate : Locator) (rs : List Record) : List (String × Record) :=
  rs.filterMap fun r => (locate r.device).map (·, r)

/-- Runs the removals of the located records. -/
def removeAll (p : Pass) (log : PruneLog) (targets : List (String × Record)) (m : Machine) :
    Except Fault Unit × Schedule World :=
  Schedule.runAll Pool.loop { Pool.idle (.start m) with pace := p.pace }
    (targets.map fun (store, r) => p.removalAction log store r)

structure Result where
  report : Except Fault Report
  /-- Whether the devices were looked for. -/
  identified : Bool
  state : State
  machine : Machine
  /-- What went wrong with lines of the log. It does not count as a failure. -/
  unwritten : List Fault := []

/-- The current day. -/
def today (p : Pass) : Except Fault Date :=
  match p.day with
  | .given date => .ok date
  | .found setDay clock => within "prune" (dated (Date.today setDay clock))

/-- Takes the removed records out of the state. -/
def dropAll (s : State) (rs : List Record) : State :=
  rs.foldl (fun s r => (s.remove r).2) s

/-- Removes what is located and expires old prune logs, whose failures count for nothing. -/
def removeLocated (p : Pass) (today : Date) (log : PruneLog) (candidates : Nat)
    (targets : List (String × Record)) (s : State) (m : Machine) : Result :=
  let (outcome, schedule) := p.removeAll log targets m
  let site := schedule.world.shared
  match within "prune" outcome with
  | .error f => ⟨.error f, true, s, site.machine, site.unwritten⟩
  | .ok () =>
    let tree := (PruneLog.expire p.config.logs today p.config.keepPruneLogs site.machine.tree).2
    { report := .ok
        { candidates := candidates
          removed := site.removed.length
          failed := site.failed
          skipped := candidates - targets.length }
      identified := true
      state := dropAll s site.removed
      machine := { site.machine with tree := tree }
      unwritten := site.unwritten }

/-- A pass over `selected` records. -/
def runOn (p : Pass) (today : Date) (selected : List Record) (s : State) (m : Machine) :
    Result :=
  if selected = [] then ⟨.ok { candidates := 0 }, false, s, m, []⟩
  else
    let targets := located (p.identify m.tree) selected
    if p.act then
      match PruneLog.openFor p.config.logs today m.tree with
      | (.error f, tree) => ⟨.error (.within "prune" f), true, s, { m with tree := tree }, []⟩
      | (.ok log, tree) =>
        p.removeLocated today log selected.length targets s { m with tree := tree }
    else
      ⟨.ok { candidates := selected.length, skipped := selected.length - targets.length },
        true, s, m, []⟩

/-- A whole pass. The marks of the selection stay in the state. -/
def run (p : Pass) (s : State) (m : Machine) : Result :=
  match p.today with
  | .error f => ⟨.error f, false, s, m, []⟩
  | .ok today =>
    let (selected, s) := s.select p.mode today
    p.runOn today selected s m

end Pass

end BackupRetention
