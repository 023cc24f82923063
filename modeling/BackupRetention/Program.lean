import BackupRetention.CommandLine
import BackupRetention.Config.Loading
import BackupRetention.Prune.Pass
import BackupRetention.State.Loading

/-!
# The program

A run loads the configuration and the state and then makes the passes that are asked for,
failed attempts first. The first failure ends it.

## Main definitions

* `Program.run`: a run, with the reports of its passes.
* `Program.exit`: a run by its arguments, with its exit status.
-/

namespace BackupRetention.Program

/-- What a run is told besides its arguments. -/
structure Environment where
  /-- The day set from outside. -/
  setDay : Option String
  clock : Date
  runner : Runner

/-- The passes that are asked for, in their order. -/
def modes (c : CommandLine) : List PruneMode :=
  (if c.pruneIncomplete then [.incomplete] else []) ++ (if c.prune then [.obsolete] else [])

/-- One of the passes over a configuration. -/
def pass (e : Environment) (config : Config) (act : Bool) (mode : PruneMode) : Pass :=
  { config := config
    mode := mode
    act := act
    day := .found e.setDay e.clock
    runner := e.runner
    identify := fun t => (DeviceMap.identify config t).locate }

/-- Makes passes one after the other, with the reports of those that were made. -/
def runPasses (e : Environment) (config : Config) (act : Bool) :
    List PruneMode → State → Machine → List Report × Except Fault Unit × Machine
  | [], _, m => ([], .ok (), m)
  | mode :: rest, s, m =>
    let result := (pass e config act mode).run s m
    match result.report with
    | .error f => ([], .error f, result.machine)
    | .ok report =>
      let (reports, outcome, m) := runPasses e config act rest result.state result.machine
      (report :: reports, outcome, m)

/-- A whole run. -/
def run (e : Environment) (c : CommandLine) (m : Machine) :
    List Report × Except Fault Unit × Machine :=
  match Config.load (c.config.getD CommandLine.defaultConfig) m.tree with
  | (.error f, tree) => ([], .error f, { m with tree := tree })
  | (.ok config, tree) =>
    match State.load config tree with
    | .error f => ([], .error f, { m with tree := tree })
    | .ok s => runPasses e config (!c.dryRun) (modes c) s { m with tree := tree }

/-- How a program ends: its exit status, and the fault that ended it. -/
structure Ending where
  status : Nat
  fault : Option Fault

/-- A run by its arguments. Without a pass to make there is nothing to do, which is an error. -/
def exit (e : Environment) (arguments : List String) (m : Machine) : Ending × Machine :=
  match CommandLine.read arguments with
  | .error .information => (⟨0, none⟩, m)
  | .error .usage => (⟨2, none⟩, m)
  | .ok c =>
    if modes c = [] then (⟨1, none⟩, m)
    else
      match run e c m with
      | (_, .ok (), m) => (⟨0, none⟩, m)
      | (_, .error f, m) => (⟨1, some f⟩, m)

end BackupRetention.Program
