import BackupRetention.Programs.Runner
import BackupRetention.Schedule.Pool

/-!
# Commands on a schedule

Commands that need labels, run by workers. Whatever a command gives, the schedule goes on; its
result is kept for whoever queued it.
-/

namespace BackupRetention

structure Command where
  args : List String
  labels : List Label
  deriving DecidableEq, Repr

/-- The machine that commands share, and what they gave. -/
abbrev CommandPool := Pool Machine (Except Fault Int)

/-- Runs the command while its labels are held. -/
def Command.action (runner : Runner) (c : Command) : Action CommandPool :=
  .mk (c.args.headD "") c.labels
    (fun id p => (.ok (), p.spawn id fun m => m.execute runner c.args))
    fun _ => .nothing

/-- What running some commands came to. -/
structure CommandsReport where
  run : Except Fault Unit
  /-- The command lines in the order in which they were run. -/
  calls : List (List String)
  /-- What each command gave, in the order in which they were queued. -/
  outcomes : List (Option (Except Fault Int))
  /-- How many actions are left. -/
  left : Nat

/-- Queues and runs commands; `pace` is how far the workers have come at each wait. -/
def Command.runAll (runner : Runner) (pace : List (List Nat)) (machine : Machine)
    (commands : List Command) : CommandsReport :=
  let world : CommandPool := { Pool.idle machine with pace := pace }
  let (outcome, s) := Schedule.runAll Pool.loop world (commands.map (action runner))
  { run := outcome
    calls := s.world.shared.calls
    outcomes := (List.range commands.length).map fun n => s.world.result? ⟨n⟩
    left := s.size }

end BackupRetention
