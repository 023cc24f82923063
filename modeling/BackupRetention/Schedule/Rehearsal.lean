import BackupRetention.Schedule.Run

/-!
# Rehearsals

Scripted actions that do no work, and a scripted order of their completions, to see what a
schedule makes of them. Completions of unknown actions can be scripted too.

## Main definitions

* `Script`: an action that starts and ends as it is told.
* `Stage`: who is yet to signal, and the batches of completions to come.
* `Rehearsal.loop`: waiting goes on to the first batch that signals anything.
-/

namespace BackupRetention

/-- What the start of a scripted action does. -/
inductive Manner where
  /-- Signals the completion at once. -/
  | now
  /-- Leaves the completion to a cue. -/
  | hold
  | fail
  /-- Signals the completion and fails all the same. -/
  | nowThenFail
  /-- Never signals. -/
  | drop
  deriving DecidableEq, Repr

/-- A scripted action. Its hook queues `adds`, then reports the completion of `completes`,
then runs the schedule, then fails, each only if the script says so. -/
inductive Script where
  | mk (name : String) (labels : List Label) (manner : Manner) (adds : List Script)
      (completes : Option ActionId) (runs fails : Bool)

/-- One completion to come: of a certain action, or of the one with the lowest or the
highest number that is yet to signal. -/
inductive Cue where
  | of (id : ActionId)
  | first
  | last
  deriving DecidableEq, Repr

structure Stage where
  /-- The actions that wait for a cue. -/
  holding : List ActionId
  /-- The completions signalled since the last wait. -/
  signalled : List ActionId
  batches : List (List Cue)
  deriving DecidableEq, Repr

namespace Stage

def opening (batches : List (List Cue)) : Stage := ⟨[], [], batches⟩

def signal (id : ActionId) (s : Stage) : Stage :=
  { s with holding := s.holding.erase id, signalled := s.signalled ++ [id] }

/-- Signals as `cue` says. A completion that is not awaited is signalled all the same. -/
def fire (s : Stage) : Cue → Stage
  | .of id => s.signal id
  | .first =>
    match (s.holding.map ActionId.val).min? with
    | some n => s.signal ⟨n⟩
    | none => s
  | .last =>
    match (s.holding.map ActionId.val).max? with
    | some n => s.signal ⟨n⟩
    | none => s

/-- Goes through batches until one has signalled something. -/
def advance (s : Stage) : List (List Cue) → Stage
  | [] => { s with batches := [] }
  | b :: bs =>
    if s.signalled = [] then (b.foldl fire s).advance bs else { s with batches := b :: bs }

/-- All completions signalled since the last wait. If no batch is left that signals any,
waiting fails. -/
def wait (s : Stage) : Except Fault (List ActionId) × Stage :=
  let s := s.advance s.batches
  if s.signalled = [] then (.error (.io (.other "stalled")), s)
  else (.ok s.signalled, { s with signalled := [] })

end Stage

/-- The start of a scripted action. -/
def Manner.begin (name : String) (id : ActionId) (s : Stage) : Manner → Except Fault Unit × Stage
  | .now => (.ok (), s.signal id)
  | .hold => (.ok (), { s with holding := s.holding ++ [id] })
  | .fail => (.error (.io (.other ("cannot start " ++ name))), s)
  | .nowThenFail => (.error (.io (.other ("cannot start " ++ name))), s.signal id)
  | .drop => (.ok (), s)

namespace Script

/-- The end of a scripted hook. -/
def ending (completes : Option ActionId) (runs fails : Bool) : Hook Stage :=
  let last := if fails then .finish (.error (.io (.other "done failed"))) else .nothing
  let run := if runs then .run (.unlessFailed last) else last
  match completes with
  | some id => .complete id (.unlessFailed run)
  | none => run

mutual

def action : Script → Action Stage
  | mk name labels manner adds completes runs fails =>
    .mk name labels (fun id s => manner.begin name id s) fun _ =>
      addAll (ending completes runs fails) adds

/-- Queues scripted actions, then goes on. -/
def addAll (next : Hook Stage) : List Script → Hook Stage
  | [] => next
  | a :: rest => .add a.action fun _ => addAll next rest

end

mutual

/-- The number of actions in a script. -/
def weight : Script → Nat
  | mk _ _ _ adds _ _ _ => weightAll adds + 1

def weightAll : List Script → Nat
  | [] => 0
  | a :: rest => weight a + weightAll rest

end

end Script

namespace Rehearsal

def loop : EventLoop Stage := ⟨Stage.wait⟩

/-- Enough fuel for each call in a history that adds `scripts`: no action completes twice,
and a wait brings something new. -/
def fuel (scripts : List Script) (batches : List (List Cue)) : Nat :=
  16 * (Script.weightAll scripts + batches.flatten.length + 1)

end Rehearsal

end BackupRetention
