import BackupRetention.Schedule.Basic

/-!
# Running a schedule

A run starts what can be started, waits until completions are signalled, handles them in
order and starts again, until the queue is empty. A completion is handled by taking the
action out, going through its hook and starting what has become possible. Since hooks may
queue actions without end, a run is given fuel; without enough of it there is no answer.

## Main definitions

* `EventLoop`: how to wait for completions.
* `Schedule.run`, `Schedule.completed`: what the owner of a schedule and a hook can call.
* `Schedule.Call`: the calls as data, for histories.
-/

namespace BackupRetention

/-- Waiting for completions: the numbers signalled since the last wait, at least one, in the
order in which they were signalled. -/
structure EventLoop (σ : Type) where
  wait : σ → Except Fault (List ActionId) × σ

namespace Schedule

variable {σ : Type}

/-- Waits, and writes down what came of it. -/
def await (loop : EventLoop σ) (s : Schedule σ) :
    Except Fault (List ActionId) × Schedule σ :=
  match loop.wait s.world with
  | (.error f, world) => (.error f, note .stalled { s with world := world })
  | (.ok ids, world) => (.ok ids, note (.delivered ids) { s with world := world })

mutual

/-- Runs until the queue is empty or something fails. -/
def run (loop : EventLoop σ) : Nat → Schedule σ → Option (Except Fault Unit × Schedule σ)
  | 0, _ => none
  | fuel + 1, s =>
    match s.startEligible with
    | (.error f, s) => some (.error (.within "run" f), s)
    | (.ok (), s) =>
      if s.isEmpty then some (.ok (), s)
      else
        match s.await loop with
        | (.error f, s) => some (.error (.within "run" f), s)
        | (.ok ids, s) =>
          match handleAll loop fuel ids s with
          | none => none
          | some (.error f, s) => some (.error f, s)
          | some (.ok (), s) => run loop fuel s

/-- Handles completions in order. The first failure leaves the rest of them unhandled. -/
def handleAll (loop : EventLoop σ) :
    Nat → List ActionId → Schedule σ → Option (Except Fault Unit × Schedule σ)
  | 0, _, _ => none
  | _ + 1, [], s => some (.ok (), s)
  | fuel + 1, id :: ids, s =>
    match completed loop fuel id s with
    | none => none
    | some (.error f, s) => some (.error f, s)
    | some (.ok (), s) => handleAll loop fuel ids s

/-- Handles the completion of the running action with number `id`. -/
def completed (loop : EventLoop σ) :
    Nat → ActionId → Schedule σ → Option (Except Fault Unit × Schedule σ)
  | 0, _, _ => none
  | fuel + 1, id, s =>
    match s.release? id with
    | none => some (.error (.untracked id), s)
    | some (e, s) =>
      match follow loop fuel (e.action.hook id) (s.note (.finished id e.action.name)) with
      | none => none
      | some (.error f, s) => some (.error f, s)
      | some (.ok (), s) => some s.startEligible

/-- Goes through a hook. -/
def follow (loop : EventLoop σ) :
    Nat → Hook σ → Schedule σ → Option (Except Fault Unit × Schedule σ)
  | 0, _, _ => none
  | _ + 1, .finish outcome, s => some (outcome, s)
  | fuel + 1, .look next, s => follow loop fuel (next s.view s.world) s
  | fuel + 1, .put world next, s => follow loop fuel next { s with world := world }
  | fuel + 1, .add action next, s =>
    let (id, s) := s.add action
    follow loop fuel (next id) s
  | fuel + 1, .complete id next, s =>
    match completed loop fuel id s with
    | none => none
    | some (outcome, s) => follow loop fuel (next outcome) s
  | fuel + 1, .run next, s =>
    match run loop fuel s with
    | none => none
    | some (outcome, s) => follow loop fuel (next outcome) s

end

/-- What the owner of a schedule calls. -/
inductive Call (σ : Type) where
  | add (action : Action σ)
  | run
  | completed (id : ActionId)

/-- One call. Queuing an action always succeeds. -/
def call (loop : EventLoop σ) (fuel : Nat) (s : Schedule σ) :
    Call σ → Option (Except Fault Unit × Schedule σ)
  | .add action => some (.ok (), (s.add action).2)
  | .run => run loop fuel s
  | .completed id => completed loop fuel id s

/-- The schedule after a history of calls, failed or not. -/
def callAll (loop : EventLoop σ) (fuel : Nat) (s : Schedule σ) :
    List (Call σ) → Option (Schedule σ)
  | [] => some s
  | c :: cs =>
    match s.call loop fuel c with
    | none => none
    | some (_, s) => callAll loop fuel s cs

end Schedule

end BackupRetention
