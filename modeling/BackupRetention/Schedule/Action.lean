import BackupRetention.Fault.Basic

/-!
# Actions

A unit of work that needs some labels to itself while it runs. Starting an action changes
the world in which the actions work; `σ` is the type of that world. Once an action has
completed, its hook may look at the schedule, change the world, queue further actions,
report completions and run the schedule.

## Main definitions

* `Action`: a name, labels, a start and a hook.
* `Hook`: what is done after the completion of an action, one step after the other.
* `View`: what a hook sees of the schedule.
-/

namespace BackupRetention

/-- What no two running actions share. -/
abbrev Label := String

/-- A queued action as others see it. -/
structure Standing where
  id : ActionId
  name : String
  labels : List Label
  running : Bool
  deriving DecidableEq, Repr

/-- A schedule as others see it. -/
structure View where
  queue : List Standing
  held : List Label
  deriving DecidableEq, Repr

mutual

/-- A unit of work. `start` is told the number under which the completion is to be
signalled, and so is the hook. -/
inductive Action (σ : Type) where
  | mk (name : String) (labels : List Label) (start : ActionId → σ → Except Fault Unit × σ)
      (hook : ActionId → Hook σ)

/-- The steps after a completion. -/
inductive Hook (σ : Type) where
  /-- The hook ends, well or not. -/
  | finish (outcome : Except Fault Unit)
  /-- Looks at the schedule and at the world. -/
  | look (next : View → σ → Hook σ)
  /-- Replaces the world. -/
  | put (world : σ) (next : Hook σ)
  /-- Queues an action. -/
  | add (action : Action σ) (next : ActionId → Hook σ)
  /-- Reports a completion. -/
  | complete (id : ActionId) (next : Except Fault Unit → Hook σ)
  /-- Runs the schedule until it is empty. -/
  | run (next : Except Fault Unit → Hook σ)

end

namespace Action

variable {σ : Type}

def name : Action σ → String
  | mk name _ _ _ => name

def labels : Action σ → List Label
  | mk _ labels _ _ => labels

def start : Action σ → ActionId → σ → Except Fault Unit × σ
  | mk _ _ start _ => start

def hook : Action σ → ActionId → Hook σ
  | mk _ _ _ hook => hook

@[simp] theorem name_mk (n : String) (ls : List Label)
    (s : ActionId → σ → Except Fault Unit × σ) (h : ActionId → Hook σ) :
    (mk n ls s h).name = n := rfl

@[simp] theorem labels_mk (n : String) (ls : List Label)
    (s : ActionId → σ → Except Fault Unit × σ) (h : ActionId → Hook σ) :
    (mk n ls s h).labels = ls := rfl

@[simp] theorem start_mk (n : String) (ls : List Label)
    (s : ActionId → σ → Except Fault Unit × σ) (h : ActionId → Hook σ) :
    (mk n ls s h).start = s := rfl

@[simp] theorem hook_mk (n : String) (ls : List Label)
    (s : ActionId → σ → Except Fault Unit × σ) (h : ActionId → Hook σ) :
    (mk n ls s h).hook = h := rfl

end Action

namespace Hook

variable {σ : Type}

/-- Nothing is left to do. -/
def nothing : Hook σ := finish (.ok ())

/-- Goes on after a success; a failure ends the hook. -/
def unlessFailed (next : Hook σ) : Except Fault Unit → Hook σ
  | .ok () => next
  | .error f => finish (.error f)

end Hook

end BackupRetention
