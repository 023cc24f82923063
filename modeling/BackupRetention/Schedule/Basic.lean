import BackupRetention.Schedule.Action

/-!
# Schedules

Queued actions in the order in which they were added, some of them running. A running action
holds its labels. Admission goes once along the queue and starts each idle action whose
labels are free; a completion takes the action out and gives its labels back.

A journal keeps what happened, each entry with the schedule as it was at that moment.

## Main definitions

* `Schedule.add`: queues an action under the next number.
* `Schedule.startEligible`: starts what can be started.
* `Schedule.release?`: takes a running action out.
-/

namespace BackupRetention

/-- A queued action. -/
structure Entry (σ : Type) where
  id : ActionId
  action : Action σ
  running : Bool

namespace Entry

variable {σ : Type}

def labels (e : Entry σ) : List Label := e.action.labels

def standing (e : Entry σ) : Standing :=
  ⟨e.id, e.action.name, e.labels, e.running⟩

end Entry

inductive Event where
  | added (id : ActionId)
  /-- The start of an action is called. -/
  | started (id : ActionId) (name : String)
  /-- Waiting has brought these completions. -/
  | delivered (ids : List ActionId)
  /-- Waiting has failed. -/
  | stalled
  /-- A completed action has left the queue, and its hook is called. -/
  | finished (id : ActionId) (name : String)
  deriving DecidableEq, Repr

/-- An event and the schedule when it happened. -/
structure Moment where
  event : Event
  view : View
  deriving DecidableEq, Repr

structure Schedule (σ : Type) where
  entries : List (Entry σ)
  /-- The labels of the running actions, each once. -/
  held : List Label
  nextId : Nat
  /-- What has happened, latest first. -/
  journal : List Moment
  world : σ

namespace Schedule

variable {σ : Type}

/-- Nothing is queued. -/
def empty (world : σ) : Schedule σ :=
  ⟨[], [], 0, [], world⟩

def view (s : Schedule σ) : View :=
  ⟨s.entries.map Entry.standing, s.held⟩

/-- Writes an event down. -/
def note (event : Event) (s : Schedule σ) : Schedule σ :=
  { s with journal := ⟨event, s.view⟩ :: s.journal }

def size (s : Schedule σ) : Nat := s.entries.length

def isEmpty (s : Schedule σ) : Bool := s.entries.isEmpty

/-- Whether the action with this number is running. -/
def isRunning (s : Schedule σ) (id : ActionId) : Bool :=
  s.entries.any fun e => e.id = id ∧ e.running

/-- Queues `a`. Nothing starts yet. -/
def add (a : Action σ) (s : Schedule σ) : ActionId × Schedule σ :=
  let id : ActionId := ⟨s.nextId⟩
  (id, note (.added id)
    { s with entries := s.entries ++ [⟨id, a, false⟩], nextId := s.nextId + 1 })

/-- Adds labels to a set of labels. -/
def claim (labels held : List Label) : List Label :=
  labels.foldr List.insert held

/-- Takes labels from a set of labels. -/
def unclaim (labels held : List Label) : List Label :=
  held.filter (· ∉ labels)

/-- Whether none of `labels` is held. -/
def free (labels held : List Label) : Prop :=
  ∀ x ∈ labels, x ∉ held

instance (labels held : List Label) : Decidable (free labels held) :=
  inferInstanceAs (Decidable (∀ x ∈ labels, x ∉ held))

@[simp] theorem mem_claim {x : Label} {labels held : List Label} :
    x ∈ claim labels held ↔ x ∈ labels ∨ x ∈ held := by
  induction labels with
  | nil => simp [claim]
  | cons y ys ih =>
    simp only [claim, List.foldr_cons, List.mem_insert_iff, List.mem_cons] at ih ⊢
    rw [ih, or_assoc]

@[simp] theorem mem_unclaim {x : Label} {labels held : List Label} :
    x ∈ unclaim labels held ↔ x ∈ held ∧ x ∉ labels := by
  simp [unclaim]

/-- Whether `e` can be started while `held` is held. -/
def Eligible (held : List Label) (e : Entry σ) : Prop :=
  e.running = false ∧ free e.labels held

instance (held : List Label) (e : Entry σ) : Decidable (Eligible held e) :=
  inferInstanceAs (Decidable (_ ∧ _))

/-- Starts what can be started in the rest of the queue, behind the entries `earlier`. An
action holds its labels from before its start; one that fails to start keeps them, and the
rest of the queue is left as it is. -/
def startFrom (earlier : List (Entry σ)) (s : Schedule σ) :
    List (Entry σ) → Except Fault Unit × Schedule σ
  | [] => (.ok (), { s with entries := earlier })
  | e :: later =>
    if Eligible s.held e then
      let begun := { e with running := true }
      let s := note (.started e.id e.action.name)
        { s with entries := earlier ++ begun :: later, held := claim e.labels s.held }
      match e.action.start e.id s.world with
      | (.error f, world) => (.error f, { s with world := world })
      | (.ok (), world) => startFrom (earlier ++ [begun]) { s with world := world } later
    else startFrom (earlier ++ [e]) s later

/-- Starts every idle action whose labels are free, in the order of the queue. -/
def startEligible (s : Schedule σ) : Except Fault Unit × Schedule σ :=
  startFrom [] s s.entries

/-- Whether `e` is the running action with number `id`. -/
def isRun (id : ActionId) (e : Entry σ) : Bool :=
  e.id = id ∧ e.running

/-- Takes the running action with number `id` out and gives its labels back. -/
def release? (id : ActionId) (s : Schedule σ) : Option (Entry σ × Schedule σ) :=
  match s.entries.find? (isRun id) with
  | none => none
  | some e =>
    some (e, { s with
      entries := s.entries.eraseP (isRun id)
      held := unclaim e.labels s.held })

end Schedule

end BackupRetention
