import BackupRetention.Proofs.Schedule.Steady
import BackupRetention.Proofs.Schedule.Tasks

/-!
# Owner and workers

While the owner of a schedule runs it, workers do the jobs that have been handed over, as soon and
as late as it happens. In an interleaving of the two there is one turn after the other: a worker
does a job, or the owner starts an action, or it goes on.

## Main definitions

* `Execution.Turn`: what happens next, and where workers take their jobs from.
* `Task.Underway`: what holds of a run of tasks between two turns.
* `Execution.toil`: how many turns are left at most.

## Main results

* `Task.Underway.turn`: one turn of a run of tasks.
* `Task.Underway.exists_turn`: a run of tasks is never stuck.
-/

namespace BackupRetention

namespace Execution

open Schedule

section Turn

variable {τ ρ : Type}

/-- Nothing is under way, or a run returns. -/
def isBack (x : Execution (Pool τ ρ)) : Bool :=
  match x.phase with
  | .idle => true
  | .ended _ => true
  | _ => false

/-- The job at place `n` is done. -/
def work (n : Nat) (x : Execution (Pool τ ρ)) : Execution (Pool τ ρ) :=
  { x with schedule := { x.schedule with world := x.schedule.world.step n } }

/-- The owner can go on: it has started what it can, and where it waits there is a completion to
fetch. -/
structure Ready (x : Execution (Pool τ ρ)) : Prop where
  under : x.isBack = false
  settled : x.admits = true → x.schedule.Settled
  fetch : x.waits = true → x.schedule.world.reported ≠ []

/-- One turn. Workers take jobs at places with `takes`. -/
inductive Turn (takes : Nat → Prop) : Execution (Pool τ ρ) → Execution (Pool τ ρ) → Prop where
  /-- A worker does a job. -/
  | work {x : Execution (Pool τ ρ)} (n : Nat) (place : takes n)
      (job : n < x.schedule.world.queue.length) : Turn takes x (x.work n)
  /-- The owner starts the first action that can be started. -/
  | start {x : Execution (Pool τ ρ)} {t : Schedule (Pool τ ρ)} (admits : x.admits = true)
      (start : Start x.schedule t) : Turn takes x { x with schedule := t }
  /-- The owner goes on. -/
  | go {x : Execution (Pool τ ρ)} (ready : x.Ready) : Turn takes x (x.step Pool.loop)

/-- Some turns, one after the other. -/
abbrev Turns (takes : Nat → Prop) : Execution (Pool τ ρ) → Execution (Pool τ ρ) → Prop :=
  Relation.ReflTransGen (Turn takes)

/-- The steps to the next release or to the end, at most. -/
def near {σ : Type} : Phase σ → Nat
  | .follow _ => 6
  | .completed _ => 5
  | .handle [] => 4
  | .run => 3
  | .wait => 2
  | .handle (_ :: _) => 1
  | _ => 0

/-- The steps that are left to the owner, at most. -/
def way (x : Execution (Pool τ ρ)) : Nat := 7 * x.schedule.entries.length + near x.phase

/-- What else is to be done: each idle action is to be started, and then there is its job. -/
def chores (x : Execution (Pool τ ρ)) : Nat :=
  2 * x.schedule.entries.countP (! ·.running) + x.schedule.world.queue.length

/-- The turns that are left, at most. -/
def toil (x : Execution (Pool τ ρ)) : Nat := x.way + x.chores

end Turn

/-- Where a run of tasks can be, and what it has fetched and not handled yet. Except while it
starts what it can, nothing can be started. -/
inductive Station {σ : Type} (s : Schedule σ) :
    Phase σ → List (Caller σ) → List ActionId → Prop where
  | run : Station s .run [] []
  | wait (settled : s.Settled) (queued : s.entries ≠ []) : Station s .wait [] []
  | handle (ids : List ActionId) (settled : s.Settled) : Station s (.handle ids) [] ids
  | complete (id : ActionId) (ids : List ActionId) (settled : s.Settled) :
      Station s (.complete id) [.batch ids] (id :: ids)
  | follow (ids : List ActionId) : Station s (.follow .nothing) [.batch ids] ids
  | completed (ids : List ActionId) (settled : s.Settled) :
      Station s (.completed (.ok ())) [.batch ids] ids
  | ended (served : s.entries = []) : Station s (.ended (.ok ())) [] []

/-- Workers do not touch what the owner is about to do. -/
theorem Station.put {σ : Type} {s : Schedule σ} {phase : Phase σ} {callers : List (Caller σ)}
    {pending : List ActionId} (h : Station s phase callers pending) (world : σ) :
    Station { s with world := world } phase callers pending := by
  cases h <;> constructor <;> assumption

/-- All that happens when the owner of a run of tasks goes on, and what it has fetched and not
handled before and after. -/
inductive Went {τ ρ : Type} (x : Execution (Pool τ ρ)) :
    List ActionId → List ActionId → Execution (Pool τ ρ) → Prop where
  /-- It only gets nearer to where something happens. -/
  | on {pending : List ActionId} {phase : Phase (Pool τ ρ)} {callers : List (Caller (Pool τ ρ))}
      (station : Station x.schedule phase callers pending) (nearer : near phase < near x.phase) :
      Went x pending pending { x with phase := phase, callers := callers }
  /-- It fetches all completions there are. -/
  | fetched (waits : x.phase = .wait) (settled : x.schedule.Settled)
      (some : x.schedule.world.reported ≠ []) : Went x [] x.schedule.world.reported
        ⟨.handle x.schedule.world.reported, [], note (.delivered x.schedule.world.reported)
          { x.schedule with world := { x.schedule.world with reported := [] } }, x.calls⟩
  /-- It releases the next task whose completion it has fetched. -/
  | released {id : ActionId} {later : List ActionId} {e : Entry (Pool τ ρ)}
      {t : Schedule (Pool τ ρ)} (completes : x.phase = .complete id) (settled : x.schedule.Settled)
      (release : x.schedule.release? id = some (e, t)) : Went x (id :: later) later
        ⟨.follow .nothing, [.batch later], t.note (.finished id e.action.name), x.calls⟩

end Execution

/-- A wait that fetches what has been done. -/
theorem Pool.wait_of_reported {τ ρ : Type} {p : Pool τ ρ} (unpaced : p.pace = [])
    (fetch : p.reported ≠ []) : p.wait = (.ok p.reported, { p with reported := [] }) := by
  simp [wait, proceed, unpaced, fetch]

namespace Task

open Schedule Execution

variable {τ ρ : Type}

/-- What holds of a run of tasks between two turns. -/
structure Underway (tasks : List (Task τ ρ)) (shared : τ) (pending : List ActionId)
    (x : Execution (Pool τ ρ)) : Prop where
  station : Station x.schedule x.phase x.callers pending
  books : Books tasks shared pending x.schedule
  unpaced : x.schedule.world.pace = []
  last : x.calls = []

namespace Underway

variable {tasks : List (Task τ ρ)} {shared : τ} {pending : List ActionId}
  {takes : Nat → Prop} {x y : Execution (Pool τ ρ)}

theorem work (h : Underway tasks shared pending x) {n : Nat}
    (hn : n < x.schedule.world.queue.length) :
    Underway tasks shared pending (x.work n) ∧ (x.work n).way = x.way ∧
      (x.work n).chores < x.chores := by
  obtain ⟨phase, callers, s, calls⟩ := x
  obtain ⟨station, books, unpaced, last⟩ := h
  obtain ⟨before, id, work, after, (queue : s.world.queue = _), -, hstep⟩ := Pool.step_of_lt hn
  have paced : (s.world.step n).pace = [] := by rw [hstep]; exact unpaced
  have fewer : (s.world.step n).queue.length < s.world.queue.length := by simp [hstep, queue]
  exact ⟨⟨station.put _, books.work hn, paced, last⟩, rfl, Nat.add_lt_add_left fewer _⟩

theorem start (h : Underway tasks shared pending x) (admits : x.admits = true)
    {t : Schedule (Pool τ ρ)} (start : Start x.schedule t) :
    Underway tasks shared pending { x with schedule := t } ∧
      way { x with schedule := t } = x.way ∧ chores { x with schedule := t } < x.chores := by
  obtain ⟨phase, callers, s, calls⟩ := x
  obtain ⟨station, books, unpaced, last⟩ := h
  have books' := books.start start
  have actions := start.actions
  have size : t.entries.length = s.entries.length := by
    simpa using congrArg List.length actions
  obtain ⟨earlier, e, later, (queue : s.entries = _), eligible, first⟩ := start
  obtain ⟨task, -, -, spawned⟩ := books.world_begun queue
  refine ⟨⟨?_, books', ?_, last⟩, ?_, ?_⟩
  · cases station with
    | run => exact .run
    | follow => exact .follow _
    | _ => simp [Execution.admits] at admits
  · rw [spawned]
    exact unpaced
  · simp only [way, size]
  · simp only [chores, spawned]
    simp [begun, note, queue, Pool.spawn, eligible.1]
    omega

/-- What the owner does when it goes on. -/
theorem went (h : Underway tasks shared pending x) (ready : x.Ready) :
    ∃ later, Went x pending later (x.step Pool.loop) := by
  obtain ⟨under, settled, fetch⟩ := ready
  obtain ⟨phase, callers, s, calls⟩ := x
  obtain ⟨station, books, unpaced, last⟩ := h
  cases station with
  | run =>
    rw [step_run (settled rfl).startEligible]
    by_cases queued : s.entries = []
    · rw [show afterStart s (.ok ()) = .ended (.ok ()) by simp [afterStart, isEmpty, queued]]
      exact ⟨_, .on (.ended queued) (by simp [near])⟩
    · rw [show afterStart s (.ok ()) = .wait by simp [afterStart, isEmpty, queued]]
      exact ⟨_, .on (.wait (settled rfl) queued) (by simp [near])⟩
  | wait settled queued =>
    rw [step_wait (Pool.wait_of_reported unpaced (fetch rfl))]
    exact ⟨_, .fetched rfl settled (fetch rfl)⟩
  | handle _ settled =>
    cases pending with
    | nil => exact ⟨_, .on .run (by simp [near])⟩
    | cons id ids => exact ⟨_, .on (.complete id ids settled) (by simp [near])⟩
  | complete id ids settled =>
    obtain ⟨e, t, release⟩ := books.release
    rw [step_complete release, books.hook_release release]
    exact ⟨_, .released rfl settled release⟩
  | follow =>
    rw [step_nothing (settled rfl).startEligible]
    exact ⟨_, .on (.completed _ (settled rfl)) (by simp [near])⟩
  | completed _ settled =>
    refine ⟨_, .on (.handle _ settled) ?_⟩
    cases pending <;> simp [near]
  | ended served => simp [isBack] at under

theorem go (h : Underway tasks shared pending x) {later : List ActionId}
    (went : Went x pending later y) :
    Underway tasks shared later y ∧ y.way < x.way ∧ y.chores = x.chores := by
  cases went with
  | on station nearer =>
    exact ⟨⟨station, h.books, h.unpaced, h.last⟩, Nat.add_lt_add_left nearer _, rfl⟩
  | fetched waits settled some =>
    refine ⟨⟨.handle _ settled, h.books.fetch, h.unpaced, h.last⟩, ?_, rfl⟩
    obtain ⟨id, ids, some⟩ := List.exists_cons_of_ne_nil some
    simp only [way, some, waits, near]
    exact Nat.lt_succ_self _
  | released completes settled release =>
    have finished := h.books.finish release
    obtain ⟨l₁, l₂, queue, -, running, rfl⟩ := release?_eq_some release
    refine ⟨⟨.follow _, finished, h.unpaced, h.last⟩, ?_, ?_⟩
    · simp [way, near, note, queue]
      omega
    · simp [chores, note, queue, running]

/-- One turn of a run of tasks. -/
theorem turn (h : Underway tasks shared pending x) (turn : Turn takes x y) :
    (∃ later, Underway tasks shared later y) ∧ y.toil < x.toil := by
  cases turn with
  | work n place job =>
    obtain ⟨under, same, less⟩ := h.work job
    exact ⟨⟨pending, under⟩, by rw [toil, toil]; omega⟩
  | start admits start =>
    obtain ⟨under, same, less⟩ := h.start admits start
    exact ⟨⟨pending, under⟩, by rw [toil, toil]; omega⟩
  | go ready =>
    obtain ⟨later, went⟩ := h.went ready
    obtain ⟨under, less, same⟩ := h.go went
    exact ⟨⟨later, under⟩, by rw [toil, toil]; omega⟩

/-- A run of tasks is never stuck, as long as someone takes the job that waits longest. -/
theorem exists_turn (h : Underway tasks shared pending x) (under : x.isBack = false)
    (first : takes 0) : ∃ y, Turn takes x y := by
  by_cases settled : x.admits = true → x.schedule.Settled
  · by_cases fetch : x.waits = true → x.schedule.world.reported ≠ []
    · exact ⟨_, .go ⟨under, settled, fetch⟩⟩
    · obtain ⟨waits, none⟩ : x.waits = true ∧ x.schedule.world.reported = [] := by
        simpa using fetch
      obtain ⟨phase, callers, s, calls⟩ := x
      obtain ⟨station, books, unpaced, last⟩ := h
      cases station with
      | wait settled queued =>
        obtain ⟨e, he, running⟩ := settled.exists_running books.guarded.exclusive queued
        have job := books.exists_job he running none
        exact ⟨_, .work 0 first (List.length_pos_of_ne_nil job)⟩
      | _ => simp [Execution.waits] at waits
  · obtain ⟨admits, unsettled⟩ : x.admits = true ∧ ¬ x.schedule.Settled := by simpa using settled
    obtain ⟨t, start⟩ := exists_start unsettled
    exact ⟨_, .start admits start⟩

theorem turns (h : Underway tasks shared pending x) (turns : Turns takes x y) :
    ∃ later, Underway tasks shared later y := by
  induction turns with
  | refl => exact ⟨pending, h⟩
  | tail _ turn ih =>
    obtain ⟨later, h⟩ := ih
    exact (h.turn turn).1

/-- No interleaving goes on for ever. -/
theorem length_le_toil (h : Underway tasks shared pending x) {later : List (Execution (Pool τ ρ))}
    (interleaving : List.IsChain (Turn takes) (x :: later)) : later.length ≤ x.toil := by
  induction later generalizing x pending with
  | nil => exact Nat.zero_le _
  | cons y later ih =>
    obtain ⟨turn, rest⟩ := List.isChain_cons_cons.1 interleaving
    obtain ⟨⟨_, under⟩, less⟩ := h.turn turn
    exact Nat.lt_of_le_of_lt (ih under rest) less

/-- An interleaving can be brought to an end. -/
theorem exists_back (h : Underway tasks shared pending x) (first : takes 0) :
    ∃ y, Turns takes x y ∧ y.isBack = true := by
  induction hk : x.toil using Nat.strong_induction_on generalizing x pending with
  | _ k ih =>
  by_cases under : x.isBack = false
  · obtain ⟨y, turn⟩ := h.exists_turn under first
    obtain ⟨⟨_, next⟩, less⟩ := h.turn turn
    obtain ⟨z, turns, back⟩ := ih y.toil (hk ▸ less) next rfl
    exact ⟨z, .head turn turns, back⟩
  · exact ⟨x, .refl, by simpa using under⟩

/-- When the run returns, it has succeeded and nothing is queued. -/
theorem served (h : Underway tasks shared pending x) (back : x.isBack = true) :
    x.phase = .ended (.ok ()) ∧ x.callers = [] ∧ x.schedule.entries = [] ∧ pending = [] := by
  obtain ⟨phase, callers, s, calls⟩ := x
  obtain ⟨station, -, -, -⟩ := h
  cases station with
  | ended served => exact ⟨rfl, rfl, served, rfl⟩
  | _ => simp [isBack] at back

end Underway

/-- A run of tasks that is about to begin. -/
def opening (tasks : List (Task τ ρ)) (shared : τ) : Execution (Pool τ ρ) :=
  ⟨.run, [], ofActions (Pool.idle shared) (tasks.map action), []⟩

theorem underway_opening (tasks : List (Task τ ρ)) (shared : τ) :
    Underway tasks shared [] (opening tasks shared) where
  station := .run
  books := .ofActions tasks shared
  unpaced := by
    rw [opening, (queued_ofActions _ _).2.2]
    rfl
  last := rfl

theorem toil_opening (tasks : List (Task τ ρ)) (shared : τ) :
    (opening tasks shared).way = 7 * tasks.length + 3 ∧
      (opening tasks shared).toil = 9 * tasks.length + 3 := by
  obtain ⟨entries, -, world⟩ := queued_ofActions (Pool.idle shared) (tasks.map action)
  have size : (opening tasks shared).schedule.entries.length = tasks.length := by
    simp [opening, entries]
  have idle : (opening tasks shared).schedule.entries.countP (! ·.running) = tasks.length := by
    simp [opening, entries, List.countP_map, Function.comp_def]
  have queue : (opening tasks shared).schedule.world.queue = [] := by
    rw [opening, world]
    rfl
  have near : near (opening tasks shared).phase = 3 := rfl
  rw [toil, chores, way, size, idle, queue, near, List.length_nil]
  omega

end Task

end BackupRetention
