import BackupRetention.Proofs.Schedule.Fuel
import Mathlib.Logic.Function.Iterate

/-!
# Executions

The calls of an owner, carried out in small steps. An execution knows what is under way and
who waits for its outcome, so one can stop it anywhere: inside a hook, between two
completions of a batch, or in a run that never comes to an end.

## Main definitions

* `Execution.step`: the next step; an execution that has come to its end stays as it is.
* `Execution.after`: an execution after a number of steps.
* `Execution.reached`: the same from the very beginning, before anything was called.
* `Execution.Leads`: some number of steps goes from one execution to another.
-/

namespace BackupRetention

/-- Who waits for the outcome of what is under way. -/
inductive Caller (σ : Type) where
  /-- A run in the middle of a batch, of which `rest` is still to be handled. -/
  | batch (rest : List ActionId)
  /-- A hook that goes on once it knows the outcome. -/
  | hook (next : Except Fault Unit → Hook σ)

/-- What is under way. -/
inductive Phase (σ : Type) where
  /-- Nothing; it is for the owner to call. -/
  | idle
  /-- A run is to start what can be started. -/
  | run
  /-- A run is to wait. -/
  | wait
  /-- A run is to handle a batch. -/
  | handle (ids : List ActionId)
  /-- A completion is to be handled. -/
  | complete (id : ActionId)
  /-- A hook is to go on. -/
  | follow (hook : Hook σ)
  /-- A completion has been handled. -/
  | completed (outcome : Except Fault Unit)
  /-- A run returns. -/
  | ended (outcome : Except Fault Unit)

structure Execution (σ : Type) where
  phase : Phase σ
  /-- Those who wait, the innermost first. -/
  callers : List (Caller σ)
  schedule : Schedule σ
  /-- What the owner is still to call. -/
  calls : List (Schedule.Call σ)

namespace Execution

open Schedule

variable {σ : Type}

def start (s : Schedule σ) (calls : List (Call σ)) : Execution σ :=
  ⟨.idle, [], s, calls⟩

/-- Hands an outcome to the one who waits for it. A failure ends the run that handles a
batch, and nobody keeps the rest of the batch. -/
def resume (outcome : Except Fault Unit) (x : Execution σ) : Execution σ :=
  match x.callers with
  | [] => { x with phase := .idle }
  | .hook next :: callers => { x with phase := .follow (next outcome), callers := callers }
  | .batch rest :: callers =>
    match outcome with
    | .ok () => { x with phase := .handle rest, callers := callers }
    | .error f => { x with phase := .ended (.error f), callers := callers }

/-- The next call of the owner, for whose outcome nobody else waits. -/
def begin (x : Execution σ) : Execution σ :=
  match x.calls with
  | [] => x
  | .add action :: calls => { x with schedule := (x.schedule.add action).2, calls := calls }
  | .run :: calls => { x with phase := .run, callers := [], calls := calls }
  | .completed id :: calls => { x with phase := .complete id, callers := [], calls := calls }

/-- The next step of a hook. After its end what has become possible is started, unless the
hook has failed. -/
def advance (x : Execution σ) : Hook σ → Execution σ
  | .finish (.error f) => { x with phase := .completed (.error f) }
  | .finish (.ok ()) =>
    let (outcome, s) := x.schedule.startEligible
    { x with phase := .completed outcome, schedule := s }
  | .look next => { x with phase := .follow (next x.schedule.view x.schedule.world) }
  | .put world next =>
    { x with phase := .follow next, schedule := { x.schedule with world := world } }
  | .add action next =>
    let (id, s) := x.schedule.add action
    { x with phase := .follow (next id), schedule := s }
  | .complete id next => { x with phase := .complete id, callers := .hook next :: x.callers }
  | .run next => { x with phase := .run, callers := .hook next :: x.callers }

/-- Where a run goes on once it has started what it can. -/
def afterStart (s : Schedule σ) : Except Fault Unit → Phase σ
  | .error f => .ended (.error (.within "run" f))
  | .ok () => if s.isEmpty then .ended (.ok ()) else .wait

theorem afterStart_cases (s : Schedule σ) (o : Except Fault Unit) :
    (∃ o', afterStart s o = .ended o') ∨ afterStart s o = .wait := by
  cases o with
  | error f => exact .inl ⟨_, rfl⟩
  | ok =>
    by_cases h : s.isEmpty
    · exact .inl ⟨_, if_pos h⟩
    · exact .inr (if_neg h)

/-- Where a run goes on after a wait. -/
def afterWait : Except Fault (List ActionId) → Phase σ
  | .error f => .ended (.error (.within "run" f))
  | .ok ids => .handle ids

def step (loop : EventLoop σ) (x : Execution σ) : Execution σ :=
  match x.phase with
  | .idle => x.begin
  | .run =>
    let (outcome, s) := x.schedule.startEligible
    { x with phase := afterStart s outcome, schedule := s }
  | .wait =>
    let (outcome, s) := x.schedule.await loop
    { x with phase := afterWait outcome, schedule := s }
  | .handle [] => { x with phase := .run }
  | .handle (id :: ids) => { x with phase := .complete id, callers := .batch ids :: x.callers }
  | .complete id =>
    match x.schedule.release? id with
    | none => { x with phase := .completed (.error (.untracked id)) }
    | some (e, s) =>
      { x with
        phase := .follow (e.action.hook id)
        schedule := s.note (.finished id e.action.name) }
  | .follow hook => x.advance hook
  | .completed outcome => x.resume outcome
  | .ended outcome => x.resume outcome

section Step

variable {loop : EventLoop σ} {callers : List (Caller σ)} {s t : Schedule σ} {calls : List (Call σ)}

theorem step_run {o : Except Fault Unit} (h : s.startEligible = (o, t)) :
    step loop ⟨.run, callers, s, calls⟩ = ⟨afterStart t o, callers, t, calls⟩ := by
  simp only [step, h]

theorem step_wait {ids : List ActionId} {world : σ} (h : loop.wait s.world = (.ok ids, world)) :
    step loop ⟨.wait, callers, s, calls⟩ =
      ⟨.handle ids, callers, note (.delivered ids) { s with world := world }, calls⟩ := by
  simp only [step, await, h, afterWait]

theorem step_complete {id : ActionId} {e : Entry σ} (h : s.release? id = some (e, t)) :
    step loop ⟨.complete id, callers, s, calls⟩ =
      ⟨.follow (e.action.hook id), callers, t.note (.finished id e.action.name), calls⟩ := by
  simp only [step, h]

/-- A hook that does nothing. -/
theorem step_nothing {o : Except Fault Unit} (h : s.startEligible = (o, t)) :
    step loop ⟨.follow .nothing, callers, s, calls⟩ = ⟨.completed o, callers, t, calls⟩ := by
  simp only [step, Hook.nothing, advance, h]

end Step

def after (loop : EventLoop σ) (n : Nat) (x : Execution σ) : Execution σ :=
  (step loop)^[n] x

@[simp] theorem after_zero (loop : EventLoop σ) (x : Execution σ) : after loop 0 x = x := rfl

theorem after_succ (loop : EventLoop σ) (n : Nat) (x : Execution σ) :
    after loop (n + 1) x = (after loop n x).step loop :=
  Function.iterate_succ_apply' _ _ _

theorem after_add (loop : EventLoop σ) (m n : Nat) (x : Execution σ) :
    after loop (m + n) x = after loop m (after loop n x) :=
  Function.iterate_add_apply _ _ _ _

/-- Where the calls of an owner have come to, from an empty schedule, after `n` steps. -/
def reached (loop : EventLoop σ) (world : σ) (calls : List (Call σ)) (n : Nat) : Execution σ :=
  after loop n (start (empty world) calls)

theorem reached_succ (loop : EventLoop σ) (world : σ) (calls : List (Call σ)) (n : Nat) :
    reached loop world calls (n + 1) = (reached loop world calls n).step loop :=
  after_succ loop n _

/-- Some number of steps goes from `x` to `y`. -/
def Leads (loop : EventLoop σ) (x y : Execution σ) : Prop :=
  ∃ n, after loop n x = y

variable {loop : EventLoop σ} {x y z : Execution σ}

theorem Leads.refl (loop : EventLoop σ) (x : Execution σ) : Leads loop x x := ⟨0, rfl⟩

theorem Leads.trans (h : Leads loop x y) (g : Leads loop y z) : Leads loop x z := by
  obtain ⟨m, rfl⟩ := h
  obtain ⟨n, rfl⟩ := g
  exact ⟨n + m, after_add loop n m x⟩

/-- A step in front. -/
theorem Leads.head (h : Leads loop (x.step loop) y) : Leads loop x y :=
  Leads.trans ⟨1, rfl⟩ h

end Execution

end BackupRetention
