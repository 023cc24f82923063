import BackupRetention.Proofs.Schedule.Turns
import BackupRetention.Proofs.Schedule.Worlds

/-!
# Interleavings at a pace

The pace of a pool says how far its workers come before each wait. Whatever the pace, a run of
tasks is one of the interleavings of owner and workers; so what holds of all of these holds of it.

## Main definitions

* `Execution.unpaced`: an execution whose workers are left to themselves.
* `Pool.Paced`: the pace only names certain places.
* `Execution.Prepares`: what happens at a pace before the owner goes on.

## Main results

* `Task.runAll_turns`: a run of tasks at any pace is an interleaving.
-/

namespace BackupRetention

namespace Pool

variable {τ ρ : Type}

/-- The pool whose workers are left to themselves. -/
def unpaced (p : Pool τ ρ) : Pool τ ρ := { p with pace := [] }

/-- The pace only names places with `takes`. -/
def Paced (takes : Nat → Prop) (p : Pool τ ρ) : Prop := ∀ ns ∈ p.pace, ∀ n ∈ ns, takes n

theorem pace_step (n : Nat) (p : Pool τ ρ) : (p.step n).pace = p.pace := by
  unfold step
  split <;> rfl

theorem pace_steps (ns : List Nat) (p : Pool τ ρ) : (p.steps ns).pace = p.pace := by
  induction ns generalizing p with
  | nil => rfl
  | cons n ns ih => rw [steps, ih, pace_step]

@[simp] theorem unpaced_step (n : Nat) (p : Pool τ ρ) : (p.step n).unpaced = p.unpaced.step n := by
  unfold step unpaced
  split <;> rename_i h <;> simp only [h]

@[simp] theorem unpaced_steps (ns : List Nat) (p : Pool τ ρ) :
    (p.steps ns).unpaced = p.unpaced.steps ns := by
  induction ns generalizing p with
  | nil => rfl
  | cons n ns ih => rw [steps, ih, unpaced_step, steps]

theorem steps_concat (ns : List Nat) (n : Nat) (p : Pool τ ρ) :
    p.steps (ns ++ [n]) = (p.steps ns).step n := by
  induction ns generalizing p with
  | nil => rfl
  | cons m ns ih => exact ih (p.step m)

/-- If the first job is done and nothing is reported, there was none. -/
theorem queue_of_reported_step {p : Pool τ ρ} (h : (p.step 0).reported = []) :
    (p.step 0).queue = [] := by
  by_cases none : p.queue = []
  · rwa [step_nil none]
  · obtain ⟨before, id, work, after, -, -, hstep⟩ := step_of_lt (List.length_pos_of_ne_nil none)
    simp [hstep] at h

variable {takes : Nat → Prop}

/-- Where workers have come to once they have gone on. -/
theorem Paced.proceed {p : Pool τ ρ} (h : p.Paced takes) : p.proceed.Paced takes ∧
    ∃ ns, (∀ n ∈ ns, takes n) ∧ p.proceed.unpaced = p.unpaced.steps ns := by
  unfold Pool.proceed
  split
  · exact ⟨h, [], by simp, rfl⟩
  · next ns rest pace =>
    have all : ∀ ms ∈ ns :: rest, ∀ n ∈ ms, takes n := pace ▸ h
    refine ⟨?_, ns, all ns List.mem_cons_self, unpaced_steps ..⟩
    rw [Paced, pace_steps]
    exact fun ms hms => all ms (List.mem_cons_of_mem _ hms)

/-- The workers go on before a wait, as the pace says, and if this comes to nothing with the job
that waits longest. -/
theorem Paced.wait {p : Pool τ ρ} (h : p.Paced takes) (first : takes 0) :
    p.wait.2.Paced takes ∧ ∃ ns, (∀ n ∈ ns, takes n) ∧
      ((p.unpaced.steps ns).reported = [] → (p.unpaced.steps ns).queue = []) ∧
      ((p.unpaced.steps ns).reported ≠ [] → p.wait.1 = .ok (p.unpaced.steps ns).reported ∧
        p.wait.2.unpaced = { p.unpaced.steps ns with reported := [] }) := by
  obtain ⟨paced, ns, places, came⟩ := h.proceed
  unfold Pool.wait
  generalize p.proceed = q at paced came
  by_cases quiet : q.reported = []
  · have came' : (q.step 0).unpaced = p.unpaced.steps (ns ++ [0]) := by
      rw [unpaced_step, came, steps_concat]
    have places' : ∀ n ∈ ns ++ [0], takes n := by
      intro n hn
      rcases List.mem_append.1 hn with hn | hn
      · exact places n hn
      · exact List.mem_singleton.1 hn ▸ first
    simp only [if_pos quiet]
    have queue := queue_of_reported_step (p := q)
    have paced' : (q.step 0).Paced takes := by rwa [Paced, pace_step]
    generalize q.step 0 = r at came' queue paced'
    refine ⟨?_, ns ++ [0], places', came' ▸ queue, fun reported => ?_⟩
    · split <;> exact paced'
    · rw [← came'] at reported ⊢
      simp only [if_neg (show ¬ r.reported = [] from reported)]
      exact ⟨rfl, rfl⟩
  · simp only [if_neg quiet]
    refine ⟨paced, ns, places, ?_, ?_⟩ <;> rw [← came]
    · exact fun none => absurd none quiet
    · exact fun _ => ⟨rfl, rfl⟩

end Pool

namespace Schedule

variable {τ ρ : Type}

/-- The schedule with its workers left to themselves. -/
def unpaced (s : Schedule (Pool τ ρ)) : Schedule (Pool τ ρ) := { s with world := s.world.unpaced }

theorem unpaced_ofActions (p : Pool τ ρ) (actions : List (Action (Pool τ ρ))) :
    (ofActions p actions).unpaced = ofActions p.unpaced actions := by
  have queued : ∀ s : Schedule (Pool τ ρ), (actions.foldl (fun s a => (s.add a).2) s).unpaced =
      actions.foldl (fun s a => (s.add a).2) s.unpaced := by
    induction actions with
    | nil => exact fun _ => rfl
    | cons a actions ih => exact fun s => ih (s.add a).2
  exact queued (empty p)

theorem release?_unpaced {id : ActionId} {s t : Schedule (Pool τ ρ)} {e : Entry (Pool τ ρ)}
    (h : s.unpaced.release? id = some (e, t)) :
    ∃ u, s.release? id = some (e, u) ∧ u.unpaced = t := by
  unfold release? at h ⊢
  cases hf : s.entries.find? (isRun id) with
  | none => simp [unpaced, hf] at h
  | some x =>
    simp only [unpaced, hf, Option.some.injEq, Prod.mk.injEq] at h
    obtain ⟨rfl, rfl⟩ := h
    exact ⟨_, rfl, rfl⟩

end Schedule

namespace Execution

open Schedule

variable {τ ρ : Type} {takes : Nat → Prop}

/-- The execution with its workers left to themselves. -/
def unpaced (x : Execution (Pool τ ρ)) : Execution (Pool τ ρ) :=
  { x with schedule := x.schedule.unpaced }

/-- Some turns of the execution without its pace lead to `z`, and there the owner goes on as it does
at its pace. -/
structure Prepares (takes : Nat → Prop) (x z : Execution (Pool τ ρ)) : Prop where
  turns : Turns takes x.unpaced z
  ready : z.Ready
  far : z.way = x.way
  same : z.step Pool.loop = (x.step Pool.loop).unpaced

/-- Workers do one job after the other. -/
theorem turns_steps (x : Execution (Pool τ ρ)) {ns : List Nat} (places : ∀ n ∈ ns, takes n) :
    Turns takes x
      { x with schedule := { x.schedule with world := x.schedule.world.steps ns } } := by
  induction ns generalizing x with
  | nil => exact .refl
  | cons n ns ih =>
    have later := ih (x.work n) fun m hm => places m (List.mem_cons_of_mem _ hm)
    by_cases job : n < x.schedule.world.queue.length
    · exact .head (.work n (places n List.mem_cons_self) job) later
    · have same : x.schedule.world.step n = x.schedule.world := by
        rw [Pool.step, List.getElem?_eq_none (Nat.le_of_not_lt job)]
      rw [work, same] at later
      rwa [Pool.steps, same]

end Execution

namespace Task

open Schedule Execution

variable {τ ρ : Type} {tasks : List (Task τ ρ)} {shared : τ} {pending : List ActionId}
  {takes : Nat → Prop}

variable {s t : Schedule (Pool τ ρ)} {x : Execution (Pool τ ρ)}

theorem Books.unpaced_start (h : Books tasks shared pending s.unpaced) (start : Start s t) :
    Start s.unpaced t.unpaced := by
  obtain ⟨earlier, e, later, queue, eligible, first⟩ := start
  have he : e ∈ s.unpaced.entries := by simp [Schedule.unpaced, queue]
  obtain ⟨task, -, action⟩ := h.entries e he
  have same : (s.begun earlier e later).unpaced = s.unpaced.begun earlier e later := by
    obtain ⟨id, a, running⟩ := e
    obtain rfl : a = task.action := action
    rfl
  exact same ▸ .begin earlier e later queue eligible first

/-- The starts of tasks succeed. -/
theorem Books.startEligible_ok (h : Books tasks shared pending s.unpaced) :
    s.startEligible = (.ok (), s.startEligible.2) := by
  refine Prod.ext (startFrom_ok fun e he w => ?_) rfl
  obtain ⟨task, -, action⟩ := h.entries e he
  rw [action]
  rfl

namespace Underway

/-- Admission is a row of turns. -/
theorem turns_starts (h : Underway tasks shared pending x.unpaced) (admits : x.admits = true)
    (starts : Relation.ReflTransGen Start x.schedule t) :
    Turns takes x.unpaced { x with schedule := t }.unpaced := by
  induction starts with
  | refl => exact .refl
  | @tail u v _ start ih =>
    obtain ⟨_, under⟩ := h.turns ih
    have start' : Start u.unpaced v.unpaced := under.books.unpaced_start start
    exact ih.tail (.start admits start')

/-- The owner starts one action after the other, then it goes on. -/
theorem prepares_admits (h : Underway tasks shared pending x.unpaced) (admits : x.admits = true) :
    ∃ z, Prepares takes x z := by
  have ok := h.books.startEligible_ok (s := x.schedule)
  have starts := startEligible_starts x.schedule
  have size := congrArg List.length (actions_of_startEligible x.schedule)
  rw [List.length_map, List.length_map] at size
  generalize x.schedule.startEligible.2 = t at ok starts size
  have settled : t.Settled := settled_of_startEligible ok
  have settled' : t.unpaced.startEligible = (.ok (), t.unpaced) := Settled.startEligible settled
  have turns : Turns takes x.unpaced { x with schedule := t }.unpaced :=
    h.turns_starts admits starts
  obtain ⟨station, -, -, -⟩ := h
  obtain ⟨phase, callers, s, calls⟩ := x
  have far : way ⟨phase, callers, t.unpaced, calls⟩ = way ⟨phase, callers, s, calls⟩ := by
    simp only [way, Schedule.unpaced, size]
  cases station with
  | run =>
    exact ⟨_, turns, ⟨rfl, fun _ => settled, fun waits => absurd waits Bool.false_ne_true⟩, far,
      (step_run settled').trans (congrArg Execution.unpaced (step_run ok)).symm⟩
  | follow =>
    exact ⟨_, turns, ⟨rfl, fun _ => settled, fun waits => absurd waits Bool.false_ne_true⟩, far,
      (step_nothing settled').trans (congrArg Execution.unpaced (step_nothing ok)).symm⟩
  | _ => simp [Execution.admits] at admits

/-- The workers do what the pace says, then the owner fetches what has been done. -/
theorem prepares_waits (h : Underway tasks shared pending x.unpaced) (waits : x.waits = true)
    (paced : x.schedule.world.Paced takes) (first : takes 0) : ∃ z, Prepares takes x z := by
  obtain ⟨-, ns, places, idle, fetch⟩ := paced.wait first
  have turns := turns_steps x.unpaced places
  obtain ⟨_, under⟩ := h.turns turns
  obtain ⟨phase, callers, s, calls⟩ := x
  obtain ⟨station, books, unpaced, -⟩ := under
  cases station with
  | wait settled queued =>
    -- Something is running, so a job was done, or there is one and it would have been done.
    have reported : (s.world.unpaced.steps ns).reported ≠ [] := by
      intro none
      obtain ⟨e, he, running⟩ := settled.exists_running books.guarded.exclusive queued
      exact books.exists_job he running none (idle none)
    obtain ⟨answer, world⟩ := fetch reported
    have here : Pool.loop.wait s.world =
        (.ok (s.world.unpaced.steps ns).reported, s.world.wait.2) := Prod.ext answer rfl
    have there : Pool.loop.wait (s.world.unpaced.steps ns) =
        (.ok (s.world.unpaced.steps ns).reported, s.world.wait.2.unpaced) :=
      world ▸ Pool.wait_of_reported unpaced reported
    refine ⟨_, turns, ⟨rfl, fun admits => absurd admits Bool.false_ne_true, fun _ => reported⟩,
      rfl, ?_⟩
    rw [step_wait here]
    exact step_wait (s := { s with world := s.world.unpaced.steps ns }) there
  | _ => simp [Execution.waits] at waits

/-- Elsewhere the owner goes on at once. -/
theorem prepares_else (h : Underway tasks shared pending x.unpaced) (under : x.isBack = false)
    (admits : x.admits = false) (waits : x.waits = false) : Prepares takes x x.unpaced := by
  have ready : x.unpaced.Ready :=
    ⟨under, fun h => absurd (h.symm.trans admits) (by simp), fun h =>
      absurd (h.symm.trans waits) (by simp)⟩
  refine ⟨.refl, ready, rfl, ?_⟩
  obtain ⟨phase, callers, s, calls⟩ := x
  obtain ⟨station, books, unpaced, -⟩ := h
  cases station with
  | handle _ settled => cases pending <;> rfl
  | complete id ids settled =>
    obtain ⟨e, t, release⟩ := books.release
    obtain ⟨u, release', rfl⟩ := release?_unpaced release
    exact (step_complete release).trans (congrArg Execution.unpaced (step_complete release')).symm
  | completed _ settled => rfl
  | run => simp [Execution.admits] at admits
  | wait => simp [Execution.waits] at waits
  | follow => simp [Execution.admits, Hook.nothing] at admits
  | ended => simp [isBack] at under

/-- One step of a run at some pace. -/
theorem step (h : Underway tasks shared pending x.unpaced) (under : x.isBack = false)
    (paced : x.schedule.world.Paced takes) (first : takes 0) :
    Turns takes x.unpaced (x.step Pool.loop).unpaced ∧ (x.step Pool.loop).way < x.way := by
  obtain ⟨z, turns, ready, far, same⟩ : ∃ z, Prepares takes x z := by
    by_cases admits : x.admits = true
    · exact h.prepares_admits admits
    by_cases waits : x.waits = true
    · exact h.prepares_waits waits paced first
    exact ⟨_, h.prepares_else under (by simpa using admits) (by simpa using waits)⟩
  obtain ⟨_, underZ⟩ := h.turns turns
  obtain ⟨_, went⟩ := underZ.went ready
  obtain ⟨-, nearer, -⟩ := underZ.go went
  refine ⟨turns.tail (same ▸ .go ready), ?_⟩
  rw [same, far] at nearer
  exact nearer

/-- A run at some pace is an interleaving. By induction on the steps that are left to the owner. -/
theorem ends (h : Underway tasks shared pending x.unpaced) (kept : x.Kept (Pool.Paced takes))
    (first : takes 0) : ∃ k ≤ x.way, Turns takes x.unpaced (after Pool.loop k x).unpaced ∧
      (after Pool.loop k x).isBack = true := by
  induction hd : x.way using Nat.strong_induction_on generalizing x pending with
  | _ d ih =>
  by_cases under : x.isBack = false
  · obtain ⟨turns, nearer⟩ := h.step under kept.world first
    obtain ⟨_, next⟩ := h.turns turns
    have kept' : (x.step Pool.loop).Kept (Pool.Paced takes) :=
      kept.step fun _ hp => (hp.wait first).1
    obtain ⟨k, le, later, back⟩ := ih _ (hd ▸ nearer) next kept' rfl
    exact ⟨k + 1, Nat.lt_of_le_of_lt le (hd ▸ nearer), turns.trans later, back⟩
  · exact ⟨0, Nat.zero_le _, .refl, by simpa using under⟩

end Underway

theorem keeps_paced (t : Task τ ρ) : t.action.Keeps (Pool.Paced takes) :=
  .mk (fun _ _ h => h) fun _ => .finish _

/-- A run of tasks whose workers take jobs at places with `takes` is one of the interleavings. -/
theorem runAll_turns (tasks : List (Task τ ρ)) (shared : τ) {pace : List (List Nat)}
    (places : ∀ ns ∈ pace, ∀ n ∈ ns, takes n) (first : takes 0) :
    ∃ t, runAll Pool.loop { Pool.idle shared with pace := pace } (tasks.map action) = (.ok (), t) ∧
      Turns takes (opening tasks shared) ⟨.ended (.ok ()), [], t.unpaced, []⟩ := by
  let p : Pool τ ρ := { Pool.idle shared with pace := pace }
  let x : Execution (Pool τ ρ) := ⟨.run, [], ofActions p (tasks.map action), []⟩
  have begins : x.unpaced = opening tasks shared := by
    simp only [x, Execution.unpaced, unpaced_ofActions]
    rfl
  have under : Underway tasks shared [] x.unpaced := begins ▸ underway_opening tasks shared
  have kept : x.Kept (Pool.Paced takes) := by
    refine ⟨?_, fun e he => ?_, by simp [x], by simp [x], by simp [x]⟩
    · rw [(queued_ofActions p (tasks.map action)).2.2]
      exact places
    · obtain ⟨t, -, same⟩ := under.books.entries e he
      exact same ▸ t.keeps_paced
  obtain ⟨k, le, turns, back⟩ := under.ends kept first
  obtain ⟨_, last⟩ := under.turns turns
  obtain ⟨phase, callers, -, -⟩ := last.served back
  have far : x.way = 7 * tasks.length + 3 :=
    (congrArg way begins).trans (toil_opening tasks shared).1
  have none := last.last
  generalize hy : after Pool.loop k x = y at turns phase callers none
  obtain ⟨_, _, t, _⟩ := y
  obtain ⟨rfl, rfl, rfl⟩ := And.intro phase (And.intro callers none)
  have fuel : k + 2 ≤ fuelFor (tasks.map action).length := by
    rw [fuelFor, List.length_map]
    omega
  exact ⟨t, congrArg (Option.getD · _) (run_mono (run_of_after hy) fuel), begins ▸ turns⟩

end Task

end BackupRetention
