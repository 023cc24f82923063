import BackupRetention.Schedule.Run

/-!
# Work for workers

Actions hand jobs to workers. What a job gives is kept under the number of its action. Which
jobs are done first, and how far the workers have come at each wait, is not fixed: `pace` says
it, and by default the job that waits longest has been done.

## Main definitions

* `Pool.spawn`: hands a job over.
* `Pool.step`: one of the jobs is done.
* `Pool.wait`: the jobs that were done since the last wait.
-/

namespace BackupRetention

/-- Jobs that share a `τ` and give a `ρ`. -/
structure Pool (τ ρ : Type) where
  shared : τ
  /-- The jobs still to do, in the order in which they were handed over. -/
  queue : List (ActionId × (τ → ρ × τ))
  /-- The jobs done since the last wait, in order. -/
  reported : List ActionId
  results : List (ActionId × ρ)
  /-- The jobs that are done before each of the next waits looks for them, by their places in
  what is still to do. A single worker always takes the job at place 0. -/
  pace : List (List Nat)

namespace Pool

variable {τ ρ : Type}

/-- Nothing to do yet. -/
def idle (shared : τ) : Pool τ ρ :=
  ⟨shared, [], [], [], []⟩

def spawn (id : ActionId) (work : τ → ρ × τ) (p : Pool τ ρ) : Pool τ ρ :=
  { p with queue := p.queue ++ [(id, work)] }

/-- The job at place `n` is done, if there is one. -/
def step (n : Nat) (p : Pool τ ρ) : Pool τ ρ :=
  match p.queue[n]? with
  | none => p
  | some (id, work) =>
    let (result, shared) := work p.shared
    { p with
      shared := shared
      queue := p.queue.eraseIdx n
      reported := p.reported ++ [id]
      results := p.results ++ [(id, result)] }

/-- The jobs at these places are done, one after the other. -/
def steps : List Nat → Pool τ ρ → Pool τ ρ
  | [], p => p
  | n :: ns, p => steps ns (p.step n)

/-- The workers go on as `pace` says. -/
def proceed (p : Pool τ ρ) : Pool τ ρ :=
  match p.pace with
  | [] => p
  | ns :: rest => steps ns { p with pace := rest }

/-- The jobs done since the last wait; if there are none, the first job is done before. -/
def wait (p : Pool τ ρ) : Except Fault (List ActionId) × Pool τ ρ :=
  let p := p.proceed
  let p := if p.reported = [] then p.step 0 else p
  if p.reported = [] then (.error (.io (.other "no work is under way")), p)
  else (.ok p.reported, { p with reported := [] })

def loop : EventLoop (Pool τ ρ) := ⟨wait⟩

/-- What the job of an action gave. -/
def result? (id : ActionId) (p : Pool τ ρ) : Option ρ :=
  p.results.lookup id

@[simp] theorem step_nil {p : Pool τ ρ} (h : p.queue = []) (n : Nat) : p.step n = p := by
  simp [step, h]

end Pool

namespace Schedule

variable {σ : Type}

/-- A schedule with `actions` queued. -/
def ofActions (world : σ) (actions : List (Action σ)) : Schedule σ :=
  actions.foldl (fun s a => (s.add a).2) (empty world)

/-- Enough fuel to run `n` actions whose hooks take a few steps and queue nothing. -/
def fuelFor (n : Nat) : Nat := 8 * (n + 1)

/-- Runs `actions` to the end. -/
def runAll (loop : EventLoop σ) (world : σ) (actions : List (Action σ)) :
    Except Fault Unit × Schedule σ :=
  let s := ofActions world actions
  (run loop (fuelFor actions.length) s).getD
    (.error (.io (.other "the schedule has come to no end")), s)

end Schedule

end BackupRetention
