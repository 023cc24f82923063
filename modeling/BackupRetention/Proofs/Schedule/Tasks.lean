import BackupRetention.Proofs.Schedule.Lifecycle
import BackupRetention.Schedule.Pool

/-!
# Tasks

A task is a job that needs some labels, for any worker. As an action it hands its job over and
does nothing else; so all there is to know about a schedule of tasks stands in the books of its
pool.

## Main definitions

* `Task.action`: the action that hands the job of a task over.
* `Task.performAll`: what comes of doing jobs one after the other.
* `Task.Books`: journal, pool and queue add up.

## Main results

* `Task.Books.start`, `Task.Books.work`, `Task.Books.fetch`, `Task.Books.finish`: so they do after
  anything that can happen.
-/

namespace BackupRetention

variable {τ ρ : Type}

/-- A job and the labels that it needs. -/
structure Task (τ ρ : Type) where
  name : String
  labels : List Label
  work : τ → ρ × τ

/-- The numbers of the jobs that have been done, in this order. -/
def Pool.done (p : Pool τ ρ) : List ActionId := p.results.map Prod.fst

/-- The numbers of the jobs still to do, in the order in which they were handed over. -/
def Pool.waiting (p : Pool τ ρ) : List ActionId := p.queue.map Prod.fst

@[simp] theorem Pool.done_spawn (id : ActionId) (work : τ → ρ × τ) (p : Pool τ ρ) :
    (p.spawn id work).done = p.done := rfl

@[simp] theorem Pool.waiting_spawn (id : ActionId) (work : τ → ρ × τ) (p : Pool τ ρ) :
    (p.spawn id work).waiting = p.waiting ++ [id] := by
  simp [waiting, spawn]

/-- A job that is there is done. -/
theorem Pool.step_of_lt {p : Pool τ ρ} {n : Nat} (h : n < p.queue.length) :
    ∃ before id work after, p.queue = before ++ (id, work) :: after ∧ before.length = n ∧
      p.step n = { p with
        shared := (work p.shared).2
        queue := before ++ after
        reported := p.reported ++ [id]
        results := p.results ++ [(id, (work p.shared).1)] } := by
  refine ⟨p.queue.take n, p.queue[n].1, p.queue[n].2, p.queue.drop (n + 1), ?_, ?_, ?_⟩
  · rw [← List.drop_eq_getElem_cons h, List.take_append_drop]
  · exact List.length_take_of_le (Nat.le_of_lt h)
  · rw [step, List.getElem?_eq_getElem h, List.eraseIdx_eq_take_drop_succ]

namespace Task

open Schedule

/-- Hands the job over to the workers. -/
def action (t : Task τ ρ) : Action (Pool τ ρ) :=
  .mk t.name t.labels (fun id p => (.ok (), p.spawn id t.work)) fun _ => .nothing

section Perform

variable (tasks : List (Task τ ρ)) (shared : τ)

/-- What comes of doing the job of an action after others. -/
def perform (before : List (ActionId × ρ) × τ) (id : ActionId) : List (ActionId × ρ) × τ :=
  match tasks[id.val]? with
  | none => before
  | some t => (before.1 ++ [(id, (t.work before.2).1)], (t.work before.2).2)

/-- What comes of doing the jobs of some actions, one after the other. -/
def performAll (ids : List ActionId) : List (ActionId × ρ) × τ :=
  ids.foldl (perform tasks) ([], shared)

variable {tasks shared}

theorem performAll_concat {ids : List ActionId} {id : ActionId} {t : Task τ ρ}
    (ht : tasks[id.val]? = some t) :
    performAll tasks shared (ids ++ [id]) =
      ((performAll tasks shared ids).1 ++ [(id, (t.work (performAll tasks shared ids).2).1)],
        (t.work (performAll tasks shared ids).2).2) := by
  simp only [performAll, List.foldl_append, List.foldl_cons, List.foldl_nil, perform, ht]

/-- Later jobs add to what earlier ones gave. -/
theorem performAll_prefix (before after : List ActionId) :
    (performAll tasks shared before).1 <+: (performAll tasks shared (before ++ after)).1 := by
  rw [performAll, performAll, List.foldl_append]
  generalize before.foldl (perform tasks) ([], shared) = r
  induction after generalizing r with
  | nil => exact List.prefix_rfl
  | cons id after ih =>
    refine List.IsPrefix.trans ?_ (ih (perform tasks r id))
    unfold perform
    split
    · exact List.prefix_rfl
    · exact List.prefix_append ..

end Perform

/-- What holds of a schedule of tasks. `pending` is what a run has fetched and not handled yet. -/
structure Books (tasks : List (Task τ ρ)) (shared : τ) (pending : List ActionId)
    (s : Schedule (Pool τ ρ)) : Prop where
  guarded : Guarded s
  balanced : Balanced s
  total : s.nextId = tasks.length
  entries : ∀ e ∈ s.entries, ∃ t, tasks[e.id.val]? = some t ∧ e.action = t.action
  jobs : ∀ job ∈ s.world.queue, ∃ t, tasks[job.1.val]? = some t ∧ job.2 = t.work
  /-- What has been started is done or still to do. -/
  spawned : (Journal.started s.journal).Perm (s.world.done ++ s.world.waiting)
  /-- What is done is handled in this order. -/
  handled : s.world.done = (Journal.finished s.journal).reverse ++ (pending ++ s.world.reported)
  performed : (s.world.results, s.world.shared) = performAll tasks shared s.world.done

namespace Books

variable {tasks : List (Task τ ρ)} {shared : τ} {pending : List ActionId}
  {s t : Schedule (Pool τ ρ)}

/-- The start of a task hands its job over. -/
theorem world_begun (h : Books tasks shared pending s) {earlier later : List (Entry (Pool τ ρ))}
    {e : Entry (Pool τ ρ)} (queue : s.entries = earlier ++ e :: later) :
    ∃ task, tasks[e.id.val]? = some task ∧ e.action = task.action ∧
      (s.begun earlier e later).world = s.world.spawn e.id task.work := by
  obtain ⟨task, ht, ha⟩ := h.entries e (by simp [queue])
  refine ⟨task, ht, ha, ?_⟩
  rw [begun, ha]
  rfl

theorem start (h : Books tasks shared pending s) (start : Start s t) :
    Books tasks shared pending t := by
  have move : Move Pool.loop s t := start.move
  have guarded := h.guarded.move move
  have balanced := h.balanced.move move
  obtain ⟨earlier, e, later, queue, eligible, first⟩ := start
  obtain ⟨task, ht, ha, spawned⟩ := h.world_begun queue
  refine ⟨guarded, balanced, h.total, ?_, ?_, ?_, ?_, ?_⟩
  · intro x hx
    rcases List.mem_append.1 hx with hx | hx
    · exact h.entries x (by simp [queue, hx])
    · rcases List.mem_cons.1 hx with rfl | hx
      · exact ⟨task, ht, ha⟩
      · exact h.entries x (by simp [queue, hx])
  · intro job hjob
    rw [spawned] at hjob
    rcases List.mem_append.1 hjob with hjob | hjob
    · exact h.jobs job hjob
    · rw [List.mem_singleton.1 hjob]
      exact ⟨task, ht, rfl⟩
  · rw [spawned, Pool.done_spawn, Pool.waiting_spawn, ← List.append_assoc]
    exact (h.spawned.cons e.id).trans (List.perm_append_singleton ..).symm
  · rw [spawned]
    exact h.handled
  · rw [spawned]
    exact h.performed

/-- A worker does a job. -/
theorem work (h : Books tasks shared pending s) {n : Nat} (hn : n < s.world.queue.length) :
    Books tasks shared pending { s with world := s.world.step n } := by
  obtain ⟨before, id, work, after, queue, -, hstep⟩ := Pool.step_of_lt hn
  obtain ⟨task, ht, (rfl : work = task.work)⟩ := h.jobs (id, work) (by simp [queue])
  have put : Move Pool.loop s { s with world := s.world.step n } := .put _ s
  have performed := h.performed
  have done : (s.world.step n).done = s.world.done ++ [id] := by simp [hstep, Pool.done]
  refine ⟨h.guarded.move put, h.balanced.move put, h.total, h.entries, ?_, ?_, ?_, ?_⟩
  · intro job hjob
    apply h.jobs
    rw [hstep] at hjob
    rw [queue]
    exact (List.sublist_cons_self _ _).append_left before |>.subset hjob
  · have waiting : (s.world.step n).waiting = before.map Prod.fst ++ after.map Prod.fst := by
      simp [hstep, Pool.waiting]
    refine h.spawned.trans ?_
    rw [done, waiting, Pool.waiting, queue, List.map_append, List.map_cons, List.append_assoc]
    exact List.Perm.append_left _ List.perm_middle
  · rw [done, h.handled, hstep]
    simp
  · rw [done, performAll_concat ht, ← performed, hstep]

/-- A run fetches what has been done since the last time. -/
theorem fetch (h : Books tasks shared [] s) :
    Books tasks shared s.world.reported
      (note (.delivered s.world.reported) { s with world := { s.world with reported := [] } }) := by
  let fetching : EventLoop (Pool τ ρ) := ⟨fun p => (.ok p.reported, { p with reported := [] })⟩
  have move : Move fetching s
      (note (.delivered s.world.reported) { s with world := { s.world with reported := [] } }) :=
    .wait s
  refine ⟨h.guarded.move move, h.balanced.move move, h.total, h.entries, h.jobs, h.spawned, ?_,
    h.performed⟩
  exact h.handled.trans (by simp [note, Event.releases])

/-- A running task leaves the queue. -/
theorem finish {id : ActionId} (h : Books tasks shared (id :: pending) s) {e : Entry (Pool τ ρ)}
    (release : s.release? id = some (e, t)) :
    Books tasks shared pending (t.note (.finished id e.action.name)) := by
  have move : Move Pool.loop s (t.note (.finished id e.action.name)) := .finish t id e release
  have guarded := h.guarded.move move
  have balanced := h.balanced.move move
  have kept := sublist_of_release? release
  obtain ⟨l₁, l₂, -, -, -, rfl⟩ := release?_eq_some release
  refine ⟨guarded, balanced, h.total, fun x hx => h.entries x (kept.subset hx), h.jobs, h.spawned,
    ?_, h.performed⟩
  simpa [note, Event.releases] using h.handled

/-- The books are opened with all tasks queued. -/
theorem ofActions (tasks : List (Task τ ρ)) (shared : τ) :
    Books tasks shared [] (ofActions (Pool.idle shared) (tasks.map action)) := by
  have moves := ofActions_moves Pool.loop (Pool.idle shared) (tasks.map action)
  obtain ⟨entries, total, world⟩ := queued_ofActions (Pool.idle shared) (tasks.map action)
  obtain ⟨started, -, finished⟩ := quiet_ofActions (Pool.idle shared) (tasks.map action)
  refine ⟨(Guarded.empty _).moves moves, (Balanced.empty _).moves moves, by simpa using total, ?_,
    ?_, ?_, ?_, ?_⟩
  · intro e he
    rw [entries] at he
    obtain ⟨⟨a, n⟩, mem, rfl⟩ := List.mem_map.1 he
    rw [List.mem_zipIdx_iff_getElem?, List.getElem?_map, Option.map_eq_some_iff] at mem
    obtain ⟨t, ht, rfl⟩ := mem
    exact ⟨t, ht, rfl⟩
  · rw [world]
    simp [Pool.idle]
  · rw [world, started]
    exact .refl []
  · rw [world, finished]
    rfl
  · rw [world]
    rfl

/-- Whose completion has been fetched is running. -/
theorem release {id : ActionId} (h : Books tasks shared (id :: pending) s) :
    ∃ e t, s.release? id = some (e, t) := by
  have done : id ∈ s.world.done := by simp [h.handled]
  have started : id ∈ Journal.started s.journal :=
    h.spawned.mem_iff.2 (List.mem_append_left _ done)
  have unfinished : id ∉ Journal.finished s.journal := by
    have distinct := h.spawned.nodup_iff.1 h.balanced.nodup_started
    rw [h.handled] at distinct
    have := List.disjoint_of_nodup_append (List.nodup_append.1 distinct).1
    intro finished
    exact this (List.mem_reverse.2 finished) (by simp)
  have running := h.balanced.running_of_started started unfinished
  rcases hr : s.release? id with _ | ⟨e, t⟩
  · simp [release?_eq_none_iff.1 hr] at running
  · exact ⟨e, t, rfl⟩

/-- The hook of a task does nothing. -/
theorem hook_release {id : ActionId} (h : Books tasks shared pending s) {e : Entry (Pool τ ρ)}
    (release : s.release? id = some (e, t)) : e.action.hook id = .nothing := by
  obtain ⟨l₁, l₂, queue, -⟩ := release?_eq_some release
  obtain ⟨task, -, action⟩ := h.entries e (by simp [queue])
  rw [action]
  rfl

/-- As long as something runs, there is a completion to fetch or a job to do. -/
theorem exists_job (h : Books tasks shared [] s) {e : Entry (Pool τ ρ)} (he : e ∈ s.entries)
    (running : e.running = true) (fetched : s.world.reported = []) : s.world.queue ≠ [] := by
  intro none
  have isRunning : s.isRunning e.id = true := by
    simpa [isRunning] using ⟨e, he, rfl, running⟩
  have started : e.id ∈ Journal.started s.journal :=
    h.balanced.running.mem_iff.2 (List.mem_append_right _ (mem_runningIds.2 isRunning))
  have done := h.spawned.mem_iff.1 started
  rw [h.handled, fetched, Pool.waiting, none] at done
  have finished : e.id ∈ Journal.finished s.journal := by simpa using done
  simp [h.balanced.not_running_of_finished finished] at isRunning

theorem nodup_done (h : Books tasks shared pending s) : s.world.done.Nodup :=
  (List.nodup_append.1 (h.spawned.nodup_iff.1 h.balanced.nodup_started)).1

theorem exists_task_of_done (h : Books tasks shared pending s) {id : ActionId}
    (done : id ∈ s.world.done) : ∃ t, tasks[id.val]? = some t := by
  have started := h.spawned.mem_iff.2 (List.mem_append_left _ done)
  have kept : s.runningIds ⊆ s.entries.map Entry.id := (List.filter_sublist.map Entry.id).subset
  have added : id ∈ Journal.added s.journal := by
    refine h.balanced.queued.mem_iff.2 (List.mem_append.2 ?_)
    exact (List.mem_append.1 (h.balanced.running.mem_iff.1 started)).imp_right (kept ·)
  rw [h.balanced.numbers, h.total, List.mem_map] at added
  obtain ⟨n, hn, rfl⟩ := added
  exact ⟨_, List.getElem?_eq_getElem (by simpa using hn)⟩

/-- What is kept for a task is what its job gave, after the jobs done before it. -/
theorem result_eq (h : Books tasks shared pending s) {before after : List ActionId} {id : ActionId}
    (order : s.world.done = before ++ id :: after) : ∃ t, tasks[id.val]? = some t ∧
      s.world.result? id = some (t.work (performAll tasks shared before).2).1 := by
  have done : id ∈ s.world.done := by simp [order]
  obtain ⟨t, ht⟩ := h.exists_task_of_done done
  refine ⟨t, ht, List.lookup_eq_some_iff.2 ?_⟩
  have first : (performAll tasks shared (before ++ [id])).1 <+: s.world.results := by
    have whole : s.world.results = (performAll tasks shared s.world.done).1 :=
      congrArg Prod.fst h.performed
    rw [whole, order, List.append_cons before id after]
    exact performAll_prefix ..
  rw [performAll_concat ht] at first
  obtain ⟨rest, results⟩ := first
  rw [List.append_assoc, List.singleton_append] at results
  refine ⟨_, rest, results.symm, fun p hp => ?_⟩
  have distinct := h.nodup_done
  rw [Pool.done, ← results, List.map_append, List.map_cons] at distinct
  have apart := List.disjoint_of_nodup_append distinct (List.mem_map_of_mem hp)
  simp only [bne_iff_ne, ne_eq]
  rintro rfl
  exact apart List.mem_cons_self

/-- Once nothing is queued, every job has been done once, and its completion handled. -/
theorem all_done (h : Books tasks shared [] s) (none : s.entries = []) :
    s.world.queue = [] ∧ s.world.done.Perm ((List.range tasks.length).map ActionId.mk) := by
  have running := h.balanced.running
  have queued := h.balanced.queued
  rw [runningIds, none] at running
  rw [none] at queued
  simp only [List.filter_nil, List.map_nil, List.append_nil] at running queued
  have spawned := h.spawned.length_eq
  have handled := congrArg List.length h.handled
  have size := running.length_eq
  simp only [List.nil_append, List.length_append, List.length_reverse] at spawned handled
  have waiting : s.world.waiting = [] := List.length_eq_zero_iff.1 (by omega)
  have reported : s.world.reported = [] := List.length_eq_zero_iff.1 (by omega)
  refine ⟨List.map_eq_nil_iff.1 waiting, ?_⟩
  rw [h.handled, reported, List.append_nil, List.append_nil]
  refine (List.reverse_perm _).trans (queued.symm.trans ?_)
  rw [h.balanced.numbers, h.total]
  exact (List.reverse_perm _).map _

end Books

end Task

end BackupRetention
