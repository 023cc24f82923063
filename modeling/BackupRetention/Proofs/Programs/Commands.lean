import BackupRetention.Programs.Commands
import BackupRetention.Proofs.Schedule.OneWorker
import BackupRetention.Proofs.Schedule.Pace

/-!
# Commands and workers

However the workers come along, every command is run once, with its own command line, and what it
gave is kept for it alone; the run of the schedule succeeds, whatever the commands give. A single
worker runs them in an order that does not depend on how far it is ahead.

## Main definitions

* `Command.Executed`: what holds of machine and results at any time.
* `Command.Served`: what holds when the run has returned.

## Main results

* `Command.served_by_workers`: commands are served in every interleaving of owner and workers.
-/

namespace BackupRetention

/-- The machine after some command lines, one after the other. -/
def Machine.executeAll (runner : Runner) (m : Machine) (lines : List (List String)) : Machine :=
  lines.foldl (fun m args => (m.execute runner args).2) m

@[simp] theorem Machine.calls_executeAll (runner : Runner) (m : Machine)
    (lines : List (List String)) : (m.executeAll runner lines).calls = m.calls ++ lines := by
  induction lines generalizing m with
  | nil => exact (List.append_nil _).symm
  | cons args lines ih => exact (ih _).trans (by simp)

namespace Command

open Schedule Execution

section Executed

variable (runner : Runner) (machine : Machine) (commands : List Command)

/-- The job of a command. -/
def task (c : Command) : Task Machine (Except Fault Int) :=
  ⟨c.args.headD "", c.labels, fun m => m.execute runner c.args⟩

/-- A run of commands that is about to begin. -/
def opening : Execution CommandPool :=
  ⟨.run, [], ofActions (Pool.idle machine) (commands.map (action runner)), []⟩

/-- The command lines of the commands with these numbers. -/
def lines (ids : List ActionId) : List (List String) :=
  ids.filterMap fun id => commands[id.val]?.map args

/-- What machine and results say of the commands that have been run so far. -/
structure Executed (x : Execution CommandPool) : Prop where
  once : x.schedule.world.done.Nodup
  shared : x.schedule.world.shared =
    machine.executeAll runner (lines commands x.schedule.world.done)
  /-- The handle of a command holds what its own call gave. -/
  outcome : ∀ before id after, x.schedule.world.done = before ++ id :: after →
    ∃ c, commands[id.val]? = some c ∧ x.schedule.world.result? id =
      some ((machine.executeAll runner (lines commands before)).execute runner c.args).1
  /-- The handles of other commands are empty. -/
  unset : ∀ id, id ∉ x.schedule.world.done → x.schedule.world.result? id = none

/-- What holds when all has been done. -/
structure Served (x : Execution CommandPool) : Prop extends
    Executed runner machine commands x where
  succeeded : x.phase = .ended (.ok ())
  emptied : x.schedule.entries = []
  all : x.schedule.world.done.Perm ((List.range commands.length).map ActionId.mk)
  calls : ∃ ran, x.schedule.world.shared.calls = machine.calls ++ ran ∧ ran.Perm (commands.map args)

end Executed

variable {runner : Runner} {machine : Machine} {commands : List Command}

theorem actions_task :
    (commands.map (task runner)).map Task.action = commands.map (action runner) := List.map_map

theorem opening_task :
    Task.opening (commands.map (task runner)) machine = opening runner machine commands := by
  rw [Task.opening, actions_task, opening]

/-- The jobs of commands run their command lines. -/
theorem performAll_task (ids : List ActionId) :
    (Task.performAll (commands.map (task runner)) machine ids).2 =
      machine.executeAll runner (lines commands ids) := by
  unfold Task.performAll Machine.executeAll
  generalize [] = results
  induction ids generalizing machine results with
  | nil => rfl
  | cons id ids ih =>
    rw [List.foldl_cons, Task.perform, List.getElem?_map, lines, List.filterMap_cons]
    cases commands[id.val]? with
    | none => exact ih results
    | some c => exact ih _

theorem lines_perm {ids : List ActionId}
    (all : ids.Perm ((List.range commands.length).map ActionId.mk)) :
    (lines commands ids).Perm (commands.map args) := by
  refine (all.filterMap _).trans (.of_eq ?_)
  rw [List.filterMap_map]
  clear all
  induction commands with
  | nil => rfl
  | cons c commands ih =>
    rw [List.length_cons, List.range_succ_eq_map, List.filterMap_cons, List.filterMap_map]
    exact congrArg (c.args :: ·) ih

/-- What has been run, at any time. -/
theorem executed {pending : List ActionId} {x : Execution CommandPool}
    (h : Task.Underway (commands.map (task runner)) machine pending x) :
    Executed runner machine commands x where
  once := h.books.nodup_done
  shared := (congrArg Prod.snd h.books.performed).trans (performAll_task _)
  outcome before id after order := by
    obtain ⟨t, ht, result⟩ := h.books.result_eq order
    rw [List.getElem?_map, Option.map_eq_some_iff] at ht
    obtain ⟨c, hc, rfl⟩ := ht
    rw [performAll_task] at result
    exact ⟨c, hc, result⟩
  unset id absent := by
    rw [Pool.result?, List.lookup_eq_none_iff]
    intro p hp
    rw [bne_iff_ne]
    rintro rfl
    exact absent (List.mem_map_of_mem hp)

theorem served {pending : List ActionId} {x : Execution CommandPool}
    (h : Task.Underway (commands.map (task runner)) machine pending x) (back : x.isBack = true) :
    Served runner machine commands x := by
  obtain ⟨phase, -, none, rfl⟩ := h.served back
  have ran := executed h
  have all := (h.books.all_done none).2
  rw [List.length_map] at all
  refine ⟨ran, phase, none, all, _, ?_, lines_perm all⟩
  rw [ran.shared, Machine.calls_executeAll]

section Workers

variable (runner : Runner) (machine : Machine) (commands : List Command)

theorem underway_opening : Task.Underway (commands.map (task runner)) machine []
    (opening runner machine commands) :=
  opening_task ▸ Task.underway_opening (commands.map (task runner)) machine

/-- No interleaving goes on for ever. -/
theorem length_le_of_interleaving {takes : Nat → Prop} {later : List (Execution CommandPool)}
    (interleaving : List.IsChain (Turn takes) (opening runner machine commands :: later)) :
    later.length ≤ 9 * commands.length + 3 := by
  have toil := (Task.toil_opening (commands.map (task runner)) machine).2
  rw [opening_task, List.length_map] at toil
  exact toil ▸ (underway_opening runner machine commands).length_le_toil interleaving

/-- At any time the commands run so far are accounted for, and the run goes on or has served all. -/
theorem executed_and_goes_on {takes : Nat → Prop} (first : takes 0) {x : Execution CommandPool}
    (turns : Turns takes (opening runner machine commands) x) :
    Executed runner machine commands x ∧
      ((∃ y, Turn takes x y) ∨ Served runner machine commands x) := by
  obtain ⟨_, here⟩ := (underway_opening runner machine commands).turns turns
  refine ⟨executed here, ?_⟩
  by_cases back : x.isBack = true
  · exact .inr (served here back)
  · exact .inl (here.exists_turn (by simpa using back) first)

/-- What a run at some pace returns is what has come of an interleaving. -/
theorem runAll_interleaving (takes : Nat → Prop) (first : takes 0) {pace : List (List Nat)}
    (places : ∀ ns ∈ pace, ∀ n ∈ ns, takes n) :
    ∃ x, Turns takes (opening runner machine commands) x ∧ Served runner machine commands x ∧
      runAll runner pace machine commands =
        { run := .ok ()
          calls := x.schedule.world.shared.calls
          outcomes := (List.range commands.length).map fun n => x.schedule.world.result? ⟨n⟩
          left := 0 } := by
  obtain ⟨t, answer, turns⟩ := Task.runAll_turns (commands.map (task runner)) machine places first
  rw [opening_task] at turns
  rw [actions_task] at answer
  obtain ⟨_, last⟩ := (underway_opening runner machine commands).turns turns
  have all := served last rfl
  refine ⟨_, turns, all, ?_⟩
  have left : t.size = 0 := List.length_eq_zero_iff.2 all.emptied
  simp only [runAll, answer, left]
  rfl

/-- A single worker runs the commands in the same order in every interleaving. -/
theorem one_order : ∃ order, ∀ x, Turns (· = 0) (opening runner machine commands) x →
    x.schedule.world.done <+: order ∧
      (Served runner machine commands x → x.schedule.world.done = order) := by
  have inOrder := Task.inOrder_opening (commands.map (task runner)) machine
  rw [opening_task] at inOrder
  obtain ⟨order, same⟩ := (underway_opening runner machine commands).same_order inOrder
  refine ⟨order, fun x turns => ?_⟩
  obtain ⟨sofar, whole⟩ := same x turns
  refine ⟨sofar, fun all => whole ?_⟩
  rw [isBack, all.succeeded]

/-- Commands and workers. However the workers come along, the run is never stuck and comes to its
end with all commands served; at any pace this is what is returned. With a single worker there is
only one order, at any pace as well. -/
theorem served_by_workers :
    (∀ takes : Nat → Prop, takes 0 →
      (∀ later, List.IsChain (Turn takes) (opening runner machine commands :: later) →
        later.length ≤ 9 * commands.length + 3) ∧
      (∀ x, Turns takes (opening runner machine commands) x →
        Executed runner machine commands x ∧
          ((∃ y, Turn takes x y) ∨ Served runner machine commands x)) ∧
      ∀ pace : List (List Nat), (∀ ns ∈ pace, ∀ n ∈ ns, takes n) →
        ∃ x, Turns takes (opening runner machine commands) x ∧
          Served runner machine commands x ∧
          runAll runner pace machine commands =
            { run := .ok ()
              calls := x.schedule.world.shared.calls
              outcomes := (List.range commands.length).map fun n => x.schedule.world.result? ⟨n⟩
              left := 0 }) ∧
    ∃ order,
      (∀ x, Turns (· = 0) (opening runner machine commands) x →
        x.schedule.world.done <+: order ∧
          (Served runner machine commands x → x.schedule.world.done = order)) ∧
      ∀ pace : List (List Nat), (∀ ns ∈ pace, ∀ n ∈ ns, n = 0) →
        (runAll runner pace machine commands).calls = machine.calls ++ lines commands order := by
  refine ⟨fun takes first => ⟨?_, ?_, ?_⟩, ?_⟩
  · exact fun _ interleaving => length_le_of_interleaving runner machine commands interleaving
  · exact fun _ turns => executed_and_goes_on runner machine commands first turns
  · exact fun _ places => runAll_interleaving runner machine commands takes first places
  · obtain ⟨order, same⟩ := one_order runner machine commands
    refine ⟨order, same, fun pace places => ?_⟩
    obtain ⟨x, turns, all, report⟩ :=
      runAll_interleaving runner machine commands (· = 0) rfl places
    have done : x.schedule.world.done = order := (same x turns).2 all
    rw [report, all.shared, Machine.calls_executeAll, done]

end Workers

/-- Three commands that need the same label. -/
def trio : List Command := [⟨["one"], ["disk"]⟩, ⟨["two"], ["disk"]⟩, ⟨["fail"], ["disk"]⟩]

/-- A runner that only fails where it is told to. -/
def obedient : Runner := fun args t => (.ok (if args = ["fail"] then 3 else 0), t)

theorem trio_served :
    let begun := opening obedient (.ofTree .empty) trio
    (∃ y, Turn (· = 0) begun y ∧ List.length [y] ≤ 9 * trio.length + 3) ∧
      ∃ x, Turns (· = 0) begun x ∧ Served obedient (.ofTree .empty) trio x ∧
        x.schedule.world.shared.calls = [["one"], ["two"], ["fail"]] := by
  intro begun
  obtain ⟨bounded, progress, paced⟩ :=
    (served_by_workers obedient (.ofTree .empty) trio).1 (· = 0) rfl
  obtain ⟨y, turn⟩ := (progress begun .refl).2.resolve_right fun all => nomatch all.succeeded
  obtain ⟨x, turns, all, report⟩ := paced [[0], [0, 0]] (by decide)
  refine ⟨⟨y, turn, bounded [y] (.cons_cons turn (.singleton y))⟩, x, turns, all, ?_⟩
  have calls : (runAll obedient [[0], [0, 0]] (.ofTree .empty) trio).calls =
      [["one"], ["two"], ["fail"]] := by decide +kernel
  rwa [report] at calls

end Command

end BackupRetention
