import BackupRetention.Proofs.Schedule.Admission

/-!
# Worlds

A schedule touches the world only through its actions and its loop. What all of these keep is
kept by a whole run, whatever it comes to.

## Main definitions

* `Action.Keeps`, `Hook.Keeps`: starts and hooks keep a property of the world.
* `Execution.Kept`: the property holds and nothing on the way can destroy it.
-/

namespace BackupRetention

variable {σ : Type}

mutual

/-- The start and the hook of an action keep `P`. -/
inductive Action.Keeps (P : σ → Prop) : Action σ → Prop where
  | mk {name : String} {labels : List Label} {start : ActionId → σ → Except Fault Unit × σ}
      {hook : ActionId → Hook σ} (starts : ∀ id w, P w → P (start id w).2)
      (hooks : ∀ id, Hook.Keeps P (hook id)) : Action.Keeps P (.mk name labels start hook)

/-- A hook that is told a world with `P` writes only such worlds. -/
inductive Hook.Keeps (P : σ → Prop) : Hook σ → Prop where
  | finish (outcome : Except Fault Unit) : Hook.Keeps P (.finish outcome)
  | look {next : View → σ → Hook σ} (h : ∀ view w, P w → Hook.Keeps P (next view w)) :
      Hook.Keeps P (.look next)
  | put {world : σ} {next : Hook σ} (hw : P world) (h : Hook.Keeps P next) :
      Hook.Keeps P (.put world next)
  | add {action : Action σ} {next : ActionId → Hook σ} (ha : Action.Keeps P action)
      (h : ∀ id, Hook.Keeps P (next id)) : Hook.Keeps P (.add action next)
  | complete {id : ActionId} {next : Except Fault Unit → Hook σ}
      (h : ∀ o, Hook.Keeps P (next o)) : Hook.Keeps P (.complete id next)
  | run {next : Except Fault Unit → Hook σ} (h : ∀ o, Hook.Keeps P (next o)) :
      Hook.Keeps P (.run next)

end

variable {P : σ → Prop}

theorem Action.Keeps.start {a : Action σ} (h : a.Keeps P) {id : ActionId} {w : σ} (hw : P w) :
    P (a.start id w).2 := by
  cases h with
  | mk starts hooks => exact starts id w hw

theorem Action.Keeps.hook {a : Action σ} (h : a.Keeps P) (id : ActionId) : (a.hook id).Keeps P := by
  cases h with
  | mk starts hooks => exact hooks id

/-- Waiting keeps `P`. -/
def EventLoop.Keeps (P : σ → Prop) (loop : EventLoop σ) : Prop :=
  ∀ w, P w → P (loop.wait w).2

namespace Schedule

/-- Admission keeps what the queued actions keep, and it keeps the actions. -/
theorem startEligible_keeps {s : Schedule σ} (hs : P s.world)
    (h : ∀ e ∈ s.entries, e.action.Keeps P) :
    P s.startEligible.2.world ∧ ∀ e ∈ s.startEligible.2.entries, e.action.Keeps P := by
  have starts := startEligible_starts s
  generalize s.startEligible.2 = t at starts ⊢
  induction starts with
  | refl => exact ⟨hs, h⟩
  | tail _ start ih =>
    obtain ⟨world, entries⟩ := ih
    refine ⟨?_, ?_⟩
    · obtain ⟨earlier, e, later, queue, -, -⟩ := start
      exact (entries e (by simp [queue])).start world
    · intro e he
      have same : e.action ∈ List.map Entry.action _ := start.actions ▸ List.mem_map_of_mem he
      obtain ⟨e', he', heq⟩ := List.mem_map.1 same
      exact heq ▸ entries e' he'

end Schedule

namespace Execution

open Schedule

/-- `P` holds, and nothing that is still to be done can destroy it. -/
structure Kept (P : σ → Prop) (x : Execution σ) : Prop where
  world : P x.schedule.world
  entries : ∀ e ∈ x.schedule.entries, e.action.Keeps P
  hook : ∀ hook, x.phase = .follow hook → hook.Keeps P
  callers : ∀ next, .hook next ∈ x.callers → ∀ o, (next o).Keeps P
  calls : ∀ action, .add action ∈ x.calls → action.Keeps P

namespace Kept

variable {loop : EventLoop σ} {x : Execution σ}

theorem of_add (h : Kept P x) {action : Action σ} (ha : action.Keeps P) :
    ∀ e ∈ (x.schedule.add action).2.entries, e.action.Keeps P := by
  intro e he
  rcases List.mem_append.1 he with he | he
  · exact h.entries e he
  · rw [List.mem_singleton.1 he]
    exact ha

theorem resume (h : Kept P x) (o : Except Fault Unit) : Kept P (x.resume o) := by
  obtain ⟨phase, callers, s, calls⟩ := x
  obtain ⟨world, entries, -, waiting, later⟩ := h
  cases callers with
  | nil => exact ⟨world, entries, by simp [Execution.resume], waiting, later⟩
  | cons c k =>
    have outer : ∀ next, .hook next ∈ k → ∀ o, (next o).Keeps P :=
      fun next hn => waiting next (List.mem_cons_of_mem _ hn)
    cases c with
    | hook next =>
      refine ⟨world, entries, ?_, outer, later⟩
      intro hook hh
      obtain rfl : next o = hook := by simpa [Execution.resume] using hh
      exact waiting next List.mem_cons_self o
    | batch ids =>
      cases o with
      | ok => exact ⟨world, entries, by simp [Execution.resume], outer, later⟩
      | error f => exact ⟨world, entries, by simp [Execution.resume], outer, later⟩

theorem advance (h : Kept P x) {hook : Hook σ} (hh : hook.Keeps P) : Kept P (x.advance hook) := by
  have ⟨world, entries⟩ := startEligible_keeps h.world h.entries
  have call (next : Except Fault Unit → Hook σ) (hn : ∀ o, (next o).Keeps P) :
      ∀ n, .hook n ∈ .hook next :: x.callers → ∀ o, (n o).Keeps P := by
    intro n hmem
    rcases List.mem_cons.1 hmem with heq | hmem
    · obtain rfl : n = next := by simpa using heq
      exact hn
    · exact h.callers n hmem
  cases hh with
  | finish o =>
    cases o with
    | error f => exact ⟨h.world, h.entries, by simp [Execution.advance], h.callers, h.calls⟩
    | ok => exact ⟨world, entries, by simp [Execution.advance], h.callers, h.calls⟩
  | look hn =>
    refine ⟨h.world, h.entries, ?_, h.callers, h.calls⟩
    intro hook hhook
    cases hhook
    exact hn _ _ h.world
  | put hw hn =>
    refine ⟨hw, h.entries, ?_, h.callers, h.calls⟩
    intro hook hhook
    cases hhook
    exact hn
  | add ha hn =>
    refine ⟨h.world, h.of_add ha, ?_, h.callers, h.calls⟩
    intro hook hhook
    cases hhook
    exact hn _
  | complete hn => exact ⟨h.world, h.entries, by simp [Execution.advance], call _ hn, h.calls⟩
  | run hn => exact ⟨h.world, h.entries, by simp [Execution.advance], call _ hn, h.calls⟩

theorem step (h : Kept P x) (hloop : loop.Keeps P) : Kept P (x.step loop) := by
  have ⟨world, entries⟩ := startEligible_keeps h.world h.entries
  obtain ⟨phase, k, s, cs⟩ := x
  cases phase with
  | idle =>
    cases cs with
    | nil => exact h
    | cons c cs =>
      have later : ∀ action, .add action ∈ cs → action.Keeps P :=
        fun action ha => h.calls action (List.mem_cons_of_mem _ ha)
      cases c with
      | add action =>
        have entries := h.of_add (h.calls action List.mem_cons_self)
        exact ⟨h.world, entries, by simp [Execution.step, begin], h.callers, later⟩
      | run => exact ⟨h.world, h.entries, by simp [Execution.step, begin],
          by simp [Execution.step, begin], later⟩
      | completed id => exact ⟨h.world, h.entries, by simp [Execution.step, begin],
          by simp [Execution.step, begin], later⟩
  | run =>
    refine ⟨world, entries, ?_, h.callers, h.calls⟩
    intro hook hh
    rcases afterStart_cases s.startEligible.2 s.startEligible.1 with ⟨o, ho⟩ | ho <;>
      simp [Execution.step, ho] at hh
  | wait =>
    have kept := hloop s.world h.world
    rcases hw : loop.wait s.world with ⟨f | ids, w⟩ <;> rw [hw] at kept <;>
      simp only [Execution.step, await, hw] <;>
      exact ⟨kept, h.entries, by simp [afterWait], h.callers, h.calls⟩
  | handle ids =>
    cases ids with
    | nil => exact ⟨h.world, h.entries, by simp [Execution.step], h.callers, h.calls⟩
    | cons id ids =>
      refine ⟨h.world, h.entries, by simp [Execution.step], ?_, h.calls⟩
      intro next hn
      rcases List.mem_cons.1 hn with heq | hn
      · contradiction
      · exact h.callers next hn
  | complete id =>
    rcases hr : s.release? id with _ | ⟨e, t⟩ <;> simp only [Execution.step, hr]
    · exact ⟨h.world, h.entries, by simp, h.callers, h.calls⟩
    · have kept := sublist_of_release? hr
      obtain ⟨l₁, l₂, queue, -, -, rfl⟩ := release?_eq_some hr
      refine ⟨h.world, fun x hx => h.entries x (kept.subset hx), ?_, h.callers, h.calls⟩
      intro hook hh
      obtain rfl : e.action.hook id = hook := by simpa using hh
      exact (h.entries e (by simp [queue])).hook id
  | follow hook => exact h.advance (h.hook hook rfl)
  | completed o => exact h.resume o
  | ended o => exact h.resume o

theorem after (h : Kept P x) (hloop : loop.Keeps P) (n : Nat) : Kept P (after loop n x) := by
  induction n with
  | zero => exact h
  | succ n ih =>
    rw [after_succ]
    exact ih.step hloop

end Kept

end Execution

/-- A run keeps what its actions and its loop keep. -/
theorem Schedule.run_keeps {loop : EventLoop σ} {n : Nat} {s t : Schedule σ}
    {o : Except Fault Unit} (hloop : loop.Keeps P) (hs : P s.world)
    (h : ∀ e ∈ s.entries, e.action.Keeps P) (hrun : run loop n s = some (o, t)) : P t.world := by
  obtain ⟨m, hm⟩ := Execution.leads_of_run hrun
  have kept : Execution.Kept P ⟨.run, [], s, []⟩ := ⟨hs, h, by simp, by simp, by simp⟩
  have := (kept.after hloop m).world
  rwa [hm] at this

end BackupRetention
