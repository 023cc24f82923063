import BackupRetention.Proofs.Schedule.Steady
import BackupRetention.Schedule.Rehearsal

/-!
# Runs come to an end

As long as it goes smoothly, a run handles all that is queued and returns. The completions may
come in any order and in batches of any size.

## Main definitions

* `Schedule.Served`: everything that was ever queued is done.

## Main results

* `Execution.run_serves_all`: a smooth run serves everything.
-/

namespace BackupRetention

variable {σ : Type}

namespace Execution

open Schedule

variable {loop : EventLoop σ} {x : Execution σ}

theorem Steady.after (h : Steady x) (smooth : ∀ n, (after loop n x).Smooth loop) (n : Nat) :
    Steady (after loop n x) := by
  induction n with
  | zero => exact h
  | succ n ih =>
    rw [after_succ]
    by_cases idle : (Execution.after loop n x).phase = .idle
    · have last := ih.last
      have same : (Execution.after loop n x).step loop = Execution.after loop n x := by
        simp only [Execution.step, idle, begin, last]
      rwa [same]
    · exact (ih.step (smooth n) idle).1

/-- A run comes to its end. -/
theorem Steady.comes_to_end (h : Steady x) (smooth : ∀ n, (Execution.after loop n x).Smooth loop) :
    ∃ t, Leads loop x (start t []) ∧ Steady (start t []) := by
  induction x using below_wf.induction with
  | _ x ih =>
    by_cases idle : x.phase = .idle
    · obtain ⟨phase, k, s, cs⟩ := x
      obtain rfl : phase = .idle := idle
      obtain ⟨rfl, -⟩ : k = [] ∧ s.entries = [] := h.placed
      obtain rfl : cs = [] := h.last
      exact ⟨s, .refl loop _, h⟩
    · obtain ⟨steady, below⟩ := h.step (smooth 0) idle
      obtain ⟨t, leads, last⟩ := ih _ below steady fun n => smooth (n + 1)
      exact ⟨t, leads.head, last⟩

end Execution

namespace Schedule

/-- Everything that was ever queued was started, brought by a wait and released, each of it
once. -/
structure Served (t : Schedule σ) : Prop where
  queue : t.entries = []
  held : t.held = []
  distinct : (Journal.added t.journal).Nodup
  started : (Journal.started t.journal).Perm (Journal.added t.journal)
  delivered : (Journal.delivered t.journal).Perm (Journal.added t.journal)
  finished : (Journal.finished t.journal).Perm (Journal.added t.journal)

end Schedule

namespace Execution

open Schedule

variable {loop : EventLoop σ}

theorem Steady.served {t : Schedule σ} (h : Steady (start t [])) : t.Served := by
  have queue : t.entries = [] := h.placed.2
  have queued : (Journal.added t.journal).Perm (Journal.finished t.journal) := by
    simpa [start, queue] using h.balanced.queued
  have running : (Journal.started t.journal).Perm (Journal.finished t.journal) := by
    simpa [start, queue, runningIds] using h.balanced.running
  have brought : (Journal.delivered t.journal).Perm (Journal.finished t.journal) := by
    simpa [start, pending, owed] using h.brought
  refine ⟨queue, ?_, h.balanced.nodup_added, running.trans queued.symm,
    brought.trans queued.symm, queued.symm⟩
  rw [List.eq_nil_iff_forall_not_mem]
  intro x hx
  obtain ⟨a, ha, -⟩ := (h.guarded.exclusive.mem_held_iff x).1 hx
  simp [view, start, queue] at ha

theorem steady_ofActions (loop : EventLoop σ) (world : σ) (actions : List (Action σ)) :
    Steady ⟨.run, [], ofActions world actions, []⟩ := by
  have moves := ofActions_moves loop world actions
  have quiet := (quiet_ofActions world actions).2
  have guarded := (Guarded.empty world).moves moves
  have balanced := (Balanced.empty world).moves moves
  refine ⟨rfl, rfl, guarded, balanced, ?_, ?_, ?_⟩
  · simp [quiet, pending, owed]
  · simp [quiet]
  · simp [quiet]

/-- A run of any actions that start well, with hooks that only queue further actions, comes to
an end without a failure, whatever the order of the completions; everything that was ever
queued is done then. While it waits something is running. -/
theorem run_serves_all (loop : EventLoop σ) (world : σ) (actions : List (Action σ))
    (smooth : ∀ n, (after loop n (start (ofActions world actions) [.run])).Smooth loop) :
    (∃ n t, (∀ fuel ≥ n, run loop fuel (ofActions world actions) = some (.ok (), t)) ∧
      t.Served) ∧
    ∀ n, (after loop n (start (ofActions world actions) [.run])).phase = .wait →
      ∃ e ∈ (after loop n (start (ofActions world actions) [.run])).schedule.entries,
        e.running = true := by
  have steady := steady_ofActions loop world actions
  have smooth' (n : Nat) : (after loop n ⟨.run, [], ofActions world actions, []⟩).Smooth loop :=
    smooth (n + 1)
  refine ⟨?_, ?_⟩
  · obtain ⟨t, leads, last⟩ := steady.comes_to_end smooth'
    have whole : Leads loop (start (ofActions world actions) [.run]) (start t []) := leads.head
    obtain ⟨n, answered⟩ := callAll_eq_some_iff.2 whole
    obtain ⟨o, hrun⟩ : ∃ o, run loop n (ofActions world actions) = some (o, t) := by
      rw [callAll, call] at answered
      rcases hr : run loop n (ofActions world actions) with _ | ⟨o, u⟩
      · simp [hr] at answered
      · simp only [hr, callAll, Option.some.injEq] at answered
        exact ⟨o, answered ▸ rfl⟩
    -- The answer is that of a moment on the way, where all is well.
    obtain ⟨m, hm⟩ := leads_of_run hrun
    have placed := (steady.after smooth' m).placed
    rw [hm] at placed
    obtain ⟨rfl, -⟩ := placed
    exact ⟨n, t, fun fuel hfuel => run_mono hrun hfuel, last.served⟩
  · intro n hn
    cases n with
    | zero => cases hn
    | succ n =>
      have placed := (steady.after smooth' n).placed
      have hn' : (after loop n ⟨.run, [], ofActions world actions, []⟩).phase = .wait := hn
      rw [Placed, hn'] at placed
      exact placed.2

/-- The owner has nothing more to call. -/
def isOver (x : Execution σ) : Bool :=
  match x.phase, x.calls with
  | .idle, [] => true
  | _, _ => false

/-- What has come to an end stays as it is. -/
theorem after_of_isOver (loop : EventLoop σ) {x : Execution σ} {m n : Nat} (hmn : m ≤ n)
    (ended : (after loop m x).isOver = true) : after loop n x = after loop m x := by
  obtain ⟨k, rfl⟩ := Nat.exists_eq_add_of_le' hmn
  rw [after_add]
  generalize after loop m x = y at ended
  unfold isOver at ended
  split at ended
  · next hp hc =>
    have same : y.step loop = y := by simp only [step, hp, begin, hc]
    exact Function.iterate_fixed same k
  · contradiction

/-- It is enough to look at the steps before the end. -/
theorem smooth_of_isOver (loop : EventLoop σ) (x : Execution σ) (n : Nat)
    (before : ∀ m < n, (after loop m x).Smooth loop) (ended : (after loop n x).isOver = true)
    (m : Nat) : (after loop m x).Smooth loop := by
  rcases Nat.lt_or_ge m n with hm | hm
  · exact before m hm
  · rw [after_of_isOver loop hm ended]
    generalize after loop n x = y at ended
    unfold isOver at ended
    split at ended
    · next hp hc => exact ⟨by simp [admits, hp], by simp [hookOnlyQueues, hp], by simp [waits, hp]⟩
    · contradiction

/-- Two actions share a label, and the hook of the first one queues two more. -/
def family : List (Action Stage) :=
  [(Script.mk "a" ["disk"] .hold [.mk "c" ["disk"] .now [] none false false,
      .mk "d" ["net"] .hold [] none false false] none false false).action,
    (Script.mk "b" ["disk", "net"] .hold [] none false false).action]

/-- The completions of the family come one by one, that of the latest start first. -/
theorem family_served : ∃ n t,
    (∀ fuel ≥ n, run Rehearsal.loop fuel
      (ofActions (.opening [[.last], [.last], [.last], [.last]]) family) = some (.ok (), t)) ∧
      t.Served := by
  have smooth := smooth_of_isOver Rehearsal.loop
    (start (ofActions (.opening [[.last], [.last], [.last], [.last]]) family) [.run]) 33
    (by decide) (by decide)
  exact (run_serves_all _ _ _ smooth).1

end Execution

end BackupRetention
