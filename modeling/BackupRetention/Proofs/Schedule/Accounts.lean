import BackupRetention.Proofs.Schedule.Journal
import BackupRetention.Proofs.Schedule.Moves
import Mathlib.Data.List.Nodup

/-!
# Accounts

Nothing gets lost between the events of a journal and the queue: what was queued is released
or still in the queue, and what was started is released or still running. Numbers are given
out one after the other, so each of these happens at most once to an action.

## Main definitions

* `Schedule.Balanced`: queue and journal add up.
-/

namespace BackupRetention

namespace Schedule

variable {σ : Type} {loop : EventLoop σ} {s t : Schedule σ}

/-- The numbers of the running actions, in the order of the queue. -/
def runningIds (s : Schedule σ) : List ActionId :=
  (s.entries.filter Entry.running).map Entry.id

theorem mem_runningIds {id : ActionId} : id ∈ s.runningIds ↔ s.isRunning id = true := by
  simp [runningIds, isRunning, and_comm, and_left_comm, and_assoc]

section Admission

variable (s)

/-- What no start tells is told by no admission. -/
theorem flatMap_startEligible (f : Event → List ActionId)
    (hf : ∀ id name, f (.started id name) = []) :
    s.startEligible.2.journal.flatMap (f ·.event) = s.journal.flatMap (f ·.event) := by
  have starts := startEligible_starts s
  generalize s.startEligible.2 = t at starts ⊢
  induction starts with
  | refl => rfl
  | tail _ start ih =>
    obtain ⟨m, hj, id, name, hev⟩ := start.journal
    rw [hj, List.flatMap_cons, hev, hf, List.nil_append, ih]

@[simp] theorem delivered_startEligible :
    Journal.delivered s.startEligible.2.journal = Journal.delivered s.journal :=
  flatMap_startEligible s Event.deliveries fun _ _ => rfl

@[simp] theorem finished_startEligible :
    Journal.finished s.startEligible.2.journal = Journal.finished s.journal :=
  flatMap_startEligible s Event.releases fun _ _ => rfl

end Admission

/-- Nothing has happened before a run. -/
theorem quiet_ofActions (world : σ) (actions : List (Action σ)) :
    Journal.started (ofActions world actions).journal = [] ∧
      Journal.delivered (ofActions world actions).journal = [] ∧
      Journal.finished (ofActions world actions).journal = [] :=
  ofActions_induction (P := fun s => Journal.started s.journal = [] ∧
    Journal.delivered s.journal = [] ∧ Journal.finished s.journal = []) ⟨rfl, rfl, rfl⟩
    fun _ _ _ h => h

/-- Queue and journal add up. -/
structure Balanced (s : Schedule σ) : Prop where
  numbers : Journal.added s.journal = (List.range s.nextId).reverse.map ActionId.mk
  queued : (Journal.added s.journal).Perm (Journal.finished s.journal ++ s.entries.map Entry.id)
  running : (Journal.started s.journal).Perm (Journal.finished s.journal ++ s.runningIds)

namespace Balanced

theorem empty (world : σ) : Balanced (Schedule.empty world) :=
  ⟨rfl, .nil, .nil⟩

/-- Each move puts a number on both sides of an account, or moves it from the queue to the
released ones; so it is enough to count. -/
theorem move (h : Balanced s) (move : Move loop s t) : Balanced t := by
  obtain ⟨numbers, queued, running⟩ := h
  cases move with
  | add action =>
    refine ⟨?_, ?_, ?_⟩
    · simp [add, note, Event.additions, numbers, List.range_succ]
    · apply List.perm_iff_count.2
      intro a
      have := queued.count_eq a
      simp only [add, note, Journal.added_cons, Journal.finished_cons, Event.additions,
        Event.releases, List.nil_append, List.map_append, List.map_cons, List.map_nil,
        List.count_append] at this ⊢
      omega
    · simpa [add, note, Event.starts, Event.releases, runningIds] using running
  | put world => exact ⟨numbers, queued, running⟩
  | start earlier e later queue eligible first =>
    have idle := eligible.1
    refine ⟨numbers, ?_, ?_⟩
    · simpa [begun, note, Event.additions, Event.releases, queue] using queued
    · apply List.perm_iff_count.2
      intro a
      have := running.count_eq a
      simp only [runningIds, queue, List.filter_append, List.filter_cons, idle,
        Bool.false_eq_true, if_false, List.map_append, List.count_append] at this
      simp only [begun, note, Journal.started_cons, Journal.finished_cons, Event.starts,
        Event.releases, runningIds, List.nil_append, List.filter_append, List.filter_cons,
        if_true, List.map_append, List.map_cons, List.count_append, List.count_cons,
        List.count_nil]
      omega
  | wait =>
    unfold await
    split <;> exact ⟨numbers, queued, running⟩
  | finish u id e release =>
    obtain ⟨l₁, l₂, queue, rfl, hrun, rfl⟩ := release?_eq_some release
    refine ⟨numbers, ?_, ?_⟩
    · apply List.perm_iff_count.2
      intro a
      have := queued.count_eq a
      simp only [queue, List.map_append, List.map_cons, List.count_append,
        List.count_cons] at this
      simp only [note, Journal.added_cons, Journal.finished_cons, Event.additions,
        Event.releases, List.nil_append, List.map_append, List.count_append, List.count_cons,
        List.count_nil]
      omega
    · apply List.perm_iff_count.2
      intro a
      have := running.count_eq a
      simp only [runningIds, queue, List.filter_append, List.filter_cons, hrun, if_true,
        List.map_append, List.map_cons, List.count_append, List.count_cons] at this
      simp only [note, Journal.started_cons, Journal.finished_cons, Event.starts,
        Event.releases, runningIds, List.nil_append, List.filter_append, List.map_append,
        List.count_append, List.count_cons, List.count_nil]
      omega

theorem moves (h : Balanced s) (g : Moves loop s t) : Balanced t :=
  g.preserve (fun _ _ m h => h.move m) h

theorem nodup_added (h : Balanced s) : (Journal.added s.journal).Nodup := by
  rw [h.numbers]
  refine List.Nodup.map ?_ (List.nodup_reverse.2 List.nodup_range)
  intro a b hab
  exact congrArg ActionId.val hab

theorem nodup_entries (h : Balanced s) :
    (Journal.finished s.journal ++ s.entries.map Entry.id).Nodup :=
  h.queued.nodup_iff.1 h.nodup_added

/-- What has been released does not stand in the queue any more. -/
theorem not_running_of_finished (h : Balanced s) {id : ActionId}
    (hid : id ∈ Journal.finished s.journal) : s.isRunning id = false := by
  rw [Bool.eq_false_iff]
  intro hrun
  obtain ⟨e, he, heid⟩ : ∃ e ∈ s.entries, e.id = id ∧ e.running = true := by
    simpa [isRunning] using hrun
  have apart := List.disjoint_of_nodup_append h.nodup_entries
  exact apart hid (List.mem_map.2 ⟨e, he, heid.1⟩)

/-- What has been started is running until it is released. -/
theorem running_of_started (h : Balanced s) {id : ActionId}
    (hid : id ∈ Journal.started s.journal) (hopen : id ∉ Journal.finished s.journal) :
    s.isRunning id = true := by
  rcases List.mem_append.1 (h.running.mem_iff.1 hid) with hfin | hrun
  · exact absurd hfin hopen
  · exact mem_runningIds.1 hrun

end Balanced

end Schedule

end BackupRetention
