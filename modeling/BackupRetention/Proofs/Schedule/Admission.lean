import BackupRetention.Proofs.Schedule.Exclusion

/-!
# Admission

One pass along the queue is enough: the labels held only grow on the way, so what was passed
over cannot be started afterwards either. Where nothing runs no label is held, and the first
action in the queue could be started; so after a pass something runs or the queue is empty.
-/

namespace BackupRetention

namespace Schedule

variable {σ : Type} {s t : Schedule σ}

/-- Admission keeps the queue in order. -/
theorem actions_of_startEligible (s : Schedule σ) :
    s.startEligible.2.entries.map Entry.action = s.entries.map Entry.action := by
  have starts := startEligible_starts s
  generalize s.startEligible.2 = t at starts ⊢
  induction starts with
  | refl => rfl
  | tail _ start ih => exact start.actions.trans ih

/-- Nothing can be started. -/
def Settled (s : Schedule σ) : Prop := ∀ e ∈ s.entries, ¬ Eligible s.held e

theorem settled_of_startEligible (h : s.startEligible = (.ok (), t)) : t.Settled := by
  have queue : s.entries = [] ++ s.entries := rfl
  have done := (startFrom_starts queue (by simp)).2
  rw [← startEligible, h] at done
  exact done rfl

theorem startFrom_of_settled {earlier later : List (Entry σ)}
    (h : ∀ e ∈ later, ¬ Eligible s.held e) :
    startFrom earlier s later = (.ok (), { s with entries := earlier ++ later }) := by
  induction later generalizing earlier with
  | nil => rw [startFrom, List.append_nil]
  | cons e later ih =>
    rw [startFrom, if_neg (h e List.mem_cons_self), ih fun x hx => h x (List.mem_cons_of_mem _ hx),
      List.append_assoc, List.singleton_append]

/-- Where nothing can be started, a pass does nothing. -/
theorem Settled.startEligible (h : s.Settled) : s.startEligible = (.ok (), s) :=
  startFrom_of_settled h

/-- If all starts succeed, so does admission. -/
theorem startFrom_ok {earlier later : List (Entry σ)}
    (h : ∀ e ∈ later, ∀ w, (e.action.start e.id w).1 = .ok ()) :
    (startFrom earlier s later).1 = .ok () := by
  induction later generalizing s earlier with
  | nil => rfl
  | cons e later ih =>
    have rest : ∀ x ∈ later, ∀ w, (x.action.start x.id w).1 = .ok () :=
      fun x hx => h x (List.mem_cons_of_mem _ hx)
    by_cases eligible : Eligible s.held e
    · rw [startFrom_of_eligible eligible, h e List.mem_cons_self]
      exact ih rest
    · rw [startFrom, if_neg eligible]
      exact ih rest

/-- Where something can be started, something is the first. -/
theorem exists_start (h : ¬ s.Settled) : ∃ t, Start s t := by
  have found : (s.entries.find? fun e => decide (Eligible s.held e)).isSome := by
    simpa [Settled] using h
  obtain ⟨e, he⟩ := Option.isSome_iff_exists.1 found
  obtain ⟨eligible, earlier, later, queue, first⟩ := List.find?_eq_some_iff_append.1 he
  exact ⟨_, .begin earlier e later queue (by simpa using eligible) (by simpa using first)⟩

/-- Where nothing can be started, something runs or nothing is queued. -/
theorem Settled.exists_running (h : s.Settled) (exclusive : s.view.Exclusive)
    (queued : s.entries ≠ []) : ∃ e ∈ s.entries, e.running = true := by
  by_contra none
  push Not at none
  obtain ⟨e, he⟩ := List.exists_mem_of_ne_nil _ queued
  have unheld : ∀ x, x ∉ s.held := by
    intro x hx
    obtain ⟨a, ha, hrun, -⟩ := ((exclusive_view_iff s).1 exclusive).1 x |>.1 hx
    exact none a ha hrun
  have idle : e.running = false := by simpa using none e he
  exact h e he ⟨idle, fun x _ => unheld x⟩

end Schedule

end BackupRetention
