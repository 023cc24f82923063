import BackupRetention.Proofs.Schedule.Accounts

/-!
# Batches

A wait hands over a whole batch of completions, and the run that has waited is the only one
to know of them. What it has not handled yet stands in the batch at hand or with a run that
waits further out, unless a failure has ended the run.

## Main definitions

* `Execution.owed`: what runs further out have fetched and not handled.
* `Execution.pending`: what any run has fetched and not handled.
* `Execution.dropped`: what a failing run leaves to nobody.
-/

namespace BackupRetention

namespace Execution

open Schedule

variable {σ : Type} {loop : EventLoop σ}

def rest : Caller σ → List ActionId
  | .batch ids => ids
  | .hook _ => []

/-- What runs further out have fetched and not handled yet. -/
def owed (x : Execution σ) : List ActionId := x.callers.flatMap rest

/-- What the next step leaves to nobody: the rest of a batch whose run ends with a failure. -/
def dropped (x : Execution σ) : List ActionId :=
  match x.phase, x.callers with
  | .completed (.error _), .batch ids :: _ => ids
  | .ended (.error _), .batch ids :: _ => ids
  | _, _ => []

/-- What has been fetched and not handled yet. -/
def pending (x : Execution σ) : List ActionId :=
  match x.phase with
  | .handle ids => ids ++ x.owed
  | .complete id => id :: x.owed
  | _ => x.owed

/-- What a run knows of has been brought by a wait, and nobody is waiting for an outcome while
nothing is under way. -/
structure Fetched (x : Execution σ) : Prop where
  owed : ∀ id ∈ x.owed, id ∈ Journal.delivered x.schedule.journal
  batch : ∀ ids, x.phase = .handle ids → ∀ id ∈ ids, id ∈ Journal.delivered x.schedule.journal
  idle : x.phase = .idle → x.callers = []

theorem Fetched.resume {x : Execution σ} (h : Fetched x) (o : Except Fault Unit) :
    Fetched (x.resume o) := by
  obtain ⟨phase, callers, s, calls⟩ := x
  obtain ⟨owed, -, -⟩ := h
  cases callers with
  | nil => exact ⟨owed, by simp [Execution.resume], fun _ => rfl⟩
  | cons c k =>
    have inner : ∀ id ∈ k.flatMap rest, id ∈ Journal.delivered s.journal := by
      intro id hid
      exact owed id (by simp [Execution.owed, hid])
    cases c with
    | hook next => exact ⟨inner, by simp [Execution.resume], by simp [Execution.resume]⟩
    | batch ids =>
      have here : ∀ id ∈ ids, id ∈ Journal.delivered s.journal := by
        intro id hid
        exact owed id (by simp [Execution.owed, rest, hid])
      cases o with
      | error f => exact ⟨inner, by simp [Execution.resume], by simp [Execution.resume]⟩
      | ok => exact ⟨inner, by simpa [Execution.resume] using here, by simp [Execution.resume]⟩

/-- A step that leaves the callers alone and brings no batch. -/
theorem Fetched.of_same {x y : Execution σ} (h : Fetched x)
    (moves : Moves loop x.schedule y.schedule) (callers : y.callers = x.callers)
    (batch : ∀ ids, y.phase ≠ .handle ids) (busy : y.phase ≠ .idle) : Fetched y where
  owed := by
    intro id hid
    rw [Execution.owed, callers] at hid
    exact Journal.delivered_of_suffix moves.journal_suffix (h.owed id hid)
  batch := fun ids hids => absurd hids (batch ids)
  idle := fun hidle => absurd hidle busy

/-- A hook waits for the outcome. -/
theorem Fetched.of_hook {x y : Execution σ} (h : Fetched x) (schedule : y.schedule = x.schedule)
    {next : Except Fault Unit → Hook σ} (callers : y.callers = .hook next :: x.callers)
    (batch : ∀ ids, y.phase ≠ .handle ids) (busy : y.phase ≠ .idle) : Fetched y where
  owed := by
    intro id hid
    rw [schedule]
    exact h.owed id (by simpa [Execution.owed, callers, rest] using hid)
  batch := fun ids hids => absurd hids (batch ids)
  idle := fun hidle => absurd hidle busy

theorem Fetched.wait {x : Execution σ} (h : Fetched x) (hx : x.phase = .wait) :
    Fetched (x.step loop) := by
  obtain ⟨phase, k, s, cs⟩ := x
  obtain rfl : phase = .wait := hx
  rcases hw : loop.wait s.world with ⟨f | ids, world⟩
  · have hs : s.await loop = (.error f, note .stalled { s with world := world }) := by
      simp [await, hw]
    simp only [Execution.step, hs, afterWait]
    exact ⟨h.owed, by simp, by simp⟩
  · have hs : s.await loop = (.ok ids, note (.delivered ids) { s with world := world }) := by
      simp [await, hw]
    simp only [Execution.step, hs, afterWait]
    refine ⟨?_, ?_, by simp⟩
    · intro id hid
      exact List.mem_append_right _ (h.owed id hid)
    · intro ids' hids id hid
      obtain rfl : ids = ids' := by simpa using hids
      exact List.mem_append_left _ hid

theorem Fetched.advance (loop : EventLoop σ) {x : Execution σ} (h : Fetched x)
    (hook : Hook σ) : Fetched (x.advance hook) := by
  have moves := advance_moves loop x hook
  cases hook with
  | finish o =>
    cases o <;>
      exact h.of_same moves rfl (by simp [Execution.advance]) (by simp [Execution.advance])
  | look next | put world next | add action next =>
    exact h.of_same moves rfl (by simp [Execution.advance]) (by simp [Execution.advance])
  | complete id next | run next =>
    exact h.of_hook rfl rfl (by simp [Execution.advance]) (by simp [Execution.advance])

theorem Fetched.step {x : Execution σ} (h : Fetched x) : Fetched (x.step loop) := by
  have moves := step_moves loop x
  obtain ⟨phase, k, s, cs⟩ := x
  cases phase with
  | idle =>
    obtain rfl := h.idle rfl
    rcases cs with _ | ⟨_ | _ | _, cs⟩ <;>
      exact ⟨by simp [Execution.step, begin, Execution.owed],
        by simp [Execution.step, begin], by simp [Execution.step, begin]⟩
  | run =>
    refine h.of_same moves rfl ?_ ?_ <;>
      rcases afterStart_cases s.startEligible.2 s.startEligible.1 with ⟨o, ho⟩ | ho <;>
      simp [Execution.step, ho]
  | wait => exact h.wait rfl
  | handle ids =>
    cases ids with
    | nil => exact h.of_same moves rfl (by simp [Execution.step]) (by simp [Execution.step])
    | cons id ids =>
      refine ⟨?_, by simp [Execution.step], by simp [Execution.step]⟩
      intro a ha
      rcases List.mem_append.1 ha with ha | ha
      · exact h.batch _ rfl a (List.mem_cons_of_mem _ ha)
      · exact h.owed a ha
  | complete id =>
    rcases hr : s.release? id with _ | ⟨e, t⟩ <;> simp only [Execution.step, hr] at moves ⊢ <;>
      exact h.of_same moves rfl (by simp) (by simp)
  | follow hook => exact h.advance loop hook
  | completed o => exact h.resume o
  | ended o => exact h.resume o

theorem Fetched.after {x : Execution σ} (h : Fetched x) (n : Nat) : Fetched (after loop n x) := by
  induction n with
  | zero => exact h
  | succ n ih =>
    rw [after_succ]
    exact ih.step

theorem Fetched.start (s : Schedule σ) (calls : List (Call σ)) : Fetched (start s calls) :=
  ⟨by simp [Execution.start, Execution.owed], by simp [Execution.start], fun _ => rfl⟩

/-- What is left to nobody has been brought by a wait. -/
theorem Fetched.dropped {x : Execution σ} (h : Fetched x) {id : ActionId}
    (hid : id ∈ x.dropped) : id ∈ Journal.delivered x.schedule.journal := by
  apply h.owed id
  obtain ⟨phase, k, s, cs⟩ := x
  unfold Execution.dropped at hid
  split at hid
  · simp_all [Execution.owed, rest]
  · simp_all [Execution.owed, rest]
  · simp at hid

/-- Whoever loses the rest of a batch returns at once. -/
theorem ended_of_dropped (loop : EventLoop σ) {x : Execution σ} {id : ActionId}
    (hid : id ∈ x.dropped) :
    (∃ f, (x.step loop).phase = .ended (.error f)) ∧ (x.step loop).schedule = x.schedule := by
  obtain ⟨phase, k, s, cs⟩ := x
  unfold Execution.dropped at hid
  split at hid
  · simp_all [step, resume]
  · simp_all [step, resume]
  · simp at hid

theorem pending_of_owed {x : Execution σ} {id : ActionId} (h : id ∈ x.owed) : id ∈ x.pending := by
  unfold pending
  split
  · exact List.mem_append_right _ h
  · exact List.mem_cons_of_mem _ h
  · exact h

theorem pending_resume {x : Execution σ} (o : Except Fault Unit) {id : ActionId}
    (hid : id ∈ x.owed) : id ∈ (x.resume o).pending ∨ ∃ f ids k,
      o = .error f ∧ x.callers = .batch ids :: k ∧ id ∈ ids := by
  obtain ⟨phase, k, s, cs⟩ := x
  cases k with
  | nil => simp [Execution.owed] at hid
  | cons c k =>
    cases c with
    | hook next => exact .inl hid
    | batch ids =>
      cases o with
      | ok => exact .inl hid
      | error f =>
        rcases List.mem_append.1 hid with hid | hid
        · exact .inr ⟨f, ids, k, rfl, rfl, hid⟩
        · exact .inl hid

theorem pending_advance {x : Execution σ} (hook : Hook σ) {id : ActionId} (hid : id ∈ x.owed) :
    id ∈ (x.advance hook).pending := by
  cases hook with
  | finish o => cases o <;> exact hid
  | look next | put world next | add action next => exact hid
  | complete a next => exact List.mem_cons_of_mem _ hid
  | run next => exact hid

/-- What has been fetched and not handled stays so, unless it is handled now or left to
nobody. -/
theorem pending_step {x : Execution σ} (h : Fetched x) (balanced : Balanced (x.step loop).schedule)
    {id : ActionId} (hid : id ∈ x.pending) :
    id ∈ (x.step loop).pending ∨ id ∈ x.dropped ∨ (x.step loop).schedule.isRunning id = false := by
  obtain ⟨phase, k, s, cs⟩ := x
  cases phase with
  | idle =>
    obtain rfl : k = [] := h.idle rfl
    simp [pending, Execution.owed] at hid
  | run => exact .inl (pending_of_owed hid)
  | wait => exact .inl (pending_of_owed hid)
  | handle ids =>
    left
    cases ids with
    | nil => exact hid
    | cons a ids => simpa [pending, step, Execution.owed, rest] using hid
  | complete a =>
    rcases hr : s.release? a with _ | ⟨e, t⟩ <;> simp only [step, hr] at balanced ⊢ <;>
      rcases List.mem_cons.1 hid with rfl | hid
    · exact .inr (.inr (release?_eq_none_iff.1 hr))
    · exact .inl (pending_of_owed hid)
    · exact .inr (.inr (balanced.not_running_of_finished (by simp [note, Event.releases])))
    · exact .inl (pending_of_owed hid)
  | follow hook => exact .inl (pending_advance hook hid)
  | completed o | ended o =>
    rcases pending_resume o hid with hid | ⟨f, ids, k, rfl, rfl, lost⟩
    · exact .inl hid
    · exact .inr (.inl lost)

/-- What a wait brings is at hand. -/
theorem delivered_step {x : Execution σ} {id : ActionId}
    (hid : id ∈ Journal.delivered (x.step loop).schedule.journal) :
    id ∈ Journal.delivered x.schedule.journal ∨ id ∈ (x.step loop).pending := by
  obtain ⟨phase, k, s, cs⟩ := x
  cases phase with
  | idle => rcases cs with _ | ⟨_ | _ | _, cs⟩ <;> exact .inl hid
  | run => exact .inl (by simpa [step] using hid)
  | wait =>
    simp only [step, await] at hid ⊢
    rcases hw : loop.wait s.world with ⟨f | ids, world⟩ <;> simp only [hw] at hid ⊢
    · exact .inl hid
    · rcases List.mem_append.1 hid with hid | hid
      · exact .inr (List.mem_append_left _ hid)
      · exact .inl hid
  | handle ids => cases ids <;> exact .inl hid
  | complete a =>
    rcases hr : s.release? a with _ | ⟨e, t⟩ <;> simp only [step, hr] at hid
    · exact .inl hid
    · obtain ⟨l₁, l₂, -, -, -, rfl⟩ := release?_eq_some hr
      exact .inl hid
  | follow hook =>
    rcases hook with (f | _) | _ | _ | _ | _ | _
    · exact .inl hid
    · left
      simpa [step, advance] using hid
    all_goals exact .inl hid
  | completed o | ended o => exact .inl (by simpa [step, resume_schedule] using hid)

end Execution

end BackupRetention
