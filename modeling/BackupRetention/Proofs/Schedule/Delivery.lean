import BackupRetention.Proofs.Schedule.Batches
import BackupRetention.Schedule.Rehearsal

/-!
# Delivered completions

If handling one completion of a batch fails, the run ends and the rest of the batch is known
to nobody; if a hook runs the schedule, the inner run waits without knowing of the batches
further out. So an action may be left running although its completion has been delivered.
This happens in these two ways and in no other.

## Main definitions

* `Journal.Honest`: waits only bring completions of actions that were started.
* `Execution.CaughtUp`: no action is running whose completion a wait has brought.

## Main results

* `Execution.caughtUp_iff`: when the schedule is caught up whenever it waits or a run returns.
-/

namespace BackupRetention

namespace Journal

/-- A wait only brings completions of actions that were started before. -/
def Honest (j : List Moment) : Prop :=
  Throughout (fun m earlier => ∀ id ∈ m.event.deliveries, id ∈ started earlier) j

instance (j : List Moment) : Decidable (Honest j) :=
  inferInstanceAs (Decidable (Throughout _ j))

theorem Honest.of_suffix {j k : List Moment} (h : Honest k) (hjk : j <:+ k) : Honest j :=
  Throughout.of_suffix h hjk

theorem Honest.started {j : List Moment} (h : Honest j) {id : ActionId}
    (hid : id ∈ delivered j) : id ∈ started j := by
  induction j with
  | nil => exact hid
  | cons m j ih =>
    rw [delivered_cons, List.mem_append] at hid
    rw [started_cons, List.mem_append]
    exact .inr (hid.elim (h.1 id) (ih h.2))

end Journal

namespace Execution

open Schedule

variable {σ : Type} {loop : EventLoop σ}

/-- The schedule is about to wait, or a run returns. -/
def isPause (x : Execution σ) : Bool :=
  match x.phase with
  | .wait => true
  | .ended _ => true
  | _ => false

/-- No action is running whose completion a wait has brought. -/
def CaughtUp (x : Execution σ) : Prop :=
  ∀ id ∈ Journal.delivered x.schedule.journal, x.schedule.isRunning id = false

instance (x : Execution σ) : Decidable x.CaughtUp :=
  inferInstanceAs (Decidable (∀ id ∈ _, _ = false))

section History

variable (loop) (world : σ) (calls : List (Call σ))

theorem balanced_reached (n : Nat) : Balanced (reached loop world calls n).schedule :=
  (Balanced.empty world).moves (reached_moves loop world calls n.zero_le)

theorem fetched_reached (n : Nat) : Fetched (reached loop world calls n) :=
  (Fetched.start (empty world) calls).after n

/-- An action never starts again, so one that runs after its completion was delivered has been
running since then. -/
theorem running_since {m n : Nat} (hmn : m ≤ n) {id : ActionId}
    (honest : Journal.Honest (reached loop world calls n).schedule.journal)
    (hid : id ∈ Journal.delivered (reached loop world calls m).schedule.journal)
    (hrun : (reached loop world calls n).schedule.isRunning id = true) :
    (reached loop world calls m).schedule.isRunning id = true := by
  have suffix := (reached_moves loop world calls hmn).journal_suffix
  have started := (honest.of_suffix suffix).started hid
  apply (balanced_reached loop world calls m).running_of_started started
  intro fin
  have gone := (balanced_reached loop world calls n).not_running_of_finished
    (Journal.finished_of_suffix suffix fin)
  exact absurd hrun (by simp [gone])

/-- Nothing that runs after its completion was delivered is unaccounted for. -/
theorem pending_or_dropped (n : Nat) {id : ActionId}
    (honest : Journal.Honest (reached loop world calls n).schedule.journal)
    (hid : id ∈ Journal.delivered (reached loop world calls n).schedule.journal)
    (hrun : (reached loop world calls n).schedule.isRunning id = true) :
    id ∈ (reached loop world calls n).pending ∨
      ∃ k < n, id ∈ (reached loop world calls k).dropped := by
  induction n with
  | zero => simp [reached, start, empty, Journal.delivered] at hid
  | succ n ih =>
    have fetched := fetched_reached loop world calls n
    have balanced := balanced_reached loop world calls (n + 1)
    have before := (reached_moves loop world calls n.le_succ).journal_suffix
    have since (hold : id ∈ Journal.delivered (reached loop world calls n).schedule.journal) :=
      running_since loop world calls n.le_succ honest hold hrun
    rw [reached_succ] at hid hrun balanced ⊢
    rcases delivered_step hid with hold | hnew
    · rcases ih (honest.of_suffix before) hold (since hold) with hp | ⟨k, hk, hd⟩
      · rcases pending_step fetched balanced hp with hp | hd | hstill
        · exact .inl hp
        · exact .inr ⟨n, n.lt_succ_self, hd⟩
        · simp [hstill] at hrun
      · exact .inr ⟨k, Nat.lt_succ_of_lt hk, hd⟩
    · exact .inl hnew

theorem owed_eq_pending {x : Execution σ} (h : x.isPause = true) : x.pending = x.owed := by
  obtain ⟨phase, k, s, cs⟩ := x
  cases phase <;> first | rfl | simp [isPause] at h

end History

/-- Whenever the schedule waits or a run returns, it is caught up, up to the moments when a
failure has made a run leave the rest of its batch while some of that was running, and up to
the moments when an inner run waits or returns while something runs that a batch further out
still names. -/
theorem caughtUp_iff (loop : EventLoop σ) (world : σ) (calls : List (Call σ)) (n : Nat)
    (honest : Journal.Honest (reached loop world calls n).schedule.journal) :
    (∀ k ≤ n, (reached loop world calls k).isPause = true →
        (reached loop world calls k).CaughtUp) ↔
      (∀ k < n, ∀ id ∈ (reached loop world calls k).dropped,
        (reached loop world calls k).schedule.isRunning id = false) ∧
      (∀ k ≤ n, (reached loop world calls k).isPause = true →
        ∀ id ∈ (reached loop world calls k).owed,
          (reached loop world calls k).schedule.isRunning id = false) := by
  have fetched := fetched_reached loop world calls
  constructor
  · intro caught
    refine ⟨?_, ?_⟩
    · intro k hk id hid
      obtain ⟨⟨f, ended⟩, same⟩ := ended_of_dropped loop hid
      have pause := caught (k + 1) hk (by rw [reached_succ, isPause, ended])
      rw [CaughtUp, reached_succ, same] at pause
      exact pause id ((fetched k).dropped hid)
    · intro k hk pause id hid
      exact caught k hk pause id ((fetched k).owed id hid)
  · rintro ⟨dropped, owed⟩ k hk pause id hid
    rw [Bool.eq_false_iff]
    intro hrun
    have honest := honest.of_suffix (reached_moves loop world calls hk).journal_suffix
    rcases pending_or_dropped loop world calls k honest hid hrun with hp | ⟨m, hm, hd⟩
    · rw [owed_eq_pending pause] at hp
      exact absurd hrun (by simp [owed k hk pause id hp])
    · have since :=
        running_since loop world calls (Nat.le_of_lt hm) honest ((fetched m).dropped hd) hrun
      exact absurd since (by simp [dropped m (Nat.lt_of_lt_of_le hm hk) id hd])

/-- Two runs over two actions that signal at once. The hook of the first action fails. -/
def stumbling : List (Call Stage) :=
  [.add (Script.mk "a" [] .now [] none false true).action,
    .add (Script.mk "b" [] .now [] none false false).action, .run, .run]

/-- The failure comes at the ninth step. -/
theorem stumbling_caughtUp_before :
    (∀ k ≤ 8, (reached Rehearsal.loop (.opening []) stumbling k).isPause = true →
        (reached Rehearsal.loop (.opening []) stumbling k).CaughtUp) ∧
      ¬ ∀ k ≤ 9, (reached Rehearsal.loop (.opening []) stumbling k).isPause = true →
        (reached Rehearsal.loop (.opening []) stumbling k).CaughtUp := by
  refine ⟨(caughtUp_iff _ _ _ 8 (by decide)).2 (by decide), ?_⟩
  intro caught
  have dropped := ((caughtUp_iff _ _ _ 9 (by decide)).1 caught).1
  exact absurd dropped (by decide)

/-- The first run returns and the second one waits while the second action is running, whose
completion the first wait has brought. -/
theorem stumbling_not_caughtUp :
    Journal.Honest (reached Rehearsal.loop (.opening []) stumbling 12).schedule.journal ∧
    ((reached Rehearsal.loop (.opening []) stumbling 9).isPause = true ∧
      ¬ (reached Rehearsal.loop (.opening []) stumbling 9).CaughtUp) ∧
    (reached Rehearsal.loop (.opening []) stumbling 12).isPause = true ∧
      ¬ (reached Rehearsal.loop (.opening []) stumbling 12).CaughtUp := by
  decide

/-- An inner run that has something to wait for does not know of its own batch either. -/
example :
    let calls := [.add (Script.mk "a" [] .now [] none true false).action,
      .add (Script.mk "b" [] .now [] none false false).action, .run]
    (reached Rehearsal.loop (.opening []) calls 9).isPause = true ∧
      ¬ (reached Rehearsal.loop (.opening []) calls 9).CaughtUp := by
  decide

end Execution

end BackupRetention
