import BackupRetention.Proofs.Schedule.Execution

/-!
# Answers and executions

Small steps come to what the functions of a schedule answer, and to nothing else. One way is
an induction on the fuel, for whoever may wait for the answer. The other way goes back along
the execution: what is left to do there is made of the same functions, and undoing a step
takes one unit of fuel.

## Main statements

* `Execution.callAll_eq_some_iff`: the calls of an owner are answered exactly if the
  execution comes to its end, and they leave the schedule that it ends with.
-/

namespace BackupRetention

namespace Execution

open Schedule

variable {σ : Type} {loop : EventLoop σ} {x y : Execution σ}

/-! ## Answers are reached -/

/-- Where a run goes on after a batch. -/
def afterBatch (outcome : Except Fault Unit) : Phase σ :=
  match outcome with
  | .ok () => .run
  | .error f => .ended (.error f)

/-- Whatever the four functions of a schedule answer, the small steps come to, whoever waits
for it. -/
private theorem leads_of_answer (loop : EventLoop σ) (n : Nat) :
    (∀ s o t, Schedule.run loop n s = some (o, t) → ∀ k cs,
      Leads loop ⟨.run, k, s, cs⟩ ⟨.ended o, k, t, cs⟩) ∧
    (∀ ids s o t, handleAll loop n ids s = some (o, t) → ∀ k cs,
      Leads loop ⟨.handle ids, k, s, cs⟩ ⟨afterBatch o, k, t, cs⟩) ∧
    (∀ id s o t, Schedule.completed loop n id s = some (o, t) → ∀ k cs,
      Leads loop ⟨.complete id, k, s, cs⟩ ⟨.completed o, k, t, cs⟩) ∧
    (∀ h s o t, Schedule.follow loop n h s = some (o, t) → ∀ k cs,
      Leads loop ⟨.follow h, k, s, cs⟩ ⟨.follow (.finish o), k, t, cs⟩) := by
  induction n with
  | zero => simp [Schedule.run, handleAll, Schedule.completed, Schedule.follow]
  | succ n ih =>
    obtain ⟨ihRun, ihAll, ihOne, ihHook⟩ := ih
    refine ⟨?_, ?_, ?_, ?_⟩
    · intro s o t h k cs
      rw [Schedule.run] at h
      apply Leads.head
      rcases hs : s.startEligible with ⟨f | _, u⟩
      · simp only [hs, Option.some.injEq, Prod.mk.injEq] at h
        obtain ⟨rfl, rfl⟩ := h
        simpa [step, afterStart, hs] using Leads.refl loop _
      · by_cases he : u.isEmpty
        · simp only [hs, he, if_true, Option.some.injEq, Prod.mk.injEq] at h
          obtain ⟨rfl, rfl⟩ := h
          simpa [step, afterStart, hs, he] using Leads.refl loop _
        · simp only [hs, he, Bool.false_eq_true, if_false] at h
          simp only [step, afterStart, hs, he, Bool.false_eq_true, if_false]
          apply Leads.head
          rcases hw : u.await loop with ⟨f | ids, v⟩
          · simp only [hw, Option.some.injEq, Prod.mk.injEq] at h
            obtain ⟨rfl, rfl⟩ := h
            simpa [step, afterWait, hw] using Leads.refl loop _
          · simp only [hw] at h
            simp only [step, afterWait, hw]
            rcases hb : handleAll loop n ids v with _ | ⟨_ | _, w⟩
            · simp [hb] at h
            · simp only [hb, Option.some.injEq, Prod.mk.injEq] at h
              obtain ⟨rfl, rfl⟩ := h
              exact ihAll _ _ _ _ hb k cs
            · simp only [hb] at h
              exact (ihAll _ _ _ _ hb k cs).trans (ihRun _ _ _ h k cs)
    · intro ids s o t h k cs
      apply Leads.head
      cases ids with
      | nil =>
        simp only [handleAll, Option.some.injEq, Prod.mk.injEq] at h
        obtain ⟨rfl, rfl⟩ := h
        exact Leads.refl loop _
      | cons id ids =>
        rw [handleAll] at h
        simp only [step]
        rcases hc : Schedule.completed loop n id s with _ | ⟨_ | _, u⟩
        · simp [hc] at h
        · simp only [hc, Option.some.injEq, Prod.mk.injEq] at h
          obtain ⟨rfl, rfl⟩ := h
          exact (ihOne _ _ _ _ hc _ cs).trans (Leads.head (Leads.refl loop _))
        · simp only [hc] at h
          exact (ihOne _ _ _ _ hc _ cs).trans (Leads.head (ihAll _ _ _ _ h k cs))
    · intro id s o t h k cs
      rw [Schedule.completed] at h
      apply Leads.head
      rcases hr : s.release? id with _ | ⟨e, u⟩
      · simp only [hr, Option.some.injEq, Prod.mk.injEq] at h
        obtain ⟨rfl, rfl⟩ := h
        simpa [step, hr] using Leads.refl loop _
      · simp only [hr] at h
        simp only [step, hr]
        rcases hf : Schedule.follow loop n (e.action.hook id)
          (u.note (.finished id e.action.name)) with _ | ⟨_ | _, v⟩
        · simp [hf] at h
        · simp only [hf, Option.some.injEq, Prod.mk.injEq] at h
          obtain ⟨rfl, rfl⟩ := h
          exact (ihHook _ _ _ _ hf k cs).trans (Leads.head (Leads.refl loop _))
        · simp only [hf, Option.some.injEq] at h
          refine (ihHook _ _ _ _ hf k cs).trans (Leads.head ?_)
          simpa [step, advance, h] using Leads.refl loop _
    · intro hook s o t h k cs
      cases hook with
      | finish outcome =>
        simp only [Schedule.follow, Option.some.injEq, Prod.mk.injEq] at h
        obtain ⟨rfl, rfl⟩ := h
        exact Leads.refl loop _
      | look next => exact Leads.head (ihHook _ _ _ _ h k cs)
      | put world next => exact Leads.head (ihHook _ _ _ _ h k cs)
      | add action next => exact Leads.head (ihHook _ _ _ _ h k cs)
      | complete id next =>
        rw [Schedule.follow] at h
        rcases hc : Schedule.completed loop n id s with _ | ⟨p, u⟩
        · simp [hc] at h
        · simp only [hc] at h
          exact Leads.head ((ihOne _ _ _ _ hc _ cs).trans (Leads.head (ihHook _ _ _ _ h k cs)))
      | run next =>
        rw [Schedule.follow] at h
        rcases hc : Schedule.run loop n s with _ | ⟨p, u⟩
        · simp [hc] at h
        · simp only [hc] at h
          exact Leads.head ((ihRun _ _ _ hc _ cs).trans (Leads.head (ihHook _ _ _ _ h k cs)))

/-- A run with an answer returns it. -/
theorem leads_of_run {n : Nat} {s t : Schedule σ} {o : Except Fault Unit}
    (h : Schedule.run loop n s = some (o, t)) :
    Leads loop ⟨.run, [], s, []⟩ ⟨.ended o, [], t, []⟩ :=
  (leads_of_answer loop n).1 s o t h [] []

/-- A batch that is handled well brings its run back to starting what it can. -/
theorem leads_of_handleAll {n : Nat} {ids : List ActionId} {s t : Schedule σ}
    (h : handleAll loop n ids s = some (.ok (), t)) :
    Leads loop ⟨.handle ids, [], s, []⟩ ⟨.run, [], t, []⟩ :=
  (leads_of_answer loop n).2.1 ids s (.ok ()) t h [] []

/-- The handling of a completion with an answer comes to it. -/
theorem leads_of_completed {n : Nat} {id : ActionId} {s t : Schedule σ} {o : Except Fault Unit}
    (h : Schedule.completed loop n id s = some (o, t)) :
    Leads loop ⟨.complete id, [], s, []⟩ ⟨.completed o, [], t, []⟩ :=
  (leads_of_answer loop n).2.2.1 id s o t h [] []

/-- The calls of an owner that are answered bring the execution to its end. -/
private theorem leads_of_callAll {n : Nat} {s t : Schedule σ} {calls : List (Call σ)}
    (h : callAll loop n s calls = some t) : Leads loop (start s calls) (start t []) := by
  induction calls generalizing s with
  | nil =>
    simp only [callAll, Option.some.injEq] at h
    subst h
    exact Leads.refl loop _
  | cons c cs ih =>
    rw [callAll] at h
    rcases hc : s.call loop n c with _ | ⟨o, u⟩
    · simp [hc] at h
    · simp only [hc] at h
      apply Leads.head
      cases c with
      | add action =>
        simp only [call, Option.some.injEq, Prod.mk.injEq] at hc
        obtain ⟨-, rfl⟩ := hc
        exact ih h
      | run =>
        exact ((leads_of_answer loop n).1 _ _ _ hc [] cs).trans (Leads.head (ih h))
      | completed id =>
        exact ((leads_of_answer loop n).2.2.1 _ _ _ _ hc [] cs).trans (Leads.head (ih h))

/-! ## What is reached is an answer -/

/-- A hook with what follows it in the handling of a completion. -/
def finishHook? (loop : EventLoop σ) (n : Nat) (hook : Hook σ) (s : Schedule σ) :
    Option (Except Fault Unit × Schedule σ) :=
  match Schedule.follow loop n hook s with
  | none => none
  | some (.error f, s) => some (.error f, s)
  | some (.ok (), s) => some s.startEligible

/-- A batch with what follows it in a run. -/
def finishBatch? (loop : EventLoop σ) (n : Nat) (ids : List ActionId) (s : Schedule σ) :
    Option (Except Fault Unit × Schedule σ) :=
  match handleAll loop n ids s with
  | none => none
  | some (.error f, s) => some (.error f, s)
  | some (.ok (), s) => Schedule.run loop n s

/-- The outcome of what is under way. -/
def outcome? (loop : EventLoop σ) (n : Nat) (s : Schedule σ) :
    Phase σ → Option (Except Fault Unit × Schedule σ)
  | .idle => none
  | .run => Schedule.run loop n s
  | .wait =>
    match s.await loop with
    | (.error f, s) => some (.error (.within "run" f), s)
    | (.ok ids, s) => finishBatch? loop n ids s
  | .handle ids => finishBatch? loop n ids s
  | .complete id => Schedule.completed loop n id s
  | .follow hook => finishHook? loop n hook s
  | .completed outcome => some (outcome, s)
  | .ended outcome => some (outcome, s)

/-- The schedule once all who wait have gone on with the outcome. -/
def unwind? (loop : EventLoop σ) (n : Nat) :
    List (Caller σ) → Except Fault Unit × Schedule σ → Option (Schedule σ)
  | [], (_, s) => some s
  | .hook next :: k, (o, s) => (finishHook? loop n (next o) s).bind (unwind? loop n k)
  | .batch _ :: k, (.error f, s) => unwind? loop n k (.error f, s)
  | .batch rest :: k, (.ok (), s) => (finishBatch? loop n rest s).bind (unwind? loop n k)

/-- The schedule once all calls are through. -/
def final? (loop : EventLoop σ) (n : Nat) (x : Execution σ) : Option (Schedule σ) :=
  match x.phase with
  | .idle => callAll loop n x.schedule x.calls
  | phase => ((outcome? loop n x.schedule phase).bind (unwind? loop n x.callers)).bind
      (callAll loop n · x.calls)

/-- A completion is handled by its hook and what follows it. -/
theorem completed_of_release {n : Nat} {id : ActionId} {s u : Schedule σ} {e : Entry σ}
    (h : s.release? id = some (e, u)) :
    Schedule.completed loop (n + 1) id s =
      finishHook? loop n (e.action.hook id) (u.note (.finished id e.action.name)) := by
  simp only [Schedule.completed, h]
  rfl

/-- A run that is not over goes on with waiting. -/
theorem run_of_start {n : Nat} {s u : Schedule σ} (h : s.startEligible = (.ok (), u))
    (hu : u.isEmpty = false) :
    Schedule.run loop (n + 1) s = outcome? loop n u .wait := by
  simp only [Schedule.run, h, hu, Bool.false_eq_true, if_false]
  rfl

/-- A hook that calls goes on with the outcome. -/
theorem finishHook?_complete {n : Nat} {id : ActionId} {next : Except Fault Unit → Hook σ}
    {s u : Schedule σ} {o : Except Fault Unit} (h : Schedule.completed loop n id s = some (o, u)) :
    finishHook? loop (n + 1) (.complete id next) s = finishHook? loop n (next o) u := by
  simp only [finishHook?, Schedule.follow, h]

theorem finishHook?_run {n : Nat} {next : Except Fault Unit → Hook σ} {s u : Schedule σ}
    {o : Except Fault Unit} (h : Schedule.run loop n s = some (o, u)) :
    finishHook? loop (n + 1) (.run next) s = finishHook? loop n (next o) u := by
  simp only [finishHook?, Schedule.follow, h]

private theorem bind_mono {α β : Type} {a a' : Option α} {b b' : α → Option β} {r : β}
    (ha : ∀ x, a = some x → a' = some x) (hb : ∀ x, b x = some r → b' x = some r)
    (h : a.bind b = some r) : a'.bind b' = some r := by
  obtain ⟨x, hx, hr⟩ := Option.bind_eq_some_iff.1 h
  rw [ha x hx]
  exact hb x hr

section MoreFuel

variable {n : Nat} {s t : Schedule σ} {r : Except Fault Unit × Schedule σ}

private theorem finishHook?_succ {hook : Hook σ} (h : finishHook? loop n hook s = some r) :
    finishHook? loop (n + 1) hook s = some r := by
  unfold finishHook? at h ⊢
  cases hf : Schedule.follow loop n hook s with
  | none => simp [hf] at h
  | some q =>
    rw [hf] at h
    rw [follow_mono hf n.le_succ]
    exact h

private theorem finishBatch?_succ {ids : List ActionId}
    (h : finishBatch? loop n ids s = some r) : finishBatch? loop (n + 1) ids s = some r := by
  unfold finishBatch? at h ⊢
  rcases hb : handleAll loop n ids s with _ | ⟨_ | _, u⟩
  · simp [hb] at h
  · rw [hb] at h
    rw [handleAll_mono hb n.le_succ]
    exact h
  · rw [hb] at h
    rw [handleAll_mono hb n.le_succ]
    exact run_mono h n.le_succ

private theorem unwind?_succ {k : List (Caller σ)} (h : unwind? loop n k r = some t) :
    unwind? loop (n + 1) k r = some t := by
  induction k generalizing r with
  | nil => exact h
  | cons c k ih =>
    obtain ⟨o, s⟩ := r
    cases c with
    | hook next => exact bind_mono (fun _ => finishHook?_succ) (fun _ => ih) h
    | batch rest =>
      cases o with
      | error f => exact ih h
      | ok => exact bind_mono (fun _ => finishBatch?_succ) (fun _ => ih) h

private theorem finishBatch?_cons {id : ActionId} {ids : List ActionId} {u : Schedule σ}
    (hc : Schedule.completed loop n id s = some (.ok (), u))
    (h : finishBatch? loop n ids u = some r) :
    finishBatch? loop (n + 1) (id :: ids) s = some r := by
  have hb : handleAll loop (n + 1) (id :: ids) s = handleAll loop n ids u := by
    simp only [handleAll, hc]
  unfold finishBatch? at h ⊢
  rw [hb]
  rcases hi : handleAll loop n ids u with _ | ⟨_ | _, v⟩
  · simp [hi] at h
  · simpa only [hi] using h
  · rw [hi] at h
    exact run_mono h n.le_succ

/-- Undoing the return of an outcome costs one unit of fuel. -/
private theorem unwind?_of_resume {o : Except Fault Unit} {t : Schedule σ}
    (h : final? loop n (x.resume o) = some t) :
    (unwind? loop (n + 1) x.callers (o, x.schedule)).bind (callAll loop (n + 1) · x.calls)
      = some t := by
  obtain ⟨phase, k, s, cs⟩ := x
  cases k with
  | nil => exact callAll_mono (n := n + 1) h n.le_succ
  | cons c k =>
    cases c with
    | hook next =>
      exact bind_mono (fun _ => bind_mono (fun _ => finishHook?_succ) fun _ => unwind?_succ)
        (fun _ g => callAll_mono g n.le_succ) h
    | batch rest =>
      cases o with
      | error f =>
        exact bind_mono (fun _ => unwind?_succ) (fun _ g => callAll_mono g n.le_succ) h
      | ok =>
        exact bind_mono (fun _ => bind_mono (fun _ => finishBatch?_succ) fun _ => unwind?_succ)
          (fun _ g => callAll_mono g n.le_succ) h

/-- Undoing a step costs one unit of fuel. -/
private theorem final?_of_step {t : Schedule σ} (h : final? loop n (x.step loop) = some t) :
    final? loop (n + 1) x = some t := by
  have later {p q : Option (Except Fault Unit × Schedule σ)} {k : List (Caller σ)}
      {cs : List (Call σ)} (hpq : ∀ r, p = some r → q = some r)
      (hp : (p.bind (unwind? loop n k)).bind (callAll loop n · cs) = some t) :
      (q.bind (unwind? loop (n + 1) k)).bind (callAll loop (n + 1) · cs) = some t :=
    bind_mono (fun _ => bind_mono hpq fun _ => unwind?_succ)
      (fun _ g => callAll_mono g n.le_succ) hp
  obtain ⟨phase, k, s, cs⟩ := x
  cases phase with
  | idle =>
    cases cs with
    | nil => exact h
    | cons c cs =>
      cases c with
      | add action => exact callAll_mono (n := n + 1) h n.le_succ
      | run =>
        obtain ⟨v, hv, (ht : callAll loop n v cs = some t)⟩ := Option.bind_eq_some_iff.1 h
        obtain ⟨⟨o, u⟩, (hr : Schedule.run loop n s = some (o, u)), hu⟩ :=
          Option.bind_eq_some_iff.1 hv
        cases hu
        simp only [final?, callAll, call, run_mono hr n.le_succ]
        exact callAll_mono ht n.le_succ
      | completed id =>
        obtain ⟨v, hv, (ht : callAll loop n v cs = some t)⟩ := Option.bind_eq_some_iff.1 h
        obtain ⟨⟨o, u⟩, (hc : Schedule.completed loop n id s = some (o, u)), hu⟩ :=
          Option.bind_eq_some_iff.1 hv
        cases hu
        simp only [final?, callAll, call, completed_mono hc n.le_succ]
        exact callAll_mono ht n.le_succ
  | run =>
    rcases hs : s.startEligible with ⟨_ | _, u⟩
    · simp only [step, afterStart, hs, final?] at h
      exact later (by simp [outcome?, Schedule.run, hs]) h
    · by_cases he : u.isEmpty
      · simp only [step, afterStart, hs, final?, he, if_true] at h
        exact later (by simp [outcome?, Schedule.run, hs, he]) h
      · rw [Bool.not_eq_true] at he
        simp only [step, afterStart, hs, final?, he, Bool.false_eq_true, if_false] at h
        exact later (fun r hr => (run_of_start hs he).trans hr) h
  | wait =>
    rcases hw : s.await loop with ⟨_ | ids, u⟩
    · simp only [step, afterWait, hw, final?] at h
      exact later (by simp [outcome?, hw]) h
    · simp only [step, afterWait, hw, final?] at h
      refine later ?_ h
      intro r hr
      simpa only [outcome?, hw] using finishBatch?_succ hr
  | handle ids =>
    cases ids with
    | nil => exact later (fun r hr => run_mono hr n.le_succ) h
    | cons id ids =>
      obtain ⟨v, hv, ht⟩ := Option.bind_eq_some_iff.1 h
      obtain ⟨⟨o, u⟩, (hc : Schedule.completed loop n id s = some (o, u)), hu⟩ :=
        Option.bind_eq_some_iff.1 hv
      cases o with
      | error f =>
        have hb : finishBatch? loop (n + 1) (id :: ids) s = some (.error f, u) := by
          simp only [finishBatch?, handleAll, hc]
        simp only [final?, outcome?, hb, Option.bind_some]
        exact bind_mono (fun _ => unwind?_succ) (fun _ g => callAll_mono g n.le_succ)
          (Option.bind_eq_some_iff.2 ⟨v, hu, ht⟩)
      | ok =>
        exact later (fun r hr => finishBatch?_cons hc hr)
          (Option.bind_eq_some_iff.2 ⟨v, hu, ht⟩)
  | complete id =>
    rcases hr : s.release? id with _ | ⟨e, u⟩
    · simp only [step, hr, final?] at h
      exact later (by simp [outcome?, Schedule.completed, hr]) h
    · simp only [step, hr, final?] at h
      exact later (fun r g => (completed_of_release hr).trans g) h
  | follow hook =>
    cases hook with
    | finish o => cases o <;> exact later (fun r g => g) h
    | look next => exact later (fun r g => g) h
    | put world next => exact later (fun r g => g) h
    | add action next => exact later (fun r g => g) h
    | complete id next =>
      obtain ⟨v, hv, ht⟩ := Option.bind_eq_some_iff.1 h
      obtain ⟨⟨o, u⟩, hc, hu⟩ := Option.bind_eq_some_iff.1 hv
      exact later (fun r g => (finishHook?_complete hc).trans g)
        (Option.bind_eq_some_iff.2 ⟨v, hu, ht⟩)
    | run next =>
      obtain ⟨v, hv, ht⟩ := Option.bind_eq_some_iff.1 h
      obtain ⟨⟨o, u⟩, hc, hu⟩ := Option.bind_eq_some_iff.1 hv
      exact later (fun r g => (finishHook?_run hc).trans g)
        (Option.bind_eq_some_iff.2 ⟨v, hu, ht⟩)
  | completed o => exact unwind?_of_resume h
  | ended o => exact unwind?_of_resume h

end MoreFuel

/-- An execution that comes to its end in `n` steps is answered with fuel `n`. -/
theorem callAll_of_after {n : Nat} {s t : Schedule σ} {calls : List (Call σ)}
    (h : after loop n (start s calls) = start t []) : callAll loop n s calls = some t := by
  have back : ∀ n x, after loop n x = start t [] → final? loop n x = some t := by
    intro n
    induction n with
    | zero =>
      rintro x rfl
      rfl
    | succ n ih =>
      intro x hx
      exact final?_of_step (ih (x.step loop) hx)
  exact back n _ h

/-- The calls of an owner are answered exactly if the execution comes to its end, and they
leave the schedule that it ends with. -/
theorem callAll_eq_some_iff {s t : Schedule σ} {calls : List (Call σ)} :
    (∃ n, callAll loop n s calls = some t) ↔ Leads loop (start s calls) (start t []) := by
  constructor
  · rintro ⟨n, h⟩
    exact leads_of_callAll h
  · rintro ⟨n, h⟩
    exact ⟨n, callAll_of_after h⟩

/-- What has come to its end stays as it is. -/
theorem after_start_nil (n : Nat) (t : Schedule σ) : after loop n (start t []) = start t [] :=
  Function.iterate_fixed rfl n

/-- An execution returns from its last run only once. -/
theorem ended_unique {o p : Except Fault Unit} {s t : Schedule σ}
    (hs : Leads loop x ⟨.ended o, [], s, []⟩) (ht : Leads loop x ⟨.ended p, [], t, []⟩) :
    o = p ∧ s = t := by
  have last {m n : Nat} {o p : Except Fault Unit} {s t : Schedule σ}
      (hm : after loop m x = ⟨.ended o, [], s, []⟩) (hn : after loop n x = ⟨.ended p, [], t, []⟩) :
      n ≤ m := by
    by_contra less
    obtain ⟨k, rfl⟩ := Nat.exists_eq_add_of_lt (Nat.lt_of_not_le less)
    have idle : after loop (m + k + 1) x = start s [] := by
      rw [Nat.add_right_comm, Nat.add_comm, after_add, after_succ, hm]
      exact after_start_nil k s
    rw [idle] at hn
    cases hn
  obtain ⟨m, hm⟩ := hs
  obtain ⟨n, hn⟩ := ht
  obtain rfl : m = n := Nat.le_antisymm (last hn hm) (last hm hn)
  rw [hm] at hn
  cases hn
  exact ⟨rfl, rfl⟩

/-- A run that returns after `n` steps is answered with fuel `n + 2`. -/
theorem run_of_after {n : Nat} {s t : Schedule σ} {o : Except Fault Unit}
    (h : after loop n ⟨.run, [], s, []⟩ = ⟨.ended o, [], t, []⟩) :
    Schedule.run loop (n + 2) s = some (o, t) := by
  have whole : after loop (n + 2) (start s [.run]) = start t [] := by
    have first : after loop (n + 1) (start s [.run]) = ⟨.ended o, [], t, []⟩ := h
    rw [after_succ, first]
    rfl
  have answered := callAll_of_after whole
  rw [callAll, call] at answered
  rcases hr : Schedule.run loop (n + 2) s with _ | ⟨p, u⟩
  · simp [hr] at answered
  · obtain ⟨rfl, rfl⟩ := ended_unique ⟨n, h⟩ (leads_of_run hr)
    rfl

end Execution

end BackupRetention
