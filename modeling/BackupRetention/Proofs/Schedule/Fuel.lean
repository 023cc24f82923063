import BackupRetention.Schedule.Run

/-!
# Fuel

An answer that is given with some fuel is given with more fuel too, so an answer does not
depend on how much there was.
-/

namespace BackupRetention

namespace Schedule

variable {σ : Type}

/-- One more unit of fuel keeps every answer, that of the four functions at once. -/
private theorem answer_succ (loop : EventLoop σ) (n : Nat) :
    (∀ s r, run loop n s = some r → run loop (n + 1) s = some r) ∧
    (∀ ids s r, handleAll loop n ids s = some r → handleAll loop (n + 1) ids s = some r) ∧
    (∀ id s r, completed loop n id s = some r → completed loop (n + 1) id s = some r) ∧
    (∀ h s r, follow loop n h s = some r → follow loop (n + 1) h s = some r) := by
  induction n with
  | zero => simp [run, handleAll, completed, follow]
  | succ n ih =>
    obtain ⟨ihRun, ihAll, ihOne, ihHook⟩ := ih
    refine ⟨?_, ?_, ?_, ?_⟩
    · intro s r h
      rw [run] at h ⊢
      rcases hs : s.startEligible with ⟨f | _, t⟩
      · simpa only [hs] using h
      · simp only [hs] at h ⊢
        by_cases he : t.isEmpty
        · simpa only [he, if_true] using h
        · rcases ht : t.await loop with ⟨f | ids, u⟩
          · simpa only [he, Bool.false_eq_true, if_false, ht] using h
          · simp only [he, Bool.false_eq_true, if_false, ht] at h ⊢
            cases hb : handleAll loop n ids u with
            | none => simp [hb] at h
            | some q =>
              rw [hb] at h
              rw [ihAll _ _ _ hb]
              obtain ⟨f | _, v⟩ := q
              · exact h
              · exact ihRun _ _ h
    · intro ids s r h
      cases ids with
      | nil => simpa only [handleAll] using h
      | cons id ids =>
        rw [handleAll] at h ⊢
        cases hc : completed loop n id s with
        | none => simp [hc] at h
        | some q =>
          rw [hc] at h
          rw [ihOne _ _ _ hc]
          obtain ⟨f | _, t⟩ := q
          · exact h
          · exact ihAll _ _ _ h
    · intro id s r h
      rw [completed] at h ⊢
      cases hr : s.release? id with
      | none => simpa only [hr] using h
      | some q =>
        simp only [hr] at h ⊢
        cases hf : follow loop n (q.1.action.hook id) (q.2.note (.finished id q.1.action.name)) with
        | none => simp [hf] at h
        | some p =>
          rw [hf] at h
          rw [ihHook _ _ _ hf]
          exact h
    · intro h s r hr
      cases h with
      | finish outcome => simpa only [follow] using hr
      | look next => exact ihHook _ _ _ hr
      | put world next => exact ihHook _ _ _ hr
      | add action next => exact ihHook _ _ _ hr
      | complete id next =>
        rw [follow] at hr ⊢
        cases hc : completed loop n id s with
        | none => simp [hc] at hr
        | some q =>
          rw [hc] at hr
          rw [ihOne _ _ _ hc]
          exact ihHook _ _ _ hr
      | run next =>
        rw [follow] at hr ⊢
        cases hc : run loop n s with
        | none => simp [hc] at hr
        | some q =>
          rw [hc] at hr
          rw [ihRun _ _ hc]
          exact ihHook _ _ _ hr

variable {loop : EventLoop σ} {m n : Nat} {s : Schedule σ} {r : Except Fault Unit × Schedule σ}

theorem run_mono (h : run loop m s = some r) (hmn : m ≤ n) : run loop n s = some r := by
  induction hmn with
  | refl => exact h
  | step _ ih => exact (answer_succ loop _).1 s r ih

theorem handleAll_mono {ids : List ActionId} (h : handleAll loop m ids s = some r)
    (hmn : m ≤ n) : handleAll loop n ids s = some r := by
  induction hmn with
  | refl => exact h
  | step _ ih => exact (answer_succ loop _).2.1 ids s r ih

theorem completed_mono {id : ActionId} (h : completed loop m id s = some r)
    (hmn : m ≤ n) : completed loop n id s = some r := by
  induction hmn with
  | refl => exact h
  | step _ ih => exact (answer_succ loop _).2.2.1 id s r ih

theorem follow_mono {hook : Hook σ} (h : follow loop m hook s = some r)
    (hmn : m ≤ n) : follow loop n hook s = some r := by
  induction hmn with
  | refl => exact h
  | step _ ih => exact (answer_succ loop _).2.2.2 hook s r ih

theorem call_mono {c : Call σ} (h : s.call loop m c = some r) (hmn : m ≤ n) :
    s.call loop n c = some r := by
  cases c with
  | add action => exact h
  | run => exact run_mono h hmn
  | completed id => exact completed_mono h hmn

theorem callAll_mono {calls : List (Call σ)} {t : Schedule σ}
    (h : callAll loop m s calls = some t) (hmn : m ≤ n) : callAll loop n s calls = some t := by
  induction calls generalizing s with
  | nil => exact h
  | cons c cs ih =>
    rw [callAll] at h ⊢
    cases hc : s.call loop m c with
    | none => simp [hc] at h
    | some q =>
      rw [hc] at h
      rw [call_mono hc hmn]
      exact ih h

end Schedule

end BackupRetention
