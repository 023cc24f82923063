import BackupRetention.Proofs.Schedule.Alike
import BackupRetention.Proofs.Schedule.Termination

/-!
# Batches make no difference

Between two batches a run goes along the queue once more. After a completion has been handled
this changes nothing, so it does not matter where the batches are cut: each run does what comes of
handling the completions one after the other.

## Main definitions

* `Schedule.Handles`: completions are handled well, one after the other.
* `Execution.Feeds`: the waits of a run bring certain completions in their order, some at a time.
* `Execution.Comes`: a run has handled certain completions, and returns or waits for more.

## Main results

* `Execution.comes_alike`: two runs that are fed the same completions do the same.
-/

namespace BackupRetention

variable {σ τ : Type}

namespace Schedule

variable {loop : EventLoop σ} {s t u : Schedule σ}

/-- A successful completion leaves nothing that could be started. -/
theorem startEligible_of_completed {n : Nat} {id : ActionId}
    (h : completed loop n id s = some (.ok (), t)) : t.startEligible = (.ok (), t) := by
  cases n with
  | zero => simp [completed] at h
  | succ n =>
    rw [completed] at h
    rcases hr : s.release? id with _ | ⟨e, u⟩
    · simp [hr] at h
    · simp only [hr] at h
      rcases hf : follow loop n (e.action.hook id) (u.note (.finished id e.action.name))
        with _ | ⟨_ | _, v⟩
      · simp [hf] at h
      · simp [hf] at h
      · simp only [hf, Option.some.injEq] at h
        exact (settled_of_startEligible h).startEligible

/-- Nor do some completions, of at least one action. -/
theorem startEligible_of_handleAll {n : Nat} {ids : List ActionId} (given : ids ≠ [])
    (h : handleAll loop n ids s = some (.ok (), t)) : t.startEligible = (.ok (), t) := by
  induction n generalizing ids s with
  | zero => simp [handleAll] at h
  | succ n ih =>
    cases ids with
    | nil => exact absurd rfl given
    | cons id ids =>
      rw [handleAll] at h
      rcases hc : completed loop n id s with _ | ⟨_ | _, u⟩
      · simp [hc] at h
      · simp [hc] at h
      · simp only [hc] at h
        by_cases more : ids = []
        · subst more
          cases n with
          | zero => simp [handleAll] at h
          | succ n =>
            simp only [handleAll, Option.some.injEq, Prod.mk.injEq, true_and] at h
            exact h ▸ startEligible_of_completed hc
        · exact ih more h

/-- What is handled well is so in two parts. -/
theorem handleAll_append {n : Nat} {ids ids' : List ActionId}
    (h : handleAll loop n (ids ++ ids') s = some (.ok (), t)) :
    ∃ u, handleAll loop (n + 1) ids s = some (.ok (), u) ∧
      handleAll loop n ids' u = some (.ok (), t) := by
  induction ids generalizing n s with
  | nil => exact ⟨s, rfl, h⟩
  | cons id ids ih =>
    cases n with
    | zero => simp [handleAll] at h
    | succ n =>
      rw [List.cons_append, handleAll] at h
      rcases hc : completed loop n id s with _ | ⟨_ | _, v⟩
      · simp [hc] at h
      · simp [hc] at h
      · simp only [hc] at h
        obtain ⟨u, first, rest⟩ := ih h
        refine ⟨u, ?_, handleAll_mono rest n.le_succ⟩
        rw [handleAll]
        simp only [completed_mono hc n.le_succ, first]

/-- Whose completion is handled well was queued. -/
theorem queued_of_handleAll {n : Nat} {ids : List ActionId} (given : ids ≠ [])
    (h : handleAll loop n ids s = some (.ok (), t)) : s.isEmpty = false := by
  obtain ⟨id, ids, rfl⟩ := List.exists_cons_of_ne_nil given
  rcases n with _ | _ | n
  · simp [handleAll] at h
  · simp [handleAll, completed] at h
  rcases hr : s.release? id with _ | ⟨e, u⟩
  · simp [handleAll, completed, hr] at h
  · obtain ⟨l₁, l₂, queue, -⟩ := release?_eq_some hr
    simp [isEmpty, queue]

/-- The completions `ids` are handled well, one after the other. -/
def Handles (loop : EventLoop σ) (ids : List ActionId) (s : Schedule σ) : Prop :=
  ∃ n u t, s.startEligible = (.ok (), u) ∧ handleAll loop n ids u = some (.ok (), t)

end Schedule

namespace Execution

open Schedule

variable {loop loop' : EventLoop σ} {own : σ → τ} {x y : Execution σ}

/-- A wait has succeeded, with the first few of `ids`. -/
def BringsFirst (ids : List ActionId) : Except Fault (List ActionId) → Prop
  | .error _ => False
  | .ok batch => batch ≠ [] ∧ batch <+: ids

instance (ids : List ActionId) : ∀ o, Decidable (BringsFirst ids o)
  | .error _ => isFalse id
  | .ok _ => inferInstanceAs (Decidable (_ ∧ _))

/-- What of `ids` is still to come, if they have been coming since `s`. -/
def yet (ids : List ActionId) (s : Schedule σ) (x : Execution σ) : List ActionId :=
  ids.drop ((Journal.brought x.schedule.journal).length - (Journal.brought s.journal).length)

/-- If the run waits next, it is brought the next few of `ids`, as long as there are any. -/
def Fed (loop : EventLoop σ) (ids : List ActionId) (s : Schedule σ) (x : Execution σ) : Prop :=
  x.waits = true → yet ids s x ≠ [] → BringsFirst (yet ids s x) (loop.wait x.schedule.world).1

instance (loop : EventLoop σ) (ids : List ActionId) (s : Schedule σ) (x : Execution σ) :
    Decidable (Fed loop ids s x) :=
  inferInstanceAs (Decidable (_ → _ → _))

/-- From `x` on, waits bring the completions `ids` in this order, at least one at a time. -/
def Feeds (loop : EventLoop σ) (ids : List ActionId) (x : Execution σ) : Prop :=
  ∀ n, Fed loop ids x.schedule (after loop n x)

/-- The rest is still to come. -/
theorem Feeds.later {seen ids : List ActionId} (h : Feeds loop (seen ++ ids) x)
    (leads : Leads loop x y) (brought : Journal.brought y.schedule.journal =
      Journal.brought x.schedule.journal ++ seen) : Feeds loop ids y := by
  obtain ⟨m, rfl⟩ := leads
  intro n
  have fed := h (n + m)
  rw [after_add] at fed
  generalize hz : after loop n (after loop m x) = z at fed
  have grown : Journal.brought (after loop m x).schedule.journal <+:
      Journal.brought z.schedule.journal :=
    Journal.brought_prefix (hz ▸ (after_moves loop n _).journal_suffix)
  have longer := grown.length_le
  have same : yet (seen ++ ids) x.schedule z = yet ids (after loop m x).schedule z := by
    rw [brought, List.length_append] at longer
    simp only [yet, brought, List.length_append]
    obtain ⟨k, hk⟩ := Nat.exists_eq_add_of_le longer
    rw [show (Journal.brought z.schedule.journal).length -
        (Journal.brought x.schedule.journal).length = seen.length + k by omega,
      List.drop_append, Nat.add_sub_cancel_left, List.drop_of_length_le (Nat.le_add_right _ _)]
    simp [hk]
  rwa [Fed, same] at fed

/-- It is enough to look at the steps before the end. -/
theorem feeds_of_isOver (ids : List ActionId) (n : Nat)
    (before : ∀ m < n, Fed loop ids x.schedule (after loop m x))
    (ended : (after loop n x).isOver = true) : Feeds loop ids x := by
  intro m
  rcases Nat.lt_or_ge m n with hm | hm
  · exact before m hm
  · rw [after_of_isOver loop hm ended]
    intro waits
    unfold isOver at ended
    split at ended
    · next hp hc => simp [Execution.waits, hp] at waits
    · contradiction

/-- A run after it has started what it can: it returns if nothing is queued, and else it waits. -/
def admitted (s : Schedule σ) : Execution σ := ⟨afterStart s (.ok ()), [], s, []⟩

/-- A run has been brought the completions `ids` and has handled them. If nothing is left it
returns, and else it waits for more. -/
structure Comes (loop : EventLoop σ) (ids : List ActionId) (s t : Schedule σ) : Prop where
  leads : Leads loop ⟨.run, [], s, []⟩ (admitted t)
  brought : Journal.brought t.journal = Journal.brought s.journal ++ ids
  returns : t.isEmpty = true → ∃ n, ∀ fuel ≥ n, Schedule.run loop fuel s = some (.ok (), t)

/-- However they are cut into batches, completions that would be handled well one after the
other are handled to the same effect. -/
theorem leads_of_feeds {n : Nat} {ids : List ActionId} {u u' t : Schedule σ}
    (quiet : ∀ w, own (loop'.wait w).2 = own w) (alike : u.Alike own u')
    (handled : handleAll loop n ids u = some (.ok (), t)) (feeds : Feeds loop' ids (admitted u')) :
    ∃ t', Leads loop' (admitted u') (admitted t') ∧ t.Alike own t' ∧
      Journal.brought t'.journal = Journal.brought u'.journal ++ ids := by
  induction hk : ids.length using Nat.strong_induction_on generalizing ids u u' with
  | _ k ih =>
  by_cases none : ids = []
  · subst none
    cases n with
    | zero => simp [handleAll] at handled
    | succ n =>
      simp only [handleAll, Option.some.injEq, Prod.mk.injEq, true_and] at handled
      exact ⟨u', .refl loop' _, handled ▸ alike, (List.append_nil _).symm⟩
  · have waiting : admitted u' = ⟨.wait, [], u', []⟩ := by
      have queued := alike.isEmpty ▸ queued_of_handleAll none handled
      simp [admitted, afterStart, queued]
    have brings : BringsFirst ids (loop'.wait u'.world).1 := by
      have fed := feeds 0
      rw [after_zero, waiting] at fed
      have all : yet ids u' ⟨.wait, [], u', []⟩ = ids := by simp [yet]
      exact all ▸ fed rfl (by rwa [all])
    -- The wait makes no difference, and the batch is handled like the first part of `ids`.
    have awaited := alike.await quiet
    rcases hw : loop'.wait u'.world with ⟨f | batch, w⟩ <;> rw [hw] at brings
    · exact brings.elim
    obtain ⟨given, left, rfl⟩ := brings
    have await : u'.await loop' = (.ok batch, note (.delivered batch) { u' with world := w }) := by
      simp [Schedule.await, hw]
    rw [await] at awaited
    obtain ⟨v, first, rest⟩ := handleAll_append handled
    obtain ⟨v', first', alike', brought⟩ := awaited.handleAll loop' first
    have settled : v'.startEligible = (.ok (), v') := startEligible_of_handleAll given first'
    have leads : Leads loop' (admitted u') (admitted v') := by
      rw [waiting]
      apply Leads.head
      rw [step_wait hw]
      refine (leads_of_handleAll first').trans (Leads.head ?_)
      rw [step_run settled]
      exact .refl loop' _
    have came : Journal.brought v'.journal = Journal.brought u'.journal ++ batch := by
      rw [brought]
      simp [note, Event.deliveries]
    have less : left.length < k := by
      rw [← hk, List.length_append]
      have := List.length_pos_of_ne_nil given
      omega
    obtain ⟨t', leads', alike'', brought'⟩ :=
      ih left.length less alike' rest (feeds.later leads came) rfl
    exact ⟨t', leads.trans leads', alike'', by rw [brought', came, List.append_assoc]⟩

/-- What a run comes to, if it is fed completions that would be handled well. -/
theorem comes_of_handles {ids : List ActionId} {s s' : Schedule σ}
    (quiet : ∀ w, own (loop'.wait w).2 = own w) (alike : s.Alike own s')
    {n : Nat} {u t : Schedule σ} (started : s.startEligible = (.ok (), u))
    (handled : handleAll loop n ids u = some (.ok (), t))
    (feeds : Feeds loop' ids ⟨.run, [], s', []⟩) :
    ∃ t', Comes loop' ids s' t' ∧ t.Alike own t' := by
  obtain ⟨outcome, alike'⟩ := alike.startEligible
  rw [started] at outcome alike'
  have started' : s'.startEligible = (.ok (), s'.startEligible.2) := Prod.ext outcome.symm rfl
  have first : Leads loop' ⟨.run, [], s', []⟩ (admitted s'.startEligible.2) := by
    apply Leads.head
    rw [step_run started']
    exact .refl loop' _
  have same := brought_startEligible s'
  have all : Feeds loop' ([] ++ ids) ⟨.run, [], s', []⟩ := feeds
  have later : Feeds loop' ids (admitted s'.startEligible.2) :=
    all.later first (same.trans (List.append_nil _).symm)
  obtain ⟨t', leads, alike'', brought⟩ := leads_of_feeds quiet alike' handled later
  refine ⟨t', ⟨first.trans leads, by rw [brought, same], ?_⟩, alike''⟩
  intro nothing
  obtain ⟨m, hm⟩ := first.trans leads
  have returns : admitted t' = ⟨.ended (.ok ()), [], t', []⟩ := by
    simp [admitted, afterStart, nothing]
  exact ⟨m + 2, fun fuel more => run_mono (run_of_after (returns ▸ hm)) more⟩

/-- It makes no difference how completions are cut into batches. Two runs of a schedule start in
worlds that are the same to its actions; waits do not touch what is theirs, and hooks do no more
than queue further actions. If both runs are brought the same completions, which would be handled
well one after the other, then both handle them all, both return or both wait for more, and up to
then they have started and finished the same actions in the same order, each with the same queue
and the same labels held, and what they leave is the same. -/
theorem comes_alike (own : σ → τ) (loop loop' : EventLoop σ)
    (quiet : ∀ w, own (loop.wait w).2 = own w) (quiet' : ∀ w, own (loop'.wait w).2 = own w)
    (s : Schedule σ) (w w' : σ) (same : own w = own w')
    (harmless : ∀ e ∈ s.entries, e.action.Alike own e.action) (ids : List ActionId)
    (handles : Handles loop ids { s with world := w })
    (feeds : Feeds loop ids ⟨.run, [], { s with world := w }, []⟩)
    (feeds' : Feeds loop' ids ⟨.run, [], { s with world := w' }, []⟩) :
    ∃ t t', Comes loop ids { s with world := w } t ∧ Comes loop' ids { s with world := w' } t' ∧
      t.Alike own t' := by
  obtain ⟨n, u, v, started, handled⟩ := handles
  have queue : List.Forall₂ (Entry.Alike own) s.entries s.entries :=
    List.forall₂_same.2 fun e he => ⟨rfl, harmless e he, rfl⟩
  have here : Schedule.Alike own { s with world := w } { s with world := w } :=
    ⟨queue, rfl, rfl, rfl, rfl⟩
  have there : Schedule.Alike own { s with world := w } { s with world := w' } :=
    ⟨queue, rfl, rfl, rfl, same⟩
  obtain ⟨t, comes, alike⟩ := comes_of_handles quiet here started handled feeds
  obtain ⟨t', comes', alike'⟩ := comes_of_handles quiet' there started handled feeds'
  exact ⟨t, t', comes, comes', alike.symm.trans alike'⟩

/-- With enough fuel one can see whether completions are handled well. -/
theorem handles_of_isOk {s : Schedule σ} {ids : List ActionId} (n : Nat)
    (started : s.startEligible.1.isOk = true)
    (handled : (handleAll loop n ids s.startEligible.2).any (·.1.isOk) = true) :
    Handles loop ids s := by
  rcases answer : handleAll loop n ids s.startEligible.2 with _ | ⟨o, t⟩ <;>
    rw [answer] at handled
  · contradiction
  · obtain rfl : o = .ok () := isOk_iff.1 handled
    exact ⟨n, _, t, Prod.ext (isOk_iff.1 started) rfl, answer⟩

/-- Two actions that can run together, and the hook of the first one queues another one. -/
def couple : List (Action Stage) :=
  [(Script.mk "a" ["disk"] .hold [.mk "c" ["disk"] .hold [] none false false] none false
      false).action,
    (Script.mk "b" ["net"] .hold [] none false false).action]

/-- What the couple does depends on nothing. -/
theorem alike_couple (world : Stage) :
    ∀ e ∈ (ofActions world couple).entries, e.action.Alike (fun _ => ()) e.action := by
  have alone (name : String) (labels : List Label) :
      (Script.mk name labels .hold [] none false false).action.Alike (fun _ => ())
        (Script.mk name labels .hold [] none false false).action :=
    .mk (fun _ _ _ _ => ⟨rfl, rfl⟩) fun _ => .finish _
  have actions : ∀ a ∈ couple, a.Alike (fun _ => ()) a := by
    intro a mem
    rcases List.mem_cons.1 mem with rfl | mem
    · exact .mk (fun _ _ _ _ => ⟨rfl, rfl⟩) fun _ => .add (alone ..) fun _ => .finish _
    · rw [List.mem_singleton.1 mem]
      exact alone ..
  refine ofActions_induction (P := fun s => ∀ e ∈ s.entries, e.action.Alike (fun _ => ()) e.action)
    (by simp [empty]) fun s a mem ih e he => ?_
  rcases List.mem_append.1 he with he | he
  · exact ih e he
  · rw [List.mem_singleton.1 he]
    exact actions a mem

/-- The completions of the couple come one by one, or both at once. -/
theorem couple_comes_alike :
    let queued := ofActions (.opening []) couple
    let apart : Stage := .opening [[.of ⟨0⟩], [.of ⟨1⟩], [.of ⟨2⟩]]
    let together : Stage := .opening [[.of ⟨0⟩, .of ⟨1⟩], [.of ⟨2⟩]]
    ∃ t t', Comes Rehearsal.loop [⟨0⟩, ⟨1⟩, ⟨2⟩] { queued with world := apart } t ∧
      Comes Rehearsal.loop [⟨0⟩, ⟨1⟩, ⟨2⟩] { queued with world := together } t' ∧
      t.Alike (fun _ => ()) t' := by
  intro queued apart together
  exact comes_alike (fun _ => ()) Rehearsal.loop Rehearsal.loop (fun _ => rfl) (fun _ => rfl)
    queued apart together rfl (alike_couple _) [⟨0⟩, ⟨1⟩, ⟨2⟩]
    (handles_of_isOk 16 (by decide +kernel) (by decide +kernel))
    (feeds_of_isOver _ 24 (by decide +kernel) (by decide +kernel))
    (feeds_of_isOver _ 24 (by decide +kernel) (by decide +kernel))

end Execution

end BackupRetention
