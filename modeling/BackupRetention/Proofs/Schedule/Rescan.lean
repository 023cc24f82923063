import BackupRetention.Proofs.Schedule.Admission

/-!
# Searching from the top

Admission can be told as a search that goes back to the top of the queue as long as it finds
something: the queue is gone through until one complete pass has started nothing. A single pass
comes to the same end. The labels held only grow on the way, so what has been passed over is passed
over again, however often the search goes back to the top.

## Main definitions

* `Schedule.Searched`: a search along the queue and what comes of it.
* `Schedule.AdmitsAll`: all that is promised of a pass along the queue.

## Main results

* `Schedule.searched_iff`: searching from the top gives what a single pass gives.
* `Execution.admits_all`: so it is at every moment.
-/

namespace BackupRetention

namespace Schedule

variable {σ : Type} {eager found : Bool} {s t : Schedule σ} {i : Nat} {e : Entry σ}
  {result : Except Fault Unit × Schedule σ}

/-- The schedule after the start of `e`, which stands at place `i` of the queue, has been called. -/
def startAt (i : Nat) (e : Entry σ) (s : Schedule σ) : Schedule σ :=
  s.begun (s.entries.take i) e (s.entries.drop (i + 1))

/-- A search for what can be started, and what comes of it. It has come to place `i` of the queue,
and `found` tells whether it has started anything since it was last at the top. At the end of the
queue it goes back to the top if it has; an eager search does so after every single start. -/
inductive Searched (eager : Bool) :
    Schedule σ → Nat → Bool → Except Fault Unit × Schedule σ → Prop where
  | pass {s : Schedule σ} {i : Nat} {found : Bool} {result : Except Fault Unit × Schedule σ}
      {e : Entry σ} (here : s.entries[i]? = some e) (barred : ¬ Eligible s.held e)
      (onward : Searched eager s (i + 1) found result) : Searched eager s i found result
  | begin {s : Schedule σ} {i : Nat} {found : Bool} {result : Except Fault Unit × Schedule σ}
      {e : Entry σ} (here : s.entries[i]? = some e) (eligible : Eligible s.held e)
      (started : (e.action.start e.id s.world).1 = .ok ())
      (onward : Searched eager (s.startAt i e) (if eager then 0 else i + 1) (!eager) result) :
      Searched eager s i found result
  | fail {s : Schedule σ} {i : Nat} {found : Bool} {e : Entry σ} {f : Fault}
      (here : s.entries[i]? = some e) (eligible : Eligible s.held e)
      (failed : (e.action.start e.id s.world).1 = .error f) :
      Searched eager s i found (.error f, s.startAt i e)
  | again {s : Schedule σ} {i : Nat} {result : Except Fault Unit × Schedule σ}
      (atEnd : s.entries.length ≤ i) (onward : Searched eager s 0 false result) :
      Searched eager s i true result
  | settle {s : Schedule σ} {i : Nat} (atEnd : s.entries.length ≤ i) :
      Searched eager s i false (.ok (), s)

/-! ## A search and a pass -/

/-- What stands behind `earlier` in the queue comes next. -/
theorem cons_of_here {earlier later : List (Entry σ)} (queue : s.entries = earlier ++ later)
    (here : s.entries[earlier.length]? = some e) : ∃ rest, later = e :: rest := by
  cases later with
  | nil => simp [queue] at here
  | cons x rest =>
    obtain rfl : x = e := by simpa [queue] using here
    exact ⟨rest, rfl⟩

theorem nil_of_atEnd {earlier later : List (Entry σ)} (queue : s.entries = earlier ++ later)
    (atEnd : s.entries.length ≤ earlier.length) : later = [] := by
  have none : later.length = 0 := by
    simp only [queue, List.length_append] at atEnd
    omega
  exact List.length_eq_zero_iff.1 none

theorem startAt_length {earlier later : List (Entry σ)}
    (queue : s.entries = earlier ++ e :: later) :
    s.startAt earlier.length e = s.begun earlier e later := by
  have rest : s.entries.drop (earlier.length + 1) = later := by simp [queue]
  have before : s.entries.take earlier.length = earlier := by simp [queue]
  rw [startAt, before, rest]

/-- A pass goes over what cannot be started. -/
theorem startFrom_append {earlier passed later : List (Entry σ)}
    (barred : ∀ x ∈ passed, ¬ Eligible s.held x) :
    startFrom earlier s (passed ++ later) = startFrom (earlier ++ passed) s later := by
  induction passed generalizing earlier with
  | nil => simp
  | cons x passed ih =>
    obtain ⟨here, there⟩ := List.forall_mem_cons.1 barred
    rw [List.cons_append, startFrom, if_neg here, ih there]
    simp

/-- What has been passed over, and what has been started, cannot be started again. -/
theorem barred_begun {earlier : List (Entry σ)} (e : Entry σ) (later : List (Entry σ))
    (barred : ∀ x ∈ earlier, ¬ Eligible s.held x) :
    ∀ x ∈ earlier ++ [{ e with running := true }], ¬ Eligible (s.begun earlier e later).held x := by
  intro x hx
  rcases List.mem_append.1 hx with hx | hx
  · exact not_eligible_claim (barred x hx)
  · simp [List.mem_singleton.1 hx, Eligible]

/-- A search that has passed over what cannot be started comes to the end to which a pass comes
from there. -/
theorem Searched.eq {earlier later : List (Entry σ)}
    (h : Searched eager s earlier.length found result) (queue : s.entries = earlier ++ later)
    (barred : ∀ x ∈ earlier, ¬ Eligible s.held x) : result = startFrom earlier s later := by
  generalize place : earlier.length = i at h
  induction h generalizing earlier later with
  | @pass s i found result e here blocked onward ih =>
    subst place
    obtain ⟨later, rfl⟩ := cons_of_here queue here
    rw [startFrom, if_neg blocked]
    refine ih (by simp [queue]) ?_ (by simp)
    simpa [or_imp, forall_and] using ⟨barred, blocked⟩
  | @begin s i found result e here eligible started onward ih =>
    subst place
    obtain ⟨later, rfl⟩ := cons_of_here queue here
    rw [startAt_length queue] at ih
    have entries : (s.begun earlier e later).entries =
        (earlier ++ [{ e with running := true }]) ++ later := by simp [begun, note]
    have still := barred_begun e later barred
    rw [startFrom_of_eligible eligible, started]
    cases eager with
    | false => exact ih entries still (by simp)
    | true =>
      -- The search goes over everything once more before it comes back to where it was.
      have top := @ih [] (s.begun earlier e later).entries rfl (by simp) rfl
      rw [top, entries, startFrom_append still, List.nil_append]
  | @fail s i found e f here eligible failed =>
    subst place
    obtain ⟨later, rfl⟩ := cons_of_here queue here
    rw [startFrom_of_eligible eligible, failed, startAt_length queue]
  | @again s i result atEnd onward ih =>
    subst place
    obtain rfl := nil_of_atEnd queue atEnd
    have top := @ih [] s.entries rfl (by simp) rfl
    rw [top, queue, startFrom_append (by simpa using barred), List.nil_append]
  | @settle s i atEnd =>
    subst place
    obtain rfl := nil_of_atEnd queue atEnd
    rw [startFrom, ← List.append_nil earlier, ← queue]

/-! ## Searches come to an end -/

/-- The number of actions that are not running. -/
def idle (s : Schedule σ) : Nat := s.entries.countP (!·.running)

theorem idle_startAt (here : s.entries[i]? = some e) (eligible : Eligible s.held e) :
    (s.startAt i e).idle + 1 = s.idle := by
  have queue : s.entries = s.entries.take i ++ e :: s.entries.drop (i + 1) := by
    obtain ⟨inside, rfl⟩ := List.getElem?_eq_some_iff.1 here
    rw [← List.drop_eq_getElem_cons inside, List.take_append_drop]
  have before : s.idle = (s.entries.take i).countP (!·.running) +
      ((s.entries.drop (i + 1)).countP (!·.running) + 1) := by
    rw [idle, congrArg (List.countP _) queue]
    simp [eligible.1]
  have after : (s.startAt i e).idle = (s.entries.take i).countP (!·.running) +
      (s.entries.drop (i + 1)).countP (!·.running) := by
    simp [idle, startAt, begun, note]
  omega

/-- Every search comes to an end: it starts an action less each time, or goes on along the queue,
or has found something and goes back to the top. -/
theorem exists_searched (eager : Bool) (s : Schedule σ) (i : Nat) (found : Bool) :
    ∃ result, Searched eager s i found result := by
  cases here : s.entries[i]? with
  | none =>
    have atEnd : s.entries.length ≤ i := List.getElem?_eq_none_iff.1 here
    cases found with
    | true =>
      obtain ⟨result, onward⟩ := exists_searched eager s 0 false
      exact ⟨result, .again atEnd onward⟩
    | false => exact ⟨_, .settle atEnd⟩
  | some e =>
    have inside : i < s.entries.length := (List.getElem?_eq_some_iff.1 here).1
    by_cases eligible : Eligible s.held e
    · have fewer := idle_startAt here eligible
      cases started : (e.action.start e.id s.world).1 with
      | error f => exact ⟨_, .fail here eligible started⟩
      | ok =>
        obtain ⟨result, onward⟩ := exists_searched eager (s.startAt i e)
          (if eager then 0 else i + 1) (!eager)
        exact ⟨result, .begin here eligible started onward⟩
    · obtain ⟨result, onward⟩ := exists_searched eager s (i + 1) found
      exact ⟨result, .pass here eligible onward⟩
termination_by (s.idle, found.toNat, s.entries.length - i)
decreasing_by
  · simp [Prod.lex_def]
  · simp [Prod.lex_def]; omega
  · simp [Prod.lex_def]; omega

/-- Searching from the top comes to exactly one end, and a single pass comes to the same. -/
theorem searched_iff : Searched eager s 0 false result ↔ result = s.startEligible := by
  have single {result : Except Fault Unit × Schedule σ} (h : Searched eager s 0 false result) :
      result = s.startEligible :=
    @Searched.eq _ _ _ _ _ [] s.entries h rfl (by simp)
  constructor
  · exact single
  · rintro rfl
    obtain ⟨result, h⟩ := exists_searched eager s 0 false
    exact single h ▸ h

/-- What a pass along the queue comes to. -/
structure AdmitsAll (s : Schedule σ) : Prop where
  /-- Searching from the top until a whole pass has started nothing, or going back to the top after
  every single start, comes to an end, which is that of a single pass: the same outcome, and the
  same schedule with the same starts in its journal. -/
  searched_iff : ∀ eager result, Searched eager s 0 false result ↔ result = s.startEligible
  /-- After a pass without a failure every idle action needs a label that a running one has. -/
  barred : ∀ t, s.startEligible = (.ok (), t) → ∀ e ∈ t.entries, e.running = false →
    ∃ x ∈ e.labels, ∃ a ∈ t.entries, a.running = true ∧ x ∈ a.labels
  /-- A second pass does nothing. -/
  settled : ∀ t, s.startEligible = (.ok (), t) → t.startEligible = (.ok (), t)

theorem Settled.barred (h : s.Settled) (exclusive : s.view.Exclusive) {e : Entry σ}
    (he : e ∈ s.entries) (idle : e.running = false) :
    ∃ x ∈ e.labels, ∃ a ∈ s.entries, a.running = true ∧ x ∈ a.labels := by
  have blocked : ¬ free e.labels s.held := fun free => h e he ⟨idle, free⟩
  obtain ⟨x, hx, held⟩ : ∃ x ∈ e.labels, x ∈ s.held := by simpa [free] using blocked
  exact ⟨x, hx, ((exclusive_view_iff s).1 exclusive).1 x |>.1 held⟩

theorem Guarded.admitsAll (h : s.Guarded) : s.AdmitsAll where
  searched_iff _ _ := Schedule.searched_iff
  barred t passed e he idle := by
    have moves := startEligible_moves ⟨fun w => (.ok [], w)⟩ s
    rw [passed] at moves
    exact (settled_of_startEligible passed).barred (h.moves moves).exclusive he idle
  settled t passed := (settled_of_startEligible passed).startEligible

end Schedule

namespace Execution

open Schedule

variable {σ : Type}

/-- At every moment of every history one pass along the queue is enough. -/
theorem admits_all (loop : EventLoop σ) (world : σ) (calls : List (Call σ)) :
    (∀ fuel s, callAll loop fuel (empty world) calls = some s → s.AdmitsAll) ∧
      ∀ n, (reached loop world calls n).schedule.AdmitsAll := by
  have steps (n : Nat) := (guarded_reached loop world calls n).admitsAll
  refine ⟨fun fuel s answered => ?_, steps⟩
  obtain ⟨n, hn⟩ := callAll_eq_some_iff.1 ⟨fuel, answered⟩
  have here := steps n
  rwa [reached, hn] at here

/-- Of three actions the second one shares a label with each of the others. -/
def abreast : List (Call Stage) :=
  [.add (Script.mk "a" ["disk"] .now [] none false false).action,
    .add (Script.mk "b" ["disk", "net"] .now [] none false false).action,
    .add (Script.mk "c" ["net"] .now [] none false false).action]

theorem abreast_admits_all :
    ∃ s, callAll Rehearsal.loop 8 (empty (.opening [])) abreast = some s ∧ s.AdmitsAll ∧
      s.startEligible.1.toOption = some () ∧
      s.startEligible.2.entries.map Entry.running = [true, false, true] := by
  have answered : (callAll Rehearsal.loop 8 (empty (.opening [])) abreast).map (fun s =>
      (s.startEligible.1.toOption, s.startEligible.2.entries.map Entry.running)) =
        some (some (), [true, false, true]) := by
    decide +kernel
  obtain ⟨s, hs, pass⟩ := Option.map_eq_some_iff.1 answered
  obtain ⟨passed, marks⟩ := Prod.mk.inj pass
  exact ⟨s, hs, (admits_all _ _ _).1 8 s hs, passed, marks⟩

end Execution

end BackupRetention
