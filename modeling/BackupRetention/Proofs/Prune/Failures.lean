import BackupRetention.Proofs.Prune.Accounting

/-!
# When a pass fails

There are two ways for a pass to fail, and both come before anything is removed: the day that was
set from outside is no date, or there is something to remove and the log cannot be opened. From
then on nothing makes a pass fail or skip what it has to try, whatever comes of the removals, of
the lines for the log and of the expiry of old logs.

## Main definitions

* `Pass.Refuses`: a pass does not begin, and why.
* `Pass.Finishes`: a pass has tried all it had to.

## Main results

* `Pass.report_eq_error_iff`: a pass fails only by not beginning.
* `Pass.finishes_of_opened`: a pass that has opened its log tries everything.
-/

namespace BackupRetention

namespace Pass

variable {p : Pass} {s : State} {m : Machine} {today : Date}

/-- Why a pass does not begin. -/
inductive Refuses (p : Pass) (s : State) (m : Machine) : Fault → Prop where
  /-- The day that was set from outside is no date. -/
  | day {text : String} {clock : Date} {e : InvalidDate} (set : p.day = .found (some text) clock)
      (wrong : Date.ofText text = .error e) : Refuses p s m (.within "prune" (.invalidDate e))
  /-- There is something to remove, and the log of the day cannot be opened. -/
  | log {today : Date} {e : IoFault} {tree : FileTree} (day : p.today = .ok today)
      (act : p.act = true) (some : p.selected s today ≠ [])
      (closed : m.tree.touch (p.logPath today) = (.error e, tree)) :
      Refuses p s m (.within "prune" (.during (PruneLog.openingFailed (p.logPath today)) (.io e)))

/-- A pass has tried all that it selected and located, each once, and reports what came of it. -/
structure Finishes (p : Pass) (s : State) (m : Machine) (today : Date) : Prop where
  report : (p.run s m).report = .ok
    { candidates := (p.selected s today).length
      removed := (succeeded (p.tries s m today)).length
      failed := (failing (p.tries s m today)).length
      skipped := ((p.selected s today).filter fun r => (p.identify m.tree r.device).isNone).length }
  tried : ((p.tries s m today).map Prod.fst).Perm (p.targets s m today)
  carriedOut : p.CarriedOut s m today

/-! ## Days and logs -/

/-- There is no current day only if the one that was set from outside is no date. -/
theorem today_eq_error_iff {f : Fault} : p.today = .error f ↔ ∃ text clock e,
    p.day = .found (some text) clock ∧ Date.ofText text = .error e ∧
      f = .within "prune" (.invalidDate e) := by
  unfold today
  cases p.day with
  | given date => simp
  | found setDay clock =>
    cases setDay with
    | none => simp [Date.today]
    | some text =>
      simp only [Date.today]
      cases read : Date.ofText text <;> simp [read, eq_comm]

/-- A log that cannot be opened leaves everything as it is. -/
theorem openFor_eq_error_iff {logs : String} {t u : FileTree} {f : Fault} :
    PruneLog.openFor logs today t = (.error f, u) ↔ u = t ∧ ∃ e,
      t.touch (PruneLog.pathFor logs today) = (.error e, t) ∧
        f = .during (PruneLog.openingFailed (PruneLog.pathFor logs today)) (.io e) := by
  unfold PruneLog.openFor
  dsimp only
  rcases FileTree.touch_cases t (PruneLog.pathFor logs today) with
    ⟨e, refused⟩ | ⟨l, n, -, -, opened⟩ | ⟨l, -, opened⟩
  · rw [refused]
    simp [eq_comm, and_comm]
  · simp [opened]
  · simp [opened]

/-! ## Passes -/

/-- What an acting pass does that has opened its log. -/
theorem run_of_opened {log : PruneLog} {tree : FileTree} (day : p.today = .ok today)
    (act : p.act = true) (some : p.selected s today ≠ [])
    (opened : PruneLog.openFor p.config.logs today m.tree = (.ok log, tree)) :
    p.run s m = p.removeLocated today log (p.selected s today).length (p.targets s m today)
      (s.select p.mode today).2 { m with tree := tree } := by
  rw [run_of_today day, runOn, if_neg some, if_pos act, opened]
  rfl

/-- A pass that has opened its log tries everything, and reports it. -/
theorem finishes_of_opened {log : PruneLog} {tree : FileTree} (day : p.today = .ok today)
    (act : p.act = true) (some : p.selected s today ≠ [])
    (opened : PruneLog.openFor p.config.logs today m.tree = (.ok log, tree)) :
    p.Finishes s m today := by
  have whole := run_of_opened day act some opened
  obtain ⟨notes, course, noted, removals, failed⟩ := noted_of_opened (s := s) opened
  rw [removeLocated_eq] at whole
  have located := @length_targets p s m today
  have skipped : (p.selected s today).length - (p.targets s m today).length = _ :=
    Nat.sub_eq_of_eq_add' located.symm
  refine ⟨?_, tries_perm opened, log, tree, notes, _, opened, course, noted, by rw [whole],
    by rw [whole]⟩
  rw [whole, removals.length_eq, failed, skipped]

/-- A pass that does not begin leaves all files and records as they are. -/
theorem run_of_refuses {f : Fault} (h : p.Refuses s m f) : (p.run s m).report = .error f ∧
    (p.run s m).machine = m ∧ (p.run s m).state.holdings = s.holdings := by
  cases h with
  | @day text clock e set wrong =>
    have none : p.today = .error (.within "prune" (.invalidDate e)) :=
      today_eq_error_iff.2 ⟨text, clock, e, set, wrong, rfl⟩
    simp only [run, none, and_self]
  | @log today e tree day act some closed =>
    have left : tree = m.tree := by
      rcases FileTree.touch_cases m.tree (p.logPath today) with
        ⟨e, refused⟩ | ⟨l, n, -, -, opened⟩ | ⟨l, -, opened⟩ <;> grind
    have refused := openFor_eq_error_iff.2 ⟨rfl, e, left ▸ closed, rfl⟩
    rw [run_of_today day, runOn, if_neg some, if_pos act, refused]
    exact ⟨rfl, rfl, s.holdings_select p.mode today⟩

/-- A pass fails only by not beginning. -/
theorem report_eq_error_iff {f : Fault} : (p.run s m).report = .error f ↔ p.Refuses s m f := by
  refine ⟨fun failed => ?_, fun h => (run_of_refuses h).1⟩
  cases day : p.today with
  | error g =>
    obtain ⟨text, clock, e, set, wrong, rfl⟩ := today_eq_error_iff.1 day
    simp only [run, day, Except.error.injEq] at failed
    exact failed ▸ .day set wrong
  | ok today =>
    by_cases none : p.selected s today = []
    · simp [run_of_today day, runOn, none] at failed
    · cases act : p.act with
      | false => simp [run_of_today day, runOn, none, act] at failed
      | true =>
        rcases opened : PruneLog.openFor p.config.logs today m.tree with ⟨g | log, tree⟩
        · obtain ⟨rfl, e, closed, rfl⟩ := openFor_eq_error_iff.1 opened
          rw [run_of_today day, runOn, if_neg none, if_pos act, opened] at failed
          obtain rfl := Except.error.inj failed
          exact .log day act none closed
        · rw [(finishes_of_opened day act none opened).report] at failed
          cases failed

/-- A pass leaves all files as they are, or it finishes. -/
theorem machine_run_cases (p : Pass) (s : State) (m : Machine) : (p.run s m).machine = m ∨
    ∃ today, p.today = .ok today ∧ p.Finishes s m today := by
  cases day : p.today with
  | error f => exact .inl (by simp only [run, day])
  | ok today =>
    by_cases none : p.selected s today = []
    · exact .inl (by rw [run_of_today day, runOn, if_pos none])
    · cases act : p.act with
      | false => exact .inl (by simp [run_of_today day, runOn, none, act])
      | true =>
        rcases opened : PruneLog.openFor p.config.logs today m.tree with ⟨f | log, tree⟩
        · obtain ⟨rfl, -⟩ := openFor_eq_error_iff.1 opened
          exact .inl (by rw [run_of_today day, runOn, if_neg none, if_pos act, opened])
        · exact .inr ⟨today, rfl, finishes_of_opened day act none opened⟩

/-- A pass fails exactly if it does not begin, and then it has changed nothing. Once the log is
open it tries all that it selected and located, whatever fails on the way. -/
theorem fails_only_before_removing (p : Pass) (s : State) (m : Machine) :
    (∀ f, (p.run s m).report = .error f ↔ p.Refuses s m f) ∧
      (∀ f, p.Refuses s m f →
        (p.run s m).machine = m ∧ (p.run s m).state.holdings = s.holdings) ∧
      ∀ today log tree, p.today = .ok today → p.act = true → p.selected s today ≠ [] →
        PruneLog.openFor p.config.logs today m.tree = (.ok log, tree) → p.Finishes s m today :=
  ⟨fun _ => report_eq_error_iff, fun _ h => (run_of_refuses h).2,
    fun _ _ _ day act some opened => finishes_of_opened day act some opened⟩

/-- Logs to which nothing can be written: the prune log is on a full device, one that expires is
a directory, and the log of a backup is missing. -/
def brokenLogs : FileTree where
  nodes := [(["s"], .dir), (["s", "h"], .dir), (["s", "h", "v"], .dir),
    (["s", "h", "v", "2024-01-01"], .dir), (["s", "h", "v", "2024-01-02"], .dir), (["logs"], .dir),
    (["logs", "2024-01-01-d-h-v.log"], .file .empty), (["logs", "prune-2023-01-01.log"], .dir),
    (["logs", "prune-2024-03-05.log"], .fullDevice)]
  current := []
  changes := []

/-- A pass for which no removal succeeds: the data stays, the log is missing, or the store is. -/
def unlucky : Pass :=
  { mixed with identify := fun _ device => if device = "d" then some "s" else some "missing" }

/-- Everything fails, and the pass has still tried all three; with a bad day it tries nothing. -/
theorem finishes_unlucky :
    unlucky.Finishes onTwoDevices (.ofTree brokenLogs) ⟨2024, 3, 5⟩ ∧
      (unlucky.run onTwoDevices (.ofTree brokenLogs)).report = .ok ⟨3, 0, 3, 0⟩ ∧
      ({ unlucky with day := .found (some "2024-02-30") ⟨2024, 3, 5⟩ }.run onTwoDevices
        (.ofTree brokenLogs)).machine = .ofTree brokenLogs := by
  have opens : (PruneLog.openFor "logs" ⟨2024, 3, 5⟩ brokenLogs).1.toOption =
      some ⟨"logs/prune-2024-03-05.log", ⟨2024, 3, 5⟩, ["logs", "prune-2024-03-05.log"]⟩ := by
    decide +kernel
  have reports : (unlucky.run onTwoDevices (.ofTree brokenLogs)).report.toOption =
      some ⟨3, 0, 3, 0⟩ := by decide +kernel
  have refuses : { unlucky with day := .found (some "2024-02-30") ⟨2024, 3, 5⟩ }.Refuses
      onTwoDevices (.ofTree brokenLogs)
      (.within "prune" (.invalidDate ⟨"2024-02-30", .dayOutOfRange⟩)) := .day rfl (by rfl)
  refine ⟨?_, eq_ok_of_toOption reports,
    ((fails_only_before_removing _ _ _).2.1 _ refuses).1⟩
  exact (fails_only_before_removing unlucky onTwoDevices (.ofTree brokenLogs)).2.2 _ _ _ rfl rfl
    (by decide +kernel) (Prod.ext (eq_ok_of_toOption opens) rfl)

end Pass

end BackupRetention
