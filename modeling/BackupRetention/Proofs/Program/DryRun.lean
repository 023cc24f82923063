import BackupRetention.Program
import BackupRetention.Proofs.Files.Growth
import BackupRetention.Proofs.Prune.Failures

/-!
# Dry runs

A run that only looks takes nothing away, changes no file and runs no command. All that it may
leave are directories on the way to the logs, if these were missing. It comes to its end whenever
there is something to look at, and each of its passes foretells what one that acts would count.

## Main definitions

* `Program.Ready`: all that the passes of a run depend on.
* `Program.Foretells`: what dry passes report.
* `Program.OnlyLooks`: what is promised of a dry run.

## Main results

* `Config.grows_load`: what loading a configuration does to files.
* `Program.onlyLooks_of_dryRun`: what comes of a dry run.
-/

namespace BackupRetention

/-! ## Loading the configuration -/

section Loading

variable {path : String} {t u : FileTree} {c : Config}

theorem grows_ensureDirectory (path : String) (t : FileTree) :
    (ensureDirectory path t).2 = t ∨ t.isThere path = false ∧
      FileTree.Grows (Path.ancestors path) t (ensureDirectory path t).2 := by
  unfold ensureDirectory
  split
  · exact .inl rfl
  · next missing =>
    have grows := t.grows_makeDirs path
    generalize t.makeDirs path = made at grows ⊢
    obtain ⟨e | ⟨⟩, u⟩ := made <;> exact .inr ⟨by simpa using missing, grows⟩

namespace Config

/-- Loading succeeds with what is written, if that is accepted. -/
theorem load_eq_ok_iff : load path t = (.ok c, u) ↔
    read path t = .ok c ∧ c.validate t = (.ok (), u) := by
  unfold load
  cases written : read path t with
  | error f => simp
  | ok d =>
    dsimp only [during_ok]
    rcases checked : d.validate t with ⟨f | ⟨⟩, v⟩
    · simp only [during_error, Prod.mk.injEq, reduceCtorEq, false_and, false_iff, not_and]
      rintro ⟨rfl⟩
      simp [checked]
    · simp only [during_ok, Prod.mk.injEq, Except.ok.injEq]
      constructor
      · rintro ⟨rfl, rfl⟩
        exact ⟨rfl, checked⟩
      · rintro ⟨rfl, valid⟩
        rw [checked] at valid
        cases valid
        exact ⟨rfl, rfl⟩

/-- At most the directories on the way to missing logs are made. -/
theorem grows_load (path : String) (t : FileTree) : (load path t).2 = t ∨
    ∃ c, read path t = .ok c ∧ t.isThere c.logs = false ∧
      FileTree.Grows (Path.ancestors c.logs) t (load path t).2 := by
  unfold load
  cases written : read path t with
  | error f => exact .inl rfl
  | ok c =>
    have grows := grows_ensureDirectory c.logs t
    rw [show (ensureDirectory c.logs t).2 = (c.validate t).2 from rfl] at grows
    dsimp only [during_ok]
    generalize c.validate t = checked at grows ⊢
    obtain ⟨f | ⟨⟩, u⟩ := checked <;> exact grows.imp_right fun grows => ⟨c, rfl, grows⟩

end Config

end Loading

/-! ## Passes -/

namespace Pass

variable {p : Pass} {s : State} {m : Machine} {today : Date}

/-- How many of some records are on devices that are not available. -/
def missed (locate : Locator) (rs : List Record) : Nat :=
  (rs.filter fun r => (locate r.device).isNone).length

/-- A dry pass counts what it selects and changes nothing but marks. -/
theorem run_of_dry (day : p.today = .ok today) (dry : p.act = false) :
    (p.run s m).report = .ok
      { candidates := (p.selected s today).length
        skipped := missed (p.identify m.tree) (p.selected s today) } ∧
    (p.run s m).state = (s.select p.mode today).2 ∧ (p.run s m).machine = m := by
  have located := @length_targets p s m today
  have skipped : (p.selected s today).length - (p.targets s m today).length =
      missed (p.identify m.tree) (p.selected s today) :=
    Nat.sub_eq_of_eq_add' located.symm
  rw [run_of_today day, runOn]
  split
  · next none => simp [none, missed]
  · rw [if_neg (by simp [dry])]
    exact ⟨by rw [← skipped]; rfl, rfl, rfl⟩

/-- Whatever a pass does, it counts the same as all others of its mode. -/
theorem counts_of_report (day : p.today = .ok today) {rep : Report}
    (h : (p.run s m).report = .ok rep) : rep.candidates = (p.selected s today).length ∧
      rep.skipped = missed (p.identify m.tree) (p.selected s today) := by
  cases act : p.act with
  | false =>
    rw [(run_of_dry day act).1] at h
    cases h
    exact ⟨rfl, rfl⟩
  | true =>
    obtain ⟨today', day', ⟨none, idle⟩ | ⟨some, log, tree, opened, -⟩⟩ := run_of_report act h
    · obtain rfl : today = today' := Except.ok.inj (day.symm.trans day')
      rw [idle] at h
      cases h
      simp [none, missed]
    · obtain rfl : today = today' := Except.ok.inj (day.symm.trans day')
      rw [(finishes_of_opened day act some opened).report] at h
      cases h
      exact ⟨rfl, rfl⟩

end Pass

namespace Program

variable {e : Environment} {c : CommandLine} {config : Config} {s : State} {today : Date}
  {m : Machine} {arguments : List String}

/-- What a dry pass foretells: it removes nothing, and every pass that acts on the same state,
with the same mode and day and with the devices at the same places, counts the same as soon as it
comes to its end. -/
structure Foretold (locate : Locator) (today : Date) (mode : PruneMode) (s : State)
    (report : Report) : Prop where
  candidates : report.candidates = (s.select mode today).1.length
  skipped : report.skipped = Pass.missed locate (s.select mode today).1
  removed : report.removed = 0
  failed : report.failed = 0
  acting : ∀ (q : Pass) (n : Machine) (acted : Report), q.act = true → q.mode = mode →
    q.today = .ok today → q.identify n.tree = locate → (q.run s n).report = .ok acted →
      acted.candidates = report.candidates ∧ acted.skipped = report.skipped

/-- What dry passes one after the other foretell. Each finds the records as they were, with the
marks of those before it. -/
inductive Foretells (locate : Locator) (today : Date) :
    List PruneMode → State → List Report → Prop where
  | done (s : State) : Foretells locate today [] s []
  | pass {mode : PruneMode} {rest : List PruneMode} {s : State} {report : Report}
      {reports : List Report} (first : Foretold locate today mode s report)
      (others : Foretells locate today rest (s.select mode today).2 reports) :
      Foretells locate today (mode :: rest) s (report :: reports)

theorem today_pass (day : Date.today e.setDay e.clock = .ok today) (config : Config) (act : Bool)
    (mode : PruneMode) : (pass e config act mode).today = .ok today := by
  simp [Pass.today, pass, day]

theorem foretold_pass (day : Date.today e.setDay e.clock = .ok today) {mode : PruneMode}
    {report : Report} (h : ((pass e config false mode).run s m).report = .ok report) :
    Foretold (DeviceMap.identify config m.tree).locate today mode s report := by
  have here := today_pass day config false mode
  have counts := Pass.counts_of_report here h
  rw [(Pass.run_of_dry here rfl).1] at h
  cases h
  refine ⟨counts.1, counts.2, rfl, rfl, ?_⟩
  rintro q n acted act rfl day' same h'
  obtain ⟨candidates, skipped⟩ := Pass.counts_of_report day' h'
  rw [same] at skipped
  exact ⟨candidates, skipped⟩

/-- Dry passes all come to their end on a day. -/
theorem runPasses_of_dry (day : Date.today e.setDay e.clock = .ok today) (config : Config)
    (modes : List PruneMode) (s : State) (m : Machine) :
    (runPasses e config false modes s m).2 = (.ok (), m) ∧
    Foretells (DeviceMap.identify config m.tree).locate today modes s
      (runPasses e config false modes s m).1 := by
  induction modes generalizing s with
  | nil => exact ⟨rfl, .done s⟩
  | cons mode rest ih =>
    have here := today_pass day config false mode
    obtain ⟨report, state, machine⟩ := @Pass.run_of_dry _ s m _ here rfl
    obtain ⟨ended, foretells⟩ := ih (s.select mode today).2
    rw [runPasses, report]
    dsimp only
    rw [state, machine]
    exact ⟨ended, .pass (foretold_pass day report) foretells⟩

/-- Without a day the first pass fails. -/
theorem runPasses_of_no_day {f : InvalidDate} (day : Date.today e.setDay e.clock = .error f)
    (config : Config) (act : Bool) {modes : List PruneMode} (some : modes ≠ []) (s : State)
    (m : Machine) : runPasses e config act modes s m =
      ([], .error (.within "prune" (.invalidDate f)), m) := by
  cases modes with
  | nil => exact absurd rfl some
  | cons mode rest =>
    simp [runPasses, Pass.run, Pass.today, pass, day]

/-! ## Whole runs -/

/-- Where the configuration of a run is. -/
def configPath (c : CommandLine) : String := c.config.getD CommandLine.defaultConfig

/-- A run gets to its passes: there is a configuration, it is accepted, there is a state, and
there is a day. -/
structure Ready (e : Environment) (c : CommandLine) (t : FileTree) (config : Config) (s : State)
    (today : Date) : Prop where
  written : Config.read (configPath c) t = .ok config
  accepted : (config.validate t).1 = .ok ()
  loaded : State.load config (config.validate t).2 = .ok s
  day : Date.today e.setDay e.clock = .ok today

theorem Ready.unique {t : FileTree} {config' : Config} {s' : State} {today' : Date}
    (h : Ready e c t config s today) (h' : Ready e c t config' s' today') :
    config = config' ∧ s = s' ∧ today = today' := by
  obtain rfl : config = config' := Except.ok.inj (h.written.symm.trans h'.written)
  exact ⟨rfl, Except.ok.inj (h.loaded.symm.trans h'.loaded),
    Except.ok.inj (h.day.symm.trans h'.day)⟩

theorem Ready.load (h : Ready e c m.tree config s today) :
    Config.load (configPath c) m.tree = (.ok config, (config.validate m.tree).2) :=
  Config.load_eq_ok_iff.2 ⟨h.written, Prod.ext h.accepted rfl⟩

/-- All that can come of a dry run with something to do. -/
theorem run_cases (dry : c.dryRun = true) (some : modes c ≠ []) (m : Machine) :
    (∃ f, run e c m = ([], .error f, { m with tree := (Config.load (configPath c) m.tree).2 }) ∧
      ∀ config s today, ¬ Ready e c m.tree config s today) ∨
    ∃ config s today, Ready e c m.tree config s today ∧
      (run e c m).2 = (.ok (), { m with tree := (Config.load (configPath c) m.tree).2 }) ∧
      Foretells (DeviceMap.identify config (config.validate m.tree).2).locate today (modes c) s
        (run e c m).1 := by
  unfold run
  rw [← configPath]
  rcases loads : Config.load (configPath c) m.tree with ⟨f | config, tree⟩
  · refine .inl ⟨f, rfl, fun config s today ready => ?_⟩
    rw [ready.load] at loads
    cases loads
  · dsimp only
    obtain ⟨written, valid⟩ := Config.load_eq_ok_iff.1 loads
    have same {config' : Config} {s : State} {today : Date}
        (ready : Ready e c m.tree config' s today) : config' = config :=
      Except.ok.inj (ready.written.symm.trans written)
    cases loaded : State.load config tree with
    | error f =>
      refine .inl ⟨f, rfl, fun config' s today ready => ?_⟩
      obtain rfl := same ready
      have failed := ready.loaded
      rw [valid, loaded] at failed
      cases failed
    | ok s =>
      dsimp only
      rw [dry, Bool.not_true]
      cases day : Date.today e.setDay e.clock with
      | error f =>
        refine .inl ⟨_, runPasses_of_no_day day config false some s _, fun _ _ _ ready => ?_⟩
        rw [ready.day] at day
        cases day
      | ok today =>
        obtain ⟨ended, foretells⟩ :=
          runPasses_of_dry day config (modes c) s { m with tree := tree }
        refine .inr ⟨config, s, today, ⟨written, ?_, ?_, day⟩, ended, ?_⟩
        · rw [valid]
        · rw [valid]
          exact loaded
        · rw [valid]
          exact foretells

/-- Where a run ends that has something to do. -/
theorem exit_of_modes (e : Environment) (asked : CommandLine.read arguments = .ok c)
    (some : modes c ≠ []) (m : Machine) : (exit e arguments m).2 = (run e c m).2.2 ∧
      ((exit e arguments m).1.status = 0 ↔ (run e c m).2.1 = .ok ()) := by
  rw [exit, asked]
  dsimp only
  rw [if_neg some]
  rcases run e c m with ⟨reports, f | ⟨⟩, m⟩ <;> simp

/-- What is promised of a dry run. -/
structure OnlyLooks (e : Environment) (arguments : List String) (c : CommandLine) (m : Machine) :
    Prop where
  /-- It runs no command. -/
  calls : (exit e arguments m).2.calls = m.calls
  /-- It changes nothing, but for directories on the way to logs that are missing. -/
  tree : (exit e arguments m).2.tree = m.tree ∨ ∃ config,
    Config.read (configPath c) m.tree = .ok config ∧ m.tree.isThere config.logs = false ∧
      FileTree.Grows (Path.ancestors config.logs) m.tree (exit e arguments m).2.tree
  /-- It succeeds just if it is told to look for something and gets to its passes. -/
  status : (exit e arguments m).1.status = 0 ↔
    modes c ≠ [] ∧ ∃ config s today, Ready e c m.tree config s today
  /-- Then these foretell what passes that act would count. -/
  reports : modes c ≠ [] → ∀ config s today, Ready e c m.tree config s today →
    Foretells (DeviceMap.identify config (config.validate m.tree).2).locate today (modes c) s
      (run e c m).1
  /-- Otherwise nothing is reported. -/
  silent : modes c ≠ [] → (¬ ∃ config s today, Ready e c m.tree config s today) →
    (run e c m).1 = []

/-- A dry run takes nothing away, whatever it is run on. -/
theorem onlyLooks_of_dryRun (e : Environment) (asked : CommandLine.read arguments = .ok c)
    (dry : c.dryRun = true) (m : Machine) : OnlyLooks e arguments c m := by
  by_cases none : modes c = []
  · have left : exit e arguments m = (⟨1, .none⟩, m) := by
      rw [exit, asked]
      dsimp only
      rw [if_pos none]
    exact {
      calls := by rw [left]
      tree := .inl (by rw [left])
      status := by simp [left, none]
      reports := fun some => absurd none some
      silent := fun some => absurd none some }
  · obtain ⟨machine, status⟩ := exit_of_modes e asked none m
    have grows := Config.grows_load (configPath c) m.tree
    rcases run_cases dry none m with
      ⟨f, ran, unready⟩ | ⟨config, s, today, ready, ran, foretells⟩
    · exact {
        calls := by rw [machine, ran]
        tree := by rwa [machine, ran]
        status := by rw [status, ran]; simp [unready]
        reports := fun _ config s today ready => absurd ready (unready config s today)
        silent := fun _ _ => by rw [ran] }
    · exact {
        calls := by rw [machine, ran]
        tree := by rwa [machine, ran]
        status := by
          rw [status, ran]
          exact ⟨fun _ => ⟨none, config, s, today, ready⟩, fun _ => rfl⟩
        reports := fun _ config' s' today' ready' => by
          obtain ⟨rfl, rfl, rfl⟩ := ready.unique ready'
          exact foretells
        silent := fun _ unready => absurd ⟨config, s, today, ready⟩ unready }

/-- The logs of a failed attempt and of a complete backup, both old, whose device is not
available. -/
def watched : FileTree where
  nodes := [(["c.yml"], .file ("logs: logs\nhosts:\n  h:\n    volumes:\n      v:\n" ++
      "        path: /\n        prune_age: 3\n        min_backups: 0\n").toUTF8),
    (["logs"], .dir), (["logs", "2024-01-01-d-h-v.log"], .file "ERROR: full\n".toUTF8),
    (["logs", "2024-01-02-d-h-v.log"], .file .empty)]
  current := []
  changes := []

def march : Environment where
  setDay := none
  clock := ⟨2024, 3, 1⟩
  runner := .scriptedRemoval fun _ => {}

/-- Each pass looks for one of the two backups, and would have to leave it alone. -/
theorem onlyLooks_watched :
    let c : CommandLine :=
      { config := some "c.yml", prune := true, pruneIncomplete := true, dryRun := true }
    CommandLine.read ["-nc", "c.yml", "-pP"] = .ok c ∧ c.dryRun = true ∧
    OnlyLooks march ["-nc", "c.yml", "-pP"] c (Machine.ofTree watched) ∧
    (exit march ["-nc", "c.yml", "-pP"] (Machine.ofTree watched)).1.status = 0 ∧
    (run march c (Machine.ofTree watched)).1 = [⟨1, 0, 0, 1⟩, ⟨1, 0, 0, 1⟩] := by
  intro c
  have asked : CommandLine.read ["-nc", "c.yml", "-pP"] = .ok c := rfl
  have looks := onlyLooks_of_dryRun march asked rfl (Machine.ofTree watched)
  have reported : (run march c (Machine.ofTree watched)).1 = [⟨1, 0, 0, 1⟩, ⟨1, 0, 0, 1⟩] := by
    decide +kernel
  have some : modes c ≠ [] := by decide
  have ready : ∃ config s today, Ready march c watched config s today := by
    by_contra unready
    have silent := looks.silent some unready
    rw [reported] at silent
    cases silent
  exact ⟨asked, rfl, looks, looks.status.2 ⟨some, ready⟩, reported⟩

end Program

end BackupRetention
