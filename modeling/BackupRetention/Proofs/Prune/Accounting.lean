import BackupRetention.Proofs.Prune.Attempts
import BackupRetention.Proofs.Prune.LogLines
import BackupRetention.Proofs.State.Built

/-!
# Accounting of a pass

What a pass reports, what it tries, what is left in the state and what it writes come from
different places: the selection, the workers, the notes of the schedule and the final removal from
the state. They agree, whatever comes of the removals and however the workers go on.

## Main definitions

* `Pass.tries`: what a pass tries, and what comes of it.
* `Pass.Accounted`: report, tries and state agree.
* `Pass.Recordable`: what it takes for the log to be kept.
* `Pass.Recorded`: the log has gained a line for each try.

## Main results

* `Pass.accounted`: every acting pass that comes to its end.
-/

namespace BackupRetention

theorem eq_ok_of_toOption {ε α : Type} {x : Except ε α} {a : α} (h : x.toOption = some a) :
    x = .ok a := by
  cases x with
  | error e => cases h
  | ok b => rw [Option.some.inj h]

namespace Pass

/-! ## Tries -/

/-- The records whose removal succeeded. -/
def succeeded (ts : List (Target × Outcome)) : List Record :=
  (ts.filter fun t => t.2.isOk).map fun t => t.1.2

/-- The records whose removal failed. -/
def failing (ts : List (Target × Outcome)) : List Record :=
  (ts.filter fun t => !t.2.isOk).map fun t => t.1.2

/-- What a pass selects on a day. -/
def selected (p : Pass) (s : State) (today : Date) : List Record := (s.select p.mode today).1

/-- What a pass hands over for removal. -/
def targets (p : Pass) (s : State) (m : Machine) (today : Date) : List Target :=
  located (p.identify m.tree) (p.selected s today)

/-- What an acting pass tries, in order, and what comes of it. -/
def tries (p : Pass) (s : State) (m : Machine) (today : Date) : List (Target × Outcome) :=
  match PruneLog.openFor p.config.logs today m.tree with
  | (.error _, _) => []
  | (.ok log, tree) =>
    let targets := p.targets s m today
    tried targets (p.removeAll log targets { m with tree := tree }).2.world

theorem map_located (locate : Locator) (rs : List Record) :
    (located locate rs).map Prod.snd = rs.filter fun r => (locate r.device).isSome := by
  induction rs with
  | nil => rfl
  | cons r rs ih =>
    rw [located] at ih
    cases h : locate r.device <;> simp [located, h, ih]

theorem length_succeeded_add_failing (ts : List (Target × Outcome)) :
    (succeeded ts).length + (failing ts).length = ts.length := by
  simp only [succeeded, failing, List.length_map]
  exact List.length_eq_length_filter_add _ |>.symm

/-- Notes add up to what is counted. -/
theorem Course.counts {p : Pass} {log : PruneLog} {m : Machine}
    {tries notes : List (Target × Outcome)} {s : Site} (course : Course p log m tries notes s) :
    s.removed = succeeded notes ∧ s.failed = (failing notes).length := by
  induction course with
  | start => exact ⟨rfl, rfl⟩
  | attempt t _ ih => rwa [removed_removalJob, failed_removalJob]
  | @note t o _ _ s _ _ ih =>
    obtain ⟨removed, failed⟩ := ih
    cases o with
    | ok =>
      simp [Site.settle, Site.note, succeeded, failing, removed, failed, Except.isOk, Except.toBool]
    | error f =>
      simp [Site.settle, Site.note, succeeded, failing, removed, failed, Except.isOk, Except.toBool]

/-- What a pass that acts comes to, if it comes to its end. -/
theorem removeLocated_eq (p : Pass) (today : Date) (log : PruneLog) (n : Nat)
    (targets : List Target) (s : State) (m : Machine) :
    let site := (p.removeAll log targets m).2.world.shared
    p.removeLocated today log n targets s m =
      { report := .ok
          { candidates := n
            removed := site.removed.length
            failed := site.failed
            skipped := n - targets.length }
        identified := true
        state := dropAll s site.removed
        machine := { site.machine with
          tree := (PruneLog.expire p.config.logs today p.config.keepPruneLogs
            site.machine.tree).2 }
        unwritten := site.unwritten } := by
  have ended := (p.removeAll_course log targets m).1
  unfold removeLocated
  generalize p.removeAll log targets m = result at ended ⊢
  obtain ⟨outcome, schedule⟩ := result
  obtain rfl : outcome = .ok () := ended
  rfl

/-- What a pass does once there is a day. -/
theorem run_of_today {p : Pass} {s : State} {m : Machine} {today : Date}
    (day : p.today = .ok today) :
    p.run s m = p.runOn today (p.selected s today) (s.select p.mode today).2 m := by
  simp only [run, day, selected]

/-- A pass that acts and comes to its end has a day, and it has nothing to do or its log open. -/
theorem run_of_report {p : Pass} {s : State} {m : Machine} (act : p.act = true) {rep : Report}
    (h : (p.run s m).report = .ok rep) : ∃ today, p.today = .ok today ∧
      ((p.selected s today = [] ∧
          p.run s m = ⟨.ok { candidates := 0 }, false, (s.select p.mode today).2, m, []⟩) ∨
        p.selected s today ≠ [] ∧ ∃ log tree,
          PruneLog.openFor p.config.logs today m.tree = (.ok log, tree) ∧
          p.run s m = p.removeLocated today log (p.selected s today).length
            (p.targets s m today) (s.select p.mode today).2 { m with tree := tree }) := by
  cases day : p.today with
  | error f => simp [run, day] at h
  | ok today =>
    refine ⟨today, rfl, ?_⟩
    rw [run_of_today day] at h ⊢
    by_cases none : p.selected s today = []
    · exact .inl ⟨none, by simp [runOn, none]⟩
    · rw [runOn, if_neg none, if_pos act] at h ⊢
      rcases opened : PruneLog.openFor p.config.logs today m.tree with ⟨f | log, tree⟩
      · simp [opened] at h
      · exact .inr ⟨none, log, tree, rfl, rfl⟩

/-! ## The tries of one pass -/

section Tries

variable {p : Pass} {s : State} {m : Machine} {today : Date} {log : PruneLog} {tree : FileTree}

theorem tries_of_opened (opened : PruneLog.openFor p.config.logs today m.tree = (.ok log, tree)) :
    p.tries s m today = tried (p.targets s m today)
      (p.removeAll log (p.targets s m today) { m with tree := tree }).2.world := by
  unfold tries
  generalize PruneLog.openFor p.config.logs today m.tree = result at opened
  subst opened
  rfl

/-- On each device the tries go in the order of the targets. -/
theorem tries_on (opened : PruneLog.openFor p.config.logs today m.tree = (.ok log, tree))
    (d : String) :
    ((p.tries s m today).map Prod.fst).filter (fun t => decide (t.2.device = d)) =
      (p.targets s m today).filter fun t => decide (t.2.device = d) := by
  rw [tries_of_opened opened]
  exact (p.removeAll_course log _ _).2.2 d

theorem tries_perm (opened : PruneLog.openFor p.config.logs today m.tree = (.ok log, tree)) :
    ((p.tries s m today).map Prod.fst).Perm (p.targets s m today) :=
  perm_of_filter_eq (f := fun t : Target => t.2.device) (tries_on opened)

/-- What is noted is what was tried. -/
theorem noted_of_opened (opened : PruneLog.openFor p.config.logs today m.tree = (.ok log, tree)) :
    let site := (p.removeAll log (p.targets s m today) { m with tree := tree }).2.world.shared
    ∃ notes, Course p log { m with tree := tree } (p.tries s m today) notes site ∧
      notes.Perm (p.tries s m today) ∧ site.removed.Perm (succeeded (p.tries s m today)) ∧
      site.failed = (failing (p.tries s m today)).length := by
  obtain ⟨-, ⟨notes, course, noted⟩, -⟩ :=
    p.removeAll_course log (p.targets s m today) { m with tree := tree }
  rw [← tries_of_opened opened] at course noted
  obtain ⟨removed, failed⟩ := course.counts
  refine ⟨notes, course, noted, ?_, ?_⟩
  · rw [removed]
    exact (noted.filter _).map _
  · rw [failed]
    exact ((noted.filter _).map _).length_eq

theorem tries_of_selected_nil (none : p.selected s today = []) : p.tries s m today = [] := by
  rcases opened : PruneLog.openFor p.config.logs today m.tree with ⟨f | log, tree⟩
  · unfold tries
    generalize PruneLog.openFor p.config.logs today m.tree = result at opened
    subst opened
    rfl
  · have all := (tries_perm (s := s) opened).length_eq
    rw [targets, none, located, List.filterMap_nil, List.length_nil, List.length_map] at all
    exact List.length_eq_zero_iff.1 all

end Tries

/-! ## Report and state -/

/-- The removals are really carried out one after the other, in this order and with this outcome,
each is noted once, and old logs expire after all of them. -/
def CarriedOut (p : Pass) (s : State) (m : Machine) (today : Date) : Prop :=
  ∃ log tree notes site, PruneLog.openFor p.config.logs today m.tree = (.ok log, tree) ∧
    Course p log { m with tree := tree } (p.tries s m today) notes site ∧
    notes.Perm (p.tries s m today) ∧
    (p.run s m).machine = { site.machine with
      tree := (PruneLog.expire p.config.logs today p.config.keepPruneLogs site.machine.tree).2 } ∧
    (p.run s m).unwritten = site.unwritten

/-- Report, tries and state agree. -/
structure Accounted (p : Pass) (s : State) (m : Machine) (today : Date) (rep : Report) : Prop where
  candidates : rep.candidates = (p.selected s today).length
  skipped : rep.skipped =
    ((p.selected s today).filter fun r => (p.identify m.tree r.device).isNone).length
  removed : rep.removed = (succeeded (p.tries s m today)).length
  failed : rep.failed = (failing (p.tries s m today)).length
  sum : rep.candidates = rep.removed + rep.failed + rep.skipped
  /-- What is tried is what is selected and located. -/
  tried : ∀ store r, (store, r) ∈ (p.tries s m today).map Prod.fst ↔
    r ∈ p.selected s today ∧ p.identify m.tree r.device = some store
  once : ((p.tries s m today).map fun t => t.1.2).Nodup
  /-- On a device that is located the tries go in the order of the selection. -/
  order : ∀ d, (p.identify m.tree d).isSome = true →
    ((p.tries s m today).map fun t => t.1.2).filter (fun r => decide (r.device = d)) =
      (p.selected s today).filter fun r => decide (r.device = d)
  /-- The state keeps all but what was removed. -/
  left : (p.run s m).state.holdings =
    s.holdings.map (·.without (succeeded (p.tries s m today)))
  carriedOut : p.selected s today ≠ [] → p.CarriedOut s m today
  idle : p.selected s today = [] → (p.run s m).machine = m

section Accounted

variable {p : Pass} {s : State} {m : Machine} {today : Date}

theorem Accounted.mem_targets {rep : Report} (h : p.Accounted s m today rep)
    {t : Target × Outcome} (ht : t ∈ p.tries s m today) : t.1 ∈ p.targets s m today :=
  mem_located.2 ((h.tried t.1.1 t.1.2).1 (List.mem_map_of_mem ht))

/-- Only what is in a list matters to what is left without it. -/
theorem without_congr {rs qs : List Record} (same : ∀ r, r ∈ rs ↔ r ∈ qs) (h : Holding) :
    h.without rs = h.without qs := by
  simp [Holding.without, same]

theorem nodup_selected (built : s.Built) : (p.selected s today).Nodup :=
  built.shelved.nodup.sublist (s.selected_sublist p.mode today)

theorem map_targets : (p.targets s m today).map Prod.snd =
    (p.selected s today).filter fun r => (p.identify m.tree r.device).isSome :=
  map_located _ _

theorem length_targets : (p.targets s m today).length +
      ((p.selected s today).filter fun r => (p.identify m.tree r.device).isNone).length =
    (p.selected s today).length := by
  have records := congrArg List.length (@map_targets p s m today)
  rw [List.length_map] at records
  rw [records]
  have parts := List.length_eq_length_filter_add (l := p.selected s today)
    fun r => (p.identify m.tree r.device).isSome
  simpa using parts.symm

theorem accounted_of_opened (built : s.Built) {log : PruneLog} {tree : FileTree}
    (opened : PruneLog.openFor p.config.logs today m.tree = (.ok log, tree))
    (some : p.selected s today ≠ [])
    (h : p.run s m = p.removeLocated today log (p.selected s today).length
      (p.targets s m today) (s.select p.mode today).2 { m with tree := tree })
    {rep : Report} (reported : (p.run s m).report = .ok rep) :
    p.Accounted s m today rep := by
  have counted := noted_of_opened (s := s) opened
  rw [removeLocated_eq] at h
  generalize (p.removeAll log (p.targets s m today) { m with tree := tree }).2.world.shared = site
    at h counted
  obtain ⟨notes, course, noted, removals, failed⟩ := counted
  -- The notes come in another order than the tries, so all that follows is up to the order.
  have perm := tries_perm (s := s) opened
  have length := @length_targets p s m today
  have tried := perm.length_eq
  rw [List.length_map] at tried
  have total := length_succeeded_add_failing (p.tries s m today)
  have once : ((p.tries s m today).map fun t => t.1.2).Perm
      ((p.selected s today).filter fun r => (p.identify m.tree r.device).isSome) := by
    have records := perm.map Prod.snd
    rwa [List.map_map, map_targets] at records
  rw [h] at reported
  cases reported
  refine ⟨rfl, ?_, ?_, ?_, ?_, ?_, ?_, ?_, ?_, fun _ => ?_, fun none => absurd none some⟩
  · show (p.selected s today).length - (p.targets s m today).length = _
    omega
  · show site.removed.length = _
    rw [removals.length_eq]
  · show site.failed = _
    rw [failed]
  · show (p.selected s today).length =
      site.removed.length + site.failed + ((p.selected s today).length - _)
    rw [removals.length_eq, failed]
    omega
  · intro store r
    rw [perm.mem_iff]
    exact mem_located
  · exact once.nodup_iff.2 ((nodup_selected built).filter _)
  · intro d located
    have records (ts : List Target) : (ts.filter fun t => decide (t.2.device = d)).map Prod.snd =
        (ts.map Prod.snd).filter fun r => decide (r.device = d) := by
      rw [List.filter_map]
      rfl
    have on := congrArg (List.map Prod.snd) (tries_on (s := s) opened d)
    rw [records, records, List.map_map, map_targets, List.filter_filter] at on
    refine on.trans (List.filter_congr fun r _ => ?_)
    by_cases hr : r.device = d
    · simp [hr, located]
    · simp [hr]
  · rw [h]
    have shelved : State.Shelved (s.select p.mode today).2.volumes :=
      (built.select p.mode today).shelved
    rw [State.holdings_dropAll shelved, State.holdings_select]
    refine List.map_congr_left fun x _ => without_congr (fun r => ?_) x
    exact removals.mem_iff
  · exact ⟨log, tree, notes, site, opened, course, noted, by rw [h], by rw [h]⟩

theorem accounted_of_idle (none : p.selected s today = [])
    (h : p.run s m = ⟨.ok { candidates := 0 }, false, (s.select p.mode today).2, m, []⟩)
    {rep : Report} (reported : (p.run s m).report = .ok rep) : p.Accounted s m today rep := by
  have untried := tries_of_selected_nil (m := m) none
  rw [h] at reported
  cases reported
  refine ⟨by rw [none]; rfl, by rw [none]; rfl, by rw [untried]; rfl, by rw [untried]; rfl, rfl,
    ?_, by rw [untried]; exact .nil, ?_, ?_, fun some => absurd none some, fun _ => by rw [h]⟩
  · intro store r
    simp [untried, none]
  · intro d _
    simp [untried, none]
  · rw [h, untried]
    simp [State.holdings_select, Holding.without, succeeded]

theorem exists_accounted (built : s.Built) (act : p.act = true) {rep : Report}
    (h : (p.run s m).report = .ok rep) :
    ∃ today, p.today = .ok today ∧ p.Accounted s m today rep := by
  obtain ⟨today, day, ⟨none, idle⟩ | ⟨some, log, tree, opened, acted⟩⟩ := run_of_report act h
  · exact ⟨today, day, accounted_of_idle none idle h⟩
  · exact ⟨today, day, accounted_of_opened built opened some acted h⟩

end Accounted

/-! ## The log -/

/-- The path of the log of a day. -/
def logPath (p : Pass) (today : Date) : String := PruneLog.pathFor p.config.logs today

/-- What it takes for the log to be kept: it does not expire at once, all of it can be written, it
is no device, and removals leave it alone. If it is a link, the pass takes nothing away from where
it leads to. -/
structure Recordable (p : Pass) (s : State) (m : Machine) (today : Date) : Prop where
  nonneg : 0 ≤ p.config.keepPruneLogs
  /-- No write to the log fails. -/
  written : (p.run s m).unwritten = []
  ordinary : ∀ place, m.tree.lookup true (p.logPath today) = .ok place → place.IsOrdinary
  flat : ∀ t ∈ p.tries s m today, t.1.2.backup.Flat
  unbroken : ∀ t ∈ p.tries s m today, '\n' ∉ (p.removal t.1).dataPath.toList
  confined : p.runner.Confined
  /-- The directory of the logs is in no tree that the runner is given. -/
  spared : ∀ log tree place, PruneLog.openFor p.config.logs today m.tree = (.ok log, tree) →
    m.tree.lookup false (p.logPath today) = .ok place →
      p.Spares log { m with tree := tree } (p.tries s m today) place.location.dropLast
  linked : ∀ log tree l target, PruneLog.openFor p.config.logs today m.tree = (.ok log, tree) →
    m.tree.lookup false (p.logPath today) = .ok (.found l (.link target)) →
      p.Avoids log { m with tree := tree } (p.tries s m today) log.place

/-- The log has gained a line for each try, after what it held before. -/
def Recorded (p : Pass) (s : State) (m : Machine) (today : Date) : Prop :=
  ∃ notes, notes.Perm (p.tries s m today) ∧
    (∀ n ∈ notes, '\n' ∉ (p.line today n.1 n.2).toList) ∧
    (p.selected s today ≠ [] → ∃ place, m.tree.lookup true (p.logPath today) = .ok place ∧
      (p.run s m).machine.tree.Holds place.location
        (m.tree.contentAt place.location ++ (p.lines today notes).toUTF8))

/-- Nothing is taken away from the place of the log. -/
theorem Recordable.avoids {p : Pass} {s : State} {m : Machine} {today : Date}
    (h : p.Recordable s m today) {log : PruneLog} {tree : FileTree}
    (opened : PruneLog.openFor p.config.logs today m.tree = (.ok log, tree)) :
    p.Avoids log { m with tree := tree } (p.tries s m today) log.place := by
  obtain ⟨place, found⟩ := PruneLog.exists_lookup_of_openFor opened
  have day : log.today = today := (PruneLog.openFor_cases opened).1
  by_cases linked : ∃ l target, place = .found l (.link target)
  · obtain ⟨l, target, rfl⟩ := linked
    exact h.linked log tree l target opened found
  · obtain ⟨followed, last⟩ := PruneLog.followed_of_unlinked found
      fun l target link => linked ⟨l, target, link⟩
    have same := (PruneLog.holds_openFor opened followed (h.ordinary place followed)).1
    rw [← same] at last
    refine avoids_of_spares h.nonneg h.flat (day ▸ last) ?_
    rw [same]
    exact h.spared log tree place opened found

/-- Backups that may all go. -/
def emptied : Config where
  logs := "logs"
  hosts := [("h", { volumes := [("v", { path := "/", pruneAge := 0, minBackups := 0 })] })]

/-- Two backups on one device, and one on another. -/
def onTwoDevices : State := (State.ofConfig emptied).fill
  [⟨⟨"h", "v", "d", ⟨2024, 1, 1⟩, 0⟩, 0⟩, ⟨⟨"h", "v", "d", ⟨2024, 1, 2⟩, 0⟩, 1⟩,
    ⟨⟨"h", "v", "e", ⟨2024, 1, 3⟩, 0⟩, 2⟩]

/-- A pass for which one removal fails, on a disk with room for two lines. -/
def mixed : Pass where
  config := emptied
  day := .given ⟨2024, 3, 5⟩
  runner := .scriptedRemoval fun path =>
    if path = "s/h/v/2024-01-01" then { outcome := some (.ok 1) } else {}
  identify := fun _ device => if device = "d" then some "s" else none
  refusal := some ⟨2, .system .noSpace⟩

end Pass

end BackupRetention
