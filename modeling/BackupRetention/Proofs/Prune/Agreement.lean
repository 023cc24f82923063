import BackupRetention.Proofs.Files.Listing
import BackupRetention.Proofs.Prune.Accounting
import BackupRetention.Proofs.State.Reading

/-!
# Agreement of memory and disk

After a pass the state in memory holds all backups whose removal has failed. The logs on disk tell
the same, except for a backup whose data could not be removed: its log had gone before. So a later
run knows of every failed removal but of those.

## Main definitions

* `Pass.lost`: backups that were not removed but are no longer told by the logs.
* `Pass.Reloadable`: what is relied on.

## Main results

* `Pass.reloaded`: what loading the state again gives.
-/

namespace BackupRetention

/-! ## Names that are no logs of backups -/

namespace LogFile

/-- The name of a log ends in `.log`, and before its first dash there is a number. -/
theorem of_label?_ne_none {name : String} (h : label? name ≠ none) : ∃ stem,
    name.toList = stem ++ ending ∧ ∃ y rest, Text.pieces '-' stem = y :: rest ∧
      isNumber y = true := by
  unfold label? at h
  split at h
  · exact absurd rfl h
  · next stem found =>
    refine ⟨stem, ?_, ?_⟩
    · unfold dropEnding? at found
      split at found
      · next whole =>
        obtain ⟨front, whole⟩ := whole
        simp only [Option.some.injEq] at found
        rw [← found, ← whole]
        simp
      · cases found
    · split at h
      · next y m d device host volume cut =>
        split at h
        · next parts => exact ⟨y, _, cut, parts.1⟩
        · exact absurd rfl h
      · exact absurd rfl h

/-- A log has a name that is a whole path by itself. -/
theorem isPlain_of_label? {name : String} (h : label? name ≠ none) (noSlash : '/' ∉ name.toList) :
    Path.IsPlain name := by
  obtain ⟨stem, whole, -⟩ := of_label?_ne_none h
  have longer (short : String) (hs : short.toList.length ≤ 2) : name ≠ short := by
    rintro rfl
    rw [whole, List.length_append] at hs
    simp [ending] at hs
  exact ⟨⟨longer _ (by decide), longer _ (by decide)⟩, longer _ (by decide), noSlash⟩

theorem label?_text (d : Date) : label? d.text = none := by
  by_contra h
  obtain ⟨stem, whole, -⟩ := of_label?_ne_none h
  have dot : '.' ∈ d.text.toList := by
    rw [whole]
    exact List.mem_append_right _ (by decide)
  rw [Date.toList_text] at dot
  rcases Date.mem_chars dot with h | h <;> exact absurd h (by decide)

theorem label?_sentinel (d : Date) : label? (d.text ++ Backup.sentinelSuffix) = none := by
  by_contra h
  obtain ⟨stem, whole, -⟩ := of_label?_ne_none h
  have last := congrArg List.getLast? whole
  simp [Backup.sentinelSuffix, ending, List.getLast?_append] at last

theorem label?_pruneLog (text : String) :
    label? (PruneLog.namePrefix ++ text ++ PruneLog.nameEnding) = none := by
  by_contra h
  obtain ⟨stem, whole, y, rest, cut, number⟩ := of_label?_ne_none h
  have front : stem = "prune".toList ++ '-' :: text.toList := by
    have letters : stem ++ ending = ("prune".toList ++ '-' :: text.toList) ++ ending := by
      rw [← whole]
      simp [PruneLog.namePrefix, PruneLog.nameEnding, ending]
    exact List.append_cancel_right letters
  rw [front, Text.pieces_append_cons] at cut
  have first : y = "prune".toList := by
    have parts : Text.pieces '-' "prune".toList = ["prune".toList] := by decide
    rw [parts] at cut
    exact (List.cons.inj cut).1.symm
  rw [first] at number
  exact absurd number (by decide)

end LogFile

/-! ## What a pass does to the directory of the logs -/

namespace PruneLog

theorem frame_removeEach {changed gone : Location → Prop} {t : FileTree} {paths : List String}
    (named : ∀ path ∈ paths, t.Direct path ∧ ∃ name, Path.EndsIn path name ∧
      changed (Path.locate t.current path)) :
    FileTree.Frame changed gone t (removeEach t paths).2.2 := by
  induction paths generalizing t with
  | nil => exact .refl t
  | cons path paths ih =>
    obtain ⟨direct, name, ends, here⟩ := named path List.mem_cons_self
    have first := FileTree.frame_unlink changed gone direct ends here
    have rest {u : FileTree} (hu : FileTree.Frame changed gone t u) :
        FileTree.Frame changed gone t (removeEach u paths).2.2 := by
      refine hu.trans (ih fun path hp => ?_)
      obtain ⟨direct, named⟩ := named path (List.mem_cons_of_mem _ hp)
      rw [hu.off.1]
      exact ⟨direct.of_links hu.links hu.off.1, named⟩
    unfold removeEach
    generalize t.unlink path = unlinked at first ⊢
    obtain ⟨e | ⟨⟩, u⟩ := unlinked
    · exact rest first
    · exact rest first

/-- Expiry changes at most places of prune logs. -/
theorem frame_expire (gone : Location → Prop) {t : FileTree} {logs : String}
    (direct : t.Direct logs)
    (links : ∀ name target, t.node? (Path.locate t.current logs ++ [name]) ≠ some (.link target))
    (today : Date) (keep : Int) :
    FileTree.Frame (fun k => ∃ text, k = Path.locate t.current logs ++
      [namePrefix ++ text ++ nameEnding]) gone t (expire logs today keep t).2 := by
  unfold expire
  split
  · exact .refl t
  · next names _ =>
    have named : ∀ path ∈ (names.filter (isExpired today keep)).map (Path.join logs),
        t.Direct path ∧ ∃ name, Path.EndsIn path name ∧ ∃ text, Path.locate t.current path =
          Path.locate t.current logs ++ [namePrefix ++ text ++ nameEnding] := by
      intro path hp
      obtain ⟨name, hn, rfl⟩ := List.mem_map.1 hp
      have expired := (List.mem_filter.1 hn).2
      have plain := isPlain_of_isExpired expired
      refine ⟨direct.join plain (links name), name, Path.endsIn_join_of_plain logs plain, ?_⟩
      obtain ⟨text, rfl⟩ := exists_of_isExpired expired
      exact ⟨text, Path.locate_join_of_plain _ _ plain⟩
    have kept : FileTree.Frame (fun k => ∃ text, k = Path.locate t.current logs ++
        [namePrefix ++ text ++ nameEnding]) gone t
        (removeEach t ((names.filter (isExpired today keep)).map (Path.join logs))).2.2 :=
      frame_removeEach named
    generalize removeEach t _ = result at kept ⊢
    exact kept

end PruneLog

namespace Pass

variable {p : Pass} {s : State} {m : Machine} {today : Date}

/-- Backups whose data could not be removed. They were not removed, but their logs are gone. -/
def lost (p : Pass) (s : State) (m : Machine) (today : Date) : List Backup :=
  ((p.tries s m today).filter fun t => (p.removal t.1).drops t.2 && !t.2.isOk).map
    fun t => t.1.2.backup

/-- Backups whose logs are gone. -/
def dropped (p : Pass) (s : State) (m : Machine) (today : Date) : List Backup :=
  ((p.tries s m today).filter fun t => (p.removal t.1).drops t.2).map fun t => t.1.2.backup

/-- What is relied on: the state is what the logs tell, every log has the name of its backup, the
runner keeps to the data and makes no links, there are no links among the logs, on the way to them
or on the ways to what is removed, and the data are not where the logs are. -/
structure Reloadable (p : Pass) (s : State) (m : Machine) : Prop where
  loaded : State.load p.config m.tree = .ok s
  slashless : ∀ names, m.tree.list p.config.logs = .ok names →
    ∀ name ∈ names, '/' ∉ name.toList
  canonical : ∀ names, m.tree.list p.config.logs = .ok names →
    State.Canonical p.config.logs (names.map (State.entryOf m.tree p.config.logs))
  confined : p.runner.Confined
  linkless : p.runner.Linkless
  direct : m.tree.Direct p.config.logs
  links : ∀ name target,
    m.tree.node? (Path.locate m.tree.current p.config.logs ++ [name]) ≠ some (.link target)
  reached : ∀ today, p.today = .ok today → ∀ t ∈ p.targets s m today, (p.removal t).Direct m.tree
  apart : ∀ today, p.today = .ok today → ∀ t ∈ p.targets s m today,
    ∀ k ∈ Path.along m.tree.current p.config.logs,
      ¬ (p.removal t).dataPlace m.tree.current <+: k

/-- What a pass leaves in the directory of the logs and on the way to it. -/
structure Leaves (p : Pass) (s : State) (m : Machine) (today : Date) : Prop where
  links : m.tree.NoNewLinks (p.run s m).machine.tree
  current : (p.run s m).machine.tree.current = m.tree.current
  dirs : ∀ k ∈ Path.along m.tree.current p.config.logs, m.tree.node? k = some .dir →
    (p.run s m).machine.tree.node? k = some .dir
  logs : ∀ name, LogFile.label? name ≠ none →
    (p.run s m).machine.tree.node? (Path.locate m.tree.current p.config.logs ++ [name]) =
      if p.drops m.tree.current (p.tries s m today)
        (Path.locate m.tree.current p.config.logs ++ [name]) then none
      else m.tree.node? (Path.locate m.tree.current p.config.logs ++ [name])

/-- No data and no sentinel has the name of a log, and neither has the log of the pass. -/
theorem not_clears_log {tries : List (Target × Outcome)} {start dir : Location} {name : String}
    (label : LogFile.label? name ≠ none) (apart : ¬ p.Clears start tries dir) :
    ¬ p.Clears start tries (dir ++ [name]) := by
  rintro ⟨t, ht, below⟩
  rcases List.prefix_concat_iff.1 below with whole | above
  · rw [Removal.dataPlace_eq] at whole
    rw [← (List.append_singleton_inj.1 whole).2] at label
    exact label (LogFile.label?_text _)
  · exact apart ⟨t, ht, above⟩

section Whole

variable (h : p.Reloadable s m)
  (direct : ∀ t ∈ p.tries s m today, (p.removal t.1).Direct m.tree)
  (apart : ∀ k ∈ Path.along m.tree.current p.config.logs,
    ¬ p.Clears m.tree.current (p.tries s m today) k)

include h direct apart

theorem leaves_of_carriedOut (carried : p.CarriedOut s m today) : p.Leaves s m today := by
  obtain ⟨log, tree, notes, site, opened, course, -, machine, -⟩ := carried
  have plain := PruneLog.isPlain_fileName today
  obtain ⟨place, alters⟩ := PruneLog.alters_of_openFor opened (h.direct.join plain (h.links _))
  have start : tree.current = m.tree.current := alters.off.1
  have directs : ∀ t ∈ p.tries s m today, (p.removal t.1).Direct tree := fun t ht =>
    (direct t ht).of_links alters.links start
  have frame := course.frame h.confined h.linkless directs
  have node := fun k => course.node_log h.confined h.linkless directs (k := k)
  dsimp only at frame node
  rw [start] at frame node
  have current : site.machine.tree.current = m.tree.current := frame.off.1.trans start
  have links : m.tree.NoNewLinks site.machine.tree := alters.links.trans frame.links
  have expired := PruneLog.frame_expire (fun _ => False) (h.direct.of_links links current)
    (by rw [current]; exact fun name target link => h.links name target (links _ _ link))
    today p.config.keepPruneLogs
  rw [current] at expired
  have final : (p.run s m).machine.tree =
      (PruneLog.expire p.config.logs today p.config.keepPruneLogs site.machine.tree).2 := by
    rw [machine]
  rw [← final] at expired
  refine ⟨links.trans expired.links, expired.off.1.trans current, ?_, ?_⟩
  · intro k hk dir
    exact expired.dirs k id (frame.dirs k (apart k hk) (alters.dirs k dir))
  · intro name label
    have other {l : Location} {x : String} (noLog : LogFile.label? x = none) :
        Path.locate m.tree.current p.config.logs ++ [name] ≠ l ++ [x] := by
      intro same
      rw [(List.append_singleton_inj.1 same).2] at label
      exact label noLog
    have notLog : Path.locate m.tree.current p.config.logs ++ [name] ≠ log.place := by
      rw [place, PruneLog.pathFor, Path.locate_join_of_plain _ _ plain]
      exact other (LogFile.label?_pruneLog _)
    rw [expired.off.2 _ fun ⟨text, same⟩ => other (LogFile.label?_pruneLog text) same,
      node _ notLog (not_clears_log label (apart _ List.mem_cons_self)), alters.off.2 _ notLog]
    intro t _
    rw [Removal.sentinelPlace_eq]
    exact other (LogFile.label?_sentinel _)

theorem leaves_of_accounted {rep : Report} (accounts : p.Accounted s m today rep) :
    p.Leaves s m today := by
  by_cases selected : p.selected s today = []
  · have tries := tries_of_selected_nil (m := m) selected
    refine ⟨?_, ?_, ?_, ?_⟩
    · rw [accounts.idle selected]
      exact .refl _
    · rw [accounts.idle selected]
    · rw [accounts.idle selected]
      exact fun _ _ dir => dir
    · rw [accounts.idle selected, tries]
      exact fun _ _ => rfl
  · exact leaves_of_carriedOut h direct apart (accounts.carriedOut selected)

end Whole

section Leaves

variable {name : String}

/-- Which logs are still there. -/
theorem Leaves.mem_children (h : p.Leaves s m today) (log : LogFile.label? name ≠ none) :
    name ∈ (p.run s m).machine.tree.children (Path.locate m.tree.current p.config.logs) ↔
      name ∈ m.tree.children (Path.locate m.tree.current p.config.logs) ∧
        p.drops m.tree.current (p.tries s m today)
          (Path.locate m.tree.current p.config.logs ++ [name]) = false := by
  rw [FileTree.mem_children_iff, FileTree.mem_children_iff, h.logs name log]
  cases p.drops _ _ _ <;> simp

/-- A log that is still there tells what it told before. -/
theorem Leaves.entryOf (h : p.Leaves s m today) (r : p.Reloadable s m)
    (log : LogFile.label? name ≠ none) (noSlash : '/' ∉ name.toList)
    (stays : name ∈
      (p.run s m).machine.tree.children (Path.locate m.tree.current p.config.logs))
    {b : Option Backup}
    (told : State.recorded p.config.logs (State.entryOf m.tree p.config.logs name) = .ok b) :
    State.entryOf (p.run s m).machine.tree p.config.logs name =
      State.entryOf m.tree p.config.logs name := by
  have plain := LogFile.isPlain_of_label? log noSlash
  obtain ⟨text, read⟩ := State.exists_content_of_recorded
    (e := State.entryOf m.tree p.config.logs name) log told
  have place := Path.locate_join_of_plain m.tree.current p.config.logs plain
  have kept : (p.run s m).machine.tree.node?
        (Path.locate m.tree.current p.config.logs ++ [name]) =
      m.tree.node? (Path.locate m.tree.current p.config.logs ++ [name]) := by
    rw [h.logs name log, ((h.mem_children log).1 stays).2, if_neg Bool.false_ne_true]
  have reads := FileTree.readText_of_dirs (r.direct.join plain (r.links name)) h.links h.current
    (fun k hk dir => ?_) (Path.endsIn_join_of_plain p.config.logs plain) (by rw [place, kept]) read
  · rw [State.entryOf, State.entryOf, reads]
  · rcases Path.along_join_of_plain plain hk with rfl | hk
    · rw [kept, dir]
    · exact h.dirs k hk dir

end Leaves

section Reloadable

variable {rep : Report}

/-- All that a state holds is told by logs of its own name. -/
theorem Reloadable.told (h : p.Reloadable s m) {r : Record} (hr : r ∈ s.records) :
    ∃ names, m.tree.list p.config.logs = .ok names ∧ r.backup.logName ∈ names ∧
      State.recorded p.config.logs (State.entryOf m.tree p.config.logs r.backup.logName) =
        .ok (some r.backup) := by
  obtain ⟨names, listed, -, rfl⟩ := State.load_eq_ok_iff.1 h.loaded
  rcases State.mem_records_fill hr with none | hr
  · rw [State.records_ofConfig] at none
    cases none
  · obtain ⟨e, he, told⟩ := State.mem_told hr
    have named := h.canonical names listed e he _ told
    obtain ⟨name, hname, rfl⟩ := List.mem_map.1 he
    obtain rfl : name = r.backup.logName := named
    exact ⟨names, listed, hname, told⟩

theorem Reloadable.logPlace (h : p.Reloadable s m) {t : Target} (ht : t.2 ∈ s.records) :
    (p.removal t).logPlace m.tree.current =
      Path.locate m.tree.current p.config.logs ++ [t.2.backup.logName] := by
  obtain ⟨names, listed, hname, told⟩ := h.told ht
  have log := State.label?_ne_none_of_recorded told
  have plain : Path.IsPlain t.2.backup.logName :=
    LogFile.isPlain_of_label? log (h.slashless names listed _ hname)
  exact (p.removal t).logPlace_eq plain _

theorem Accounted.mem_records (accounts : p.Accounted s m today rep) {t : Target × Outcome}
    (ht : t ∈ p.tries s m today) : t.1.2 ∈ s.records :=
  (s.selected_sublist p.mode today).subset
    ((accounts.tried t.1.1 t.1.2).1 (List.mem_map_of_mem ht)).1

/-- The logs that are gone are those of the dropped backups. -/
theorem Reloadable.drops_iff (h : p.Reloadable s m) (accounts : p.Accounted s m today rep)
    {names : List String} (listed : m.tree.list p.config.logs = .ok names) {name : String}
    (hname : name ∈ names) {b : Backup}
    (told : State.recorded p.config.logs (State.entryOf m.tree p.config.logs name) =
      .ok (some b)) :
    p.drops m.tree.current (p.tries s m today)
        (Path.locate m.tree.current p.config.logs ++ [name]) = true ↔
      b ∈ p.dropped s m today := by
  have named : name = b.logName :=
    h.canonical names listed _ (List.mem_map_of_mem hname) b told
  simp only [drops, List.any_eq_true, Bool.and_eq_true, decide_eq_true_eq, dropped,
    List.mem_map, List.mem_filter]
  refine exists_congr fun t => ?_
  constructor
  -- Two backups of one log name are the same: the log tells only one.
  · rintro ⟨ht, place, drops⟩
    refine ⟨⟨ht, drops⟩, ?_⟩
    have known := accounts.mem_records ht
    rw [h.logPlace known, List.append_singleton_inj] at place
    obtain ⟨_, -, -, own⟩ := h.told known
    rw [place.2, told] at own
    exact (Option.some.inj (Except.ok.inj own)).symm
  · rintro ⟨⟨ht, drops⟩, rfl⟩
    refine ⟨ht, ?_, drops⟩
    rw [h.logPlace (accounts.mem_records ht), named]

/-- Loading again gives what was there before without the dropped backups. -/
theorem Reloadable.load_run (h : p.Reloadable s m) (accounts : p.Accounted s m today rep)
    (leaves : p.Leaves s m today) :
    ∃ u, State.load p.config (p.run s m).machine.tree = .ok u ∧
      u.shelves = s.shelves.map (·.without (p.dropped s m today)) := by
  obtain ⟨names, listed, all, -⟩ := State.load_eq_ok_iff.1 h.loaded
  obtain ⟨l, found, rfl⟩ := FileTree.list_eq_ok listed
  obtain ⟨rfl, found'⟩ :=
    FileTree.lookup_dir_of_dirs h.direct leaves.current leaves.dirs found true
  refine State.load_again h.loaded listed (FileTree.list_of_lookup found') (h.canonical _ listed)
    (fun name stays log => ?_) fun name hname b told => ?_
  · have here := ((leaves.mem_children log).1 stays).1
    obtain ⟨b, told⟩ := all name here
    exact ⟨here, leaves.entryOf h log (h.slashless _ listed _ here) stays told⟩
  · have log : LogFile.label? name ≠ none :=
      State.label?_ne_none_of_recorded (e := State.entryOf m.tree p.config.logs name) told
    have gone := h.drops_iff accounts listed hname told
    rw [leaves.mem_children log, ← gone, Bool.not_eq_true]
    exact and_iff_right hname

/-- What is dropped was removed, or it is lost. -/
theorem mem_dropped (b : Backup) : b ∈ p.dropped s m today ↔
    b ∈ (succeeded (p.tries s m today)).map Record.backup ++ p.lost s m today := by
  simp only [dropped, lost, succeeded, List.map_map, List.mem_append, List.mem_map,
    List.mem_filter, Function.comp_apply, ← exists_or]
  refine exists_congr fun t => ?_
  obtain ⟨t, o⟩ := t
  cases o with
  | ok => simp [Removal.drops, Except.isOk, Except.toBool]
  | error f => simp [Except.isOk, Except.toBool]

/-- What is left on the shelves in memory. -/
theorem Accounted.shelves (accounts : p.Accounted s m today rep)
    (shelved : State.Shelved s.volumes) : (p.run s m).state.shelves =
      s.shelves.map (·.without ((succeeded (p.tries s m today)).map Record.backup)) := by
  refine State.shelves_without shelved accounts.left fun r hr => ?_
  obtain ⟨t, ht, rfl⟩ := List.mem_map.1 hr
  exact accounts.mem_records (List.mem_of_mem_filter ht)

/-- What the logs tell after a pass is what is in memory, without what is lost. -/
theorem shelves_dropped (accounts : p.Accounted s m today rep)
    (shelved : State.Shelved s.volumes) :
    s.shelves.map (·.without (p.dropped s m today)) =
      (p.run s m).state.shelves.map (·.without (p.lost s m today)) := by
  rw [accounts.shelves shelved, List.map_map]
  refine List.map_congr_left fun x _ => ?_
  rw [Function.comp_apply, Shelf.without_without]
  exact Shelf.without_congr mem_dropped x

/-- What is lost is still in memory. -/
theorem exists_mem_shelves_of_lost (accounts : p.Accounted s m today rep)
    (shelved : State.Shelved s.volumes) {b : Backup} (hb : b ∈ p.lost s m today) :
    ∃ x ∈ (p.run s m).state.shelves, b ∈ x.backups := by
  obtain ⟨t, ht, rfl⟩ := List.mem_map.1 hb
  obtain ⟨ht, failed⟩ := List.mem_filter.1 ht
  obtain ⟨x, hx, here⟩ := State.exists_mem_shelves (accounts.mem_records ht)
  refine ⟨x.without ((succeeded (p.tries s m today)).map Record.backup), ?_, ?_⟩
  · rw [accounts.shelves shelved]
    exact List.mem_map_of_mem hx
  · refine List.mem_filter.2 ⟨here, decide_eq_true fun removed => ?_⟩
    obtain ⟨r, hr, same⟩ := List.mem_map.1 removed
    obtain ⟨u, hu, rfl⟩ := List.mem_map.1 hr
    obtain ⟨hu, succeeds⟩ := List.mem_filter.1 hu
    have record : u.1.2 = t.1.2 :=
      shelved.eq_of_backup (accounts.mem_records hu) (accounts.mem_records ht) same
    obtain rfl : u = t := List.inj_on_of_nodup_map accounts.once hu ht record
    simp [succeeds] at failed

/-- After a pass the logs tell what is in memory, without the backups that are lost. So they tell
the same exactly if none is. -/
theorem reloaded (h : p.Reloadable s m) (act : p.act = true)
    (reported : (p.run s m).report = .ok rep) : ∃ today u, p.today = .ok today ∧
      State.load p.config (p.run s m).machine.tree = .ok u ∧
      u.shelves = (p.run s m).state.shelves.map (·.without (p.lost s m today)) ∧
      (u.shelves = (p.run s m).state.shelves ↔ p.lost s m today = []) := by
  have built : s.Built := by
    obtain ⟨names, -, -, rfl⟩ := State.load_eq_ok_iff.1 h.loaded
    exact (State.Built.ofConfig p.config).fill _
  obtain ⟨today, day, accounts⟩ := exists_accounted built act reported
  have leaves := leaves_of_accounted h
    (fun t ht => h.reached today day t.1 (accounts.mem_targets ht))
    (fun k hk ⟨t, ht, below⟩ => h.apart today day t.1 (accounts.mem_targets ht) k hk below)
    accounts
  obtain ⟨u, loaded, shelves⟩ := h.load_run accounts leaves
  rw [shelves_dropped accounts built.shelved] at shelves
  refine ⟨today, u, day, loaded, shelves, ?_⟩
  rw [shelves]
  constructor
  -- What is lost stands on a shelf in memory, and on none that is loaded.
  · intro same
    refine List.eq_nil_iff_forall_not_mem.2 fun b hb => ?_
    obtain ⟨x, hx, here⟩ := exists_mem_shelves_of_lost accounts built.shelved hb
    have kept : x.without (p.lost s m today) = x :=
      List.map_inj_left.1 (same.trans (List.map_id _).symm) x hx
    exact Shelf.notMem_of_without_eq kept here hb
  · intro none
    simp [none, Shelf.without_nil]

end Reloadable

/-- Three logs, two of backups whose data is on the store `s`. -/
def threeLogs : FileTree where
  nodes := [(["s"], .dir), (["s", "h"], .dir), (["s", "h", "v"], .dir),
    (["s", "h", "v", "2024-01-01"], .dir), (["s", "h", "v", "2024-01-02"], .dir),
    (["logs"], .dir), (["logs", "2024-01-01-d-h-v.log"], .file .empty),
    (["logs", "2024-01-02-d-h-v.log"], .file .empty),
    (["logs", "2024-01-03-e-h-v.log"], .file "done\n".toUTF8)]
  current := []
  changes := []

/-- What these logs tell. -/
def threeBackups : State := (State.ofConfig emptied).fill
  [⟨⟨"h", "v", "d", ⟨2024, 1, 1⟩, 0⟩, 0⟩, ⟨⟨"h", "v", "d", ⟨2024, 1, 2⟩, 0⟩, 1⟩,
    ⟨⟨"h", "v", "e", ⟨2024, 1, 3⟩, 0⟩, 2⟩]

/-- A pass that finds no directory on one of two stores. -/
def unplaceable : Pass where
  config := emptied
  day := .given ⟨2024, 3, 5⟩
  runner := .scriptedRemoval fun _ => {}
  identify := fun _ device => if device = "d" then some "s" else some "missing"

theorem reloadable_threeBackups {p : Pass} (config : p.config = emptied)
    (confined : p.runner.Confined) (linkless : p.runner.Linkless)
    (apart : ∀ today, p.today = .ok today →
      ∀ t ∈ p.targets threeBackups (.ofTree threeLogs) today,
        ¬ (p.removal t).dataPlace [] <+: ["logs"]) :
    p.Reloadable threeBackups (.ofTree threeLogs) := by
  have along : ∀ k ∈ Path.along [] emptied.logs, k = ["logs"] := by decide
  have lists : ((Machine.ofTree threeLogs).tree.list emptied.logs).toOption =
      some ["2024-01-01-d-h-v.log", "2024-01-02-d-h-v.log", "2024-01-03-e-h-v.log"] := by
    decide +kernel
  have loads : (State.load emptied threeLogs).toOption = some threeBackups := by decide +kernel
  have free : threeLogs.Linkless := FileTree.linkless_of_all (by decide)
  refine ⟨?_, ?_, ?_, confined, linkless, free.direct _, fun _ => free _,
    fun _ _ t _ => (p.removal t).direct_of_linkless free, ?_⟩
  · rw [config]
    exact eq_ok_of_toOption loads
  · rw [config]
    intro names listed
    rw [listed] at lists
    obtain rfl := Option.some.inj lists
    decide
  · rw [config]
    intro names listed
    rw [listed] at lists
    obtain rfl := Option.some.inj lists
    decide +kernel
  · intro today day t ht k hk
    rw [config] at hk
    obtain rfl := along k hk
    exact apart today day t ht

/-- One removal fails before the log is gone, and the logs tell what is in memory. -/
theorem reloaded_unplaceable :
    unplaceable.Reloadable threeBackups (.ofTree threeLogs) ∧ unplaceable.act = true ∧
      (unplaceable.run threeBackups (.ofTree threeLogs)).report = .ok ⟨3, 2, 1, 0⟩ ∧
      ∃ u, State.load emptied (unplaceable.run threeBackups (.ofTree threeLogs)).machine.tree =
          .ok u ∧
        u.shelves = (unplaceable.run threeBackups (.ofTree threeLogs)).state.shelves := by
  have reloadable : unplaceable.Reloadable threeBackups (.ofTree threeLogs) := by
    refine reloadable_threeBackups rfl (Runner.confined_scriptedRemoval fun _ => rfl)
      (Runner.linkless_scriptedRemoval _) fun today day => ?_
    obtain rfl : ⟨2024, 3, 5⟩ = today := Except.ok.inj day
    decide +kernel
  have succeeds : (unplaceable.run threeBackups (.ofTree threeLogs)).report.toOption =
      some ⟨3, 2, 1, 0⟩ := by decide +kernel
  have reported := eq_ok_of_toOption succeeds
  obtain ⟨today, u, day, loaded, -, agree⟩ := reloaded reloadable rfl reported
  obtain rfl : ⟨2024, 3, 5⟩ = today := Except.ok.inj day
  exact ⟨reloadable, rfl, reported, u, loaded, agree.2 (by decide +kernel)⟩

/-- If the data cannot be removed, the backup is in memory, but no log tells of it any more. -/
theorem not_reloaded_lost :
    mixed.Reloadable threeBackups (.ofTree threeLogs) ∧ mixed.act = true ∧
      (mixed.run threeBackups (.ofTree threeLogs)).report = .ok ⟨3, 1, 1, 1⟩ ∧
      ∃ u, State.load emptied (mixed.run threeBackups (.ofTree threeLogs)).machine.tree = .ok u ∧
        u.shelves = [⟨"h", "v", [⟨"h", "v", "e", ⟨2024, 1, 3⟩, 0⟩]⟩] ∧
        (mixed.run threeBackups (.ofTree threeLogs)).state.shelves =
          [⟨"h", "v", [⟨"h", "v", "d", ⟨2024, 1, 1⟩, 0⟩, ⟨"h", "v", "e", ⟨2024, 1, 3⟩, 0⟩]⟩] := by
  have reloadable : mixed.Reloadable threeBackups (.ofTree threeLogs) := by
    refine reloadable_threeBackups rfl (Runner.confined_scriptedRemoval fun path => ?_)
      (Runner.linkless_scriptedRemoval _) fun today day => ?_
    · split <;> rfl
    · obtain rfl : ⟨2024, 3, 5⟩ = today := Except.ok.inj day
      decide +kernel
  have succeeds : (mixed.run threeBackups (.ofTree threeLogs)).report.toOption =
      some ⟨3, 1, 1, 1⟩ := by decide +kernel
  have loads : (State.load emptied
      (mixed.run threeBackups (.ofTree threeLogs)).machine.tree).toOption =
        some ((State.ofConfig emptied).fill [⟨⟨"h", "v", "e", ⟨2024, 1, 3⟩, 0⟩, 0⟩]) := by
    decide +kernel
  exact ⟨reloadable, rfl, eq_ok_of_toOption succeeds, _, eq_ok_of_toOption loads,
    by decide +kernel, by decide +kernel⟩

end Pass

end BackupRetention
