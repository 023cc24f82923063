import BackupRetention.Proofs.Prune.Agreement
import BackupRetention.Proofs.Prune.Failures
import BackupRetention.Proofs.Prune.Places

/-!
# What a pass leaves alone

A pass changes files at most at the places of the backups that it tries to remove, and where prune
logs are. All other backups stay as they are. A runner may even put links where it was to remove
data: no other path leads through there, unless it goes back on its way.

## Main definitions

* `FileTree.Within`: what has changed, and where there may be new links.
* `Removal.Blocks`: the runner may put a link on the way of a path.
* `Pass.Orderly`: what is relied on.
* `FileTree.Keeps`: a place is as it was, with all below and all above.

## Main results

* `Pass.Course.within`: the removals of a pass.
* `Pass.Orderly.agreesOff_run`: a whole pass.
* `Pass.keeps_unselected`: backups that are not selected.
-/

namespace BackupRetention

namespace FileTree

variable {changed more linked away : Location → Prop} {t u v : FileTree}

/-- Nothing has changed but at places in `changed`, and there are no new links but at places in
`linked`. -/
structure Within (changed linked : Location → Prop) (t u : FileTree) : Prop where
  off : AgreesOff changed t u
  links : ∀ k target, ¬ linked k →
    u.node? k = some (.link target) → t.node? k = some (.link target)

theorem Within.refl (t : FileTree) : Within changed linked t t :=
  ⟨.refl changed t, fun _ _ _ link => link⟩

theorem Within.trans (h : Within changed linked t u) (g : Within changed linked u v) :
    Within changed linked t v :=
  ⟨h.off.trans g.off, fun k target hk link => h.links k target hk (g.links k target hk link)⟩

theorem Within.mono (h : Within changed linked t u) (hc : ∀ k, changed k → more k)
    (hl : ∀ k, linked k → away k) : Within more away t u :=
  ⟨h.off.mono hc, fun k target hk => h.links k target fun here => hk (hl k here)⟩

theorem Frame.within {gone : Location → Prop} (h : Frame changed gone t u) :
    Within changed linked t u :=
  ⟨h.off, fun k target _ => h.links k target⟩

theorem Alters.within {l : Location} (h : Alters l t u) (hc : changed l) :
    Within changed linked t u :=
  ⟨h.off.mono fun _ hk => hk ▸ hc, fun k target _ => h.links k target⟩

/-- What is at `l`, below it and on the way to it is as it was. -/
def Keeps (t : FileTree) (l : Location) (u : FileTree) : Prop :=
  u.current = t.current ∧ ∀ k, k <+: l ∨ l <+: k → u.node? k = t.node? k

theorem Keeps.of_agreesOff {l : Location} (off : AgreesOff changed t u)
    (apart : ∀ k, changed k → ∃ c : Location, c <+: k ∧ c.Apart l) : t.Keeps l u := by
  refine ⟨off.1, fun k near => off.2 k fun change => ?_⟩
  obtain ⟨c, below, away⟩ := apart k change
  exact away.not_below near below

/-- A way without links stays so if no new links come to be on it. -/
theorem Direct.within {path : String} (h : t.Direct path) (within : Within changed linked t u)
    (ways : ∀ k ∈ Path.along t.current path, ¬ linked k) : u.Direct path := by
  rw [Direct, within.off.1]
  exact fun k hk target link => h k hk target (within.links k target (ways k hk) link)

end FileTree

/-! ## One removal -/

namespace Removal

variable {runner : Runner} {x : Removal} {m one two : Machine}

/-- Where the runner may put links. -/
def links (runner : Runner) (x : Removal) (start k : Location) : Prop :=
  ¬ runner.Linkless ∧ x.dataPlace start <+: k

/-- The runner may put a link on the way of a path. -/
def Blocks (runner : Runner) (x : Removal) (start : Location) (path : String) : Prop :=
  ∃ k ∈ Path.along start path, x.links runner start k

/-- What leads straight to another place is not blocked. -/
theorem not_blocks {start : Location} {path : String}
    (calm : runner.Linkless ∨ ".." ∉ Path.names path)
    (apart : ¬ x.dataPlace start <+: Path.locate start path) :
    ¬ x.Blocks runner start path := by
  rintro ⟨k, hk, linking, below⟩
  rcases calm with linkless | straight
  · exact linking linkless
  · exact apart (below.trans (Path.prefix_of_mem_along straight hk))

section Run

variable (confined : runner.Confined) (direct : x.Direct m.tree)

include confined direct

/-- Up to the removal of the data, whatever comes of it. -/
theorem within_removeData (placed : x.Placed m one) (dropped : x.Dropped one two) :
    FileTree.Within (x.touches m.tree.current) (x.links runner m.tree.current) m.tree
      (x.removeData runner two).2.tree := by
  have current : one.tree.current = m.tree.current := placed.alters.off.1
  have current' : two.tree.current = m.tree.current := dropped.alters.off.1.trans current
  refine (placed.alters.within (.inl rfl)).trans
    ((dropped.alters.within (.inr (.inl (by rw [current])))).trans ?_)
  have off := agreesOff_removeData confined ((direct.placed placed).dropped dropped)
  rw [current'] at off
  refine ⟨off.mono fun k hk => .inr (.inr hk), fun k target unlinked link => ?_⟩
  by_cases linkless : runner.Linkless
  · rw [tree_removeData] at link
    exact linkless _ _ k target link
  · rwa [off.2 k fun below => unlinked ⟨linkless, below⟩] at link

/-- A removal changes its sentinel, its log and its data, and links come to be where the data was
at most. -/
theorem within_run (own : ¬ x.Blocks runner m.tree.current x.sentinelPath) :
    FileTree.Within (x.touches m.tree.current) (x.links runner m.tree.current) m.tree
      (x.run runner m).2.tree := by
  have ends := ends_run runner x direct
  generalize (x.run runner m).1 = o at ends
  generalize (x.run runner m).2 = n at ends ⊢
  cases ends with
  | unplaced e => exact .refl _
  | undropped e one placed => exact placed.alters.within (.inl rfl)
  | unremoved f one two placed dropped => exact within_removeData confined direct placed dropped
  | done one two placed dropped =>
    have removed := within_removeData confined direct placed dropped
    refine removed.trans ?_
    have reached : (x.removeData runner two).2.tree.Direct x.sentinelPath :=
      direct.sentinel.within removed fun k hk link => own ⟨k, hk, link⟩
    have clear := FileTree.frame_unlink (x.touches m.tree.current) (fun _ => False) reached
      x.endsIn_sentinelPath (.inl (by rw [removed.off.1]; rfl))
    unfold clearSentinel
    generalize (x.removeData runner two).2 = three at clear ⊢
    generalize three.tree.unlink x.sentinelPath = unlinked at clear ⊢
    exact clear.within

end Run

end Removal

/-! ## All removals -/

namespace Pass

variable {p : Pass} {s : State} {m : Machine} {today : Date} {log : PruneLog}
  {tries notes : List (Target × Outcome)}

/-- Where the runner may put links in these tries. -/
def Links (p : Pass) (start : Location) (tries : List (Target × Outcome)) (k : Location) : Prop :=
  ∃ t ∈ tries, (p.removal t.1).links p.runner start k

/-- No try is blocked by one before it, nor the end of a try by its own data. -/
structure Unblocked (p : Pass) (start : Location) (tries : List (Target × Outcome)) : Prop where
  before : tries.Pairwise fun t u => ∀ path ∈ (p.removal u.1).paths,
    ¬ (p.removal t.1).Blocks p.runner start path
  own : ∀ t ∈ tries, ¬ (p.removal t.1).Blocks p.runner start (p.removal t.1).sentinelPath

/-- What the removals of a pass change. -/
theorem Course.within {site : Site} (course : Course p log m tries notes site)
    (confined : p.runner.Confined) (linkless : m.tree.Linkless)
    (unblocked : p.Unblocked m.tree.current tries) :
    FileTree.Within (fun k => k = log.place ∨ p.Touches m.tree.current tries k)
      (p.Links m.tree.current tries) m.tree site.machine.tree := by
  induction course with
  | start => exact .refl _
  | @attempt t tries notes s _ ih =>
    obtain ⟨before, -, across⟩ := List.pairwise_append.1 unblocked.before
    have ih := ih ⟨before, fun u hu => unblocked.own u (List.mem_append_left _ hu)⟩
    have own := unblocked.own _ (List.mem_append_right _ List.mem_cons_self)
    have reached : ∀ path ∈ (p.removal t).paths, s.machine.tree.Direct path := by
      refine fun path hpath => (linkless.direct path).within ih ?_
      rintro k hk ⟨u, hu, links⟩
      exact across u hu _ List.mem_cons_self path hpath ⟨k, hk, links⟩
    have direct : (p.removal t).Direct s.machine.tree :=
      ⟨reached _ (by simp [Removal.paths]), reached _ (by simp [Removal.paths]),
        reached _ (by simp [Removal.paths])⟩
    have run := Removal.within_run confined direct (by rw [ih.off.1]; exact own)
    rw [ih.off.1] at run
    rw [machine_removalJob]
    have last : (t, (removalJob p.runner (p.removal t) s).1) ∈
        tries ++ [(t, (removalJob p.runner (p.removal t) s).1)] :=
      List.mem_append_right _ List.mem_cons_self
    refine (ih.mono ?_ ?_).trans
      (run.mono (fun k touches => .inr ⟨_, last, touches⟩) fun k links => ⟨_, last, links⟩)
    · rintro k (own | ⟨u, hu, touches⟩)
      · exact .inl own
      · exact .inr ⟨u, List.mem_append_left _ hu, touches⟩
    · rintro k ⟨u, hu, links⟩
      exact ⟨u, List.mem_append_left _ hu, links⟩
  | @note t o _ _ s _ _ ih =>
    have settled := frame_settle (fun _ => False) s (p.refused? s) log t.2 (p.removal t).dataPath o
    exact (ih unblocked).trans (settled.within.mono (fun k => .inl) fun k => id)

/-! ## A whole pass -/

/-- What is relied on: there are no links, names can stand in names of files, devices have stores of
their own that have nothing to do with each other or with the logs, and the runner keeps to the
data. If it makes links there, no path goes back on its way. -/
structure Orderly (p : Pass) (s : State) (m : Machine) : Prop where
  linkless : m.tree.Linkless
  named : ∀ r ∈ s.records, r.backup.Named
  stores : ∀ d e S T, p.identify m.tree d = some S → p.identify m.tree e = some T → d ≠ e →
    ¬ Path.locate m.tree.current S <+: Path.locate m.tree.current T
  logs : ∀ d S, p.identify m.tree d = some S →
    (Path.locate m.tree.current S).Apart (Path.locate m.tree.current p.config.logs)
  confined : p.runner.Confined
  calm : p.runner.Linkless ∨ (".." ∉ Path.names p.config.logs ∧
    ∀ d S, p.identify m.tree d = some S → ".." ∉ Path.names S)

/-- A record of the state with the store of its device. -/
def Stored (p : Pass) (s : State) (m : Machine) (t : Target) : Prop :=
  t.2 ∈ s.records ∧ p.identify m.tree t.2.device = some t.1

theorem stored_of_mem_targets {t : Target} (ht : t ∈ p.targets s m today) : p.Stored s m t := by
  obtain ⟨selected, located⟩ := mem_located.1 ht
  exact ⟨(s.selected_sublist p.mode today).subset selected, located⟩

theorem stored_of_mem_tries (tried : ((p.tries s m today).map Prod.fst).Perm (p.targets s m today))
    {t : Target × Outcome} (ht : t ∈ p.tries s m today) : p.Stored s m t.1 :=
  stored_of_mem_targets (tried.subset (List.mem_map_of_mem ht))

namespace Orderly

variable {t u : Target} {r : Record} {c : Location}

section Apart

variable (h : p.Orderly s m) (built : s.Built) (ht : p.Stored s m t)

include h ht

/-- Data is apart from all that is where the logs are. -/
theorem data_apart_logs (rest : Location) : ((p.removal t).dataPlace m.tree.current).Apart
    (Path.locate m.tree.current p.config.logs ++ rest) := by
  rw [Removal.dataPlace_eq, Removal.locate_volumePath (h.named _ ht.1), List.append_assoc]
  exact (h.logs _ _ ht.2).append _ _

/-- Prune logs are apart from what belongs to backups. -/
theorem pruneLog_apart (hc : c ∈ (p.removal t).places m.tree.current) (text : String) :
    Location.Apart (Path.locate m.tree.current p.config.logs ++ [PruneLog.namePrefix ++ text])
      c := by
  rcases (Removal.mem_places (h.named _ ht.1)).1 hc with ⟨way, -, rfl⟩ | rfl
  · exact (h.logs _ _ ht.2).symm.append _ _
  · exact PruneLog.apart_logName _ _ text

include built

theorem apart_log (hr : r ∈ s.records) (other : t.2 ≠ r)
    (hc : c ∈ (p.removal t).places m.tree.current) :
    c.Apart (Path.locate m.tree.current p.config.logs ++ [r.backup.logName]) :=
  Removal.apart_log (x := p.removal t) (h.named _ ht.1) (h.named _ hr)
    (fun alike => other (built.shelved.eq_of_alike ht.1 hr alike)) (h.logs _ _ ht.2) hc

theorem apart_way (hu : p.Stored s m u) (other : t.2 ≠ u.2) {way : Location}
    (hway : way ∈ u.2.backup.ways) (hc : c ∈ (p.removal t).places m.tree.current) :
    c.Apart (Path.locate m.tree.current u.1 ++ way) := by
  refine Removal.apart_way (x := p.removal t) (h.named _ ht.1)
    (fun alike => other (built.shelved.eq_of_alike ht.1 hu.1 alike)) (h.logs _ _ hu.2) ?_ hway hc
  by_cases device : t.2.device = u.2.device
  · have same := ht.2
    rw [device, hu.2] at same
    exact .inl ⟨device, (Option.some.inj same).symm⟩
  · exact .inr ⟨h.stores _ _ _ _ ht.2 hu.2 device, h.stores _ _ _ _ hu.2 ht.2 (Ne.symm device)⟩

/-- What belongs to different records is apart. -/
theorem apart (hu : p.Stored s m u) (other : t.2 ≠ u.2)
    (hc : c ∈ (p.removal t).places m.tree.current) {k : Location}
    (hk : k ∈ (p.removal u).places m.tree.current) : c.Apart k := by
  rcases (Removal.mem_places (h.named _ hu.1)).1 hk with ⟨way, hway, rfl⟩ | rfl
  · exact h.apart_way built ht hu other hway hc
  · exact h.apart_log built ht hu.1 other hc

end Apart

section Run

variable (h : p.Orderly s m) (built : s.Built)

include h

/-- Only what belongs to the backup itself can be blocked by its removal. -/
theorem not_blocks (hu : p.Stored s m u) {path : String} (hpath : path ∈ (p.removal u).paths)
    (apart : ¬ (p.removal t).dataPlace m.tree.current <+: Path.locate m.tree.current path) :
    ¬ (p.removal t).Blocks p.runner m.tree.current path := by
  refine Removal.not_blocks (h.calm.imp_right fun ⟨logs, stores⟩ => ?_) apart
  exact Removal.straight_of_mem_paths (x := p.removal u) (h.named _ hu.1) (stores _ _ hu.2) logs
    path hpath

/-- The logs can still be reached when links are at most where data was. -/
theorem logs_reached {changed : Location → Prop} {u : FileTree}
    (within : FileTree.Within changed (p.Links m.tree.current tries) m.tree u)
    (stored : ∀ t ∈ tries, p.Stored s m t.1) : u.Direct p.config.logs ∧ ∀ name target,
      u.node? (Path.locate u.current p.config.logs ++ [name]) ≠ some (.link target) := by
  constructor
  · refine (h.linkless.direct _).within within fun k hk ⟨t, ht, links⟩ => ?_
    refine Removal.not_blocks (h.calm.imp_right And.left) ?_ ⟨k, hk, links⟩
    simpa using (h.data_apart_logs (stored t ht) []).1
  · intro name target link
    rw [within.off.1] at link
    refine h.linkless _ target (within.links _ target ?_ link)
    rintro ⟨t, ht, -, below⟩
    exact (h.data_apart_logs (stored t ht) [name]).1 below

include built

theorem unblocked (tried : ((p.tries s m today).map Prod.fst).Perm (p.targets s m today)) :
    p.Unblocked m.tree.current (p.tries s m today) := by
  have stored := fun t ht => stored_of_mem_tries (t := t) tried ht
  have once : ((p.tries s m today).map fun t => t.1.2).Nodup := by
    have records := tried.map Prod.snd
    rw [List.map_map, map_targets] at records
    exact records.nodup_iff.2 ((nodup_selected built).filter _)
  refine ⟨(List.pairwise_map.1 once).imp_of_mem fun {t u} ht hu other path hpath => ?_, ?_⟩
  · refine h.not_blocks (stored u hu) hpath fun below => ?_
    exact (h.apart built (stored t ht) (stored u hu) other (c := (p.removal t.1).dataPlace _)
      (by simp [Removal.places, Removal.paths, Removal.dataPlace])
      (List.mem_map_of_mem hpath)).1 below
  · exact fun t ht => h.not_blocks (stored t ht) (by simp [Removal.paths])
      ((p.removal t.1).not_dataPlace_prefix_sentinelPlace _)

/-- What a pass changes: what belongs to the backups that it tries to remove, and prune logs. -/
theorem agreesOff_run (finishes : p.Finishes s m today) : FileTree.AgreesOff (fun k =>
      (∃ text, k = Path.locate m.tree.current p.config.logs ++ [PruneLog.namePrefix ++ text]) ∨
        p.Touches m.tree.current (p.tries s m today) k)
    m.tree (p.run s m).machine.tree := by
  have unblocked := h.unblocked built finishes.tried
  obtain ⟨log, tree, notes, site, opened, course, -, machine, -⟩ := finishes.carriedOut
  obtain ⟨place, alters⟩ := PruneLog.alters_of_openFor opened (h.linkless.direct _)
  have start : tree.current = m.tree.current := alters.off.1
  have within := course.within h.confined
    (fun k target link => h.linkless k target (alters.links k target link))
    (by rw [start]; exact unblocked)
  dsimp only at within
  rw [start] at within
  have whole := (alters.within (.inl rfl)).trans within
  obtain ⟨reached, unlinked⟩ :=
    h.logs_reached whole fun t ht => stored_of_mem_tries finishes.tried ht
  have expired := PruneLog.frame_expire (fun _ => False) reached unlinked today
    p.config.keepPruneLogs
  rw [whole.off.1] at expired
  rw [machine]
  refine (whole.off.mono fun k hk => ?_).trans (expired.off.mono fun k ⟨text, hk⟩ => ?_)
  · refine hk.imp_left fun here => ⟨today.text ++ PruneLog.nameEnding, ?_⟩
    rw [here, place, PruneLog.pathFor,
      Path.locate_join_of_plain _ _ (PruneLog.isPlain_fileName today), PruneLog.fileName,
      String.append_assoc]
  · exact .inl ⟨text ++ PruneLog.nameEnding, by rw [hk, String.append_assoc]⟩

/-- What is apart from prune logs and from all that is handed over for removal is as it was. -/
theorem keeps_run {l : Location} (pruneLogs : ∀ text, Location.Apart
      (Path.locate m.tree.current p.config.logs ++ [PruneLog.namePrefix ++ text]) l)
    (others : ∀ today, p.today = .ok today → ∀ t ∈ p.targets s m today,
      ∀ c ∈ (p.removal t).places m.tree.current, c.Apart l) :
    m.tree.Keeps l (p.run s m).machine.tree := by
  rcases p.machine_run_cases s m with same | ⟨today, day, finishes⟩
  · rw [same]
    exact ⟨rfl, fun _ _ => rfl⟩
  · refine .of_agreesOff (h.agreesOff_run built finishes) ?_
    rintro k (⟨text, rfl⟩ | ⟨t, ht, touches⟩)
    · exact ⟨_, List.prefix_refl _, pruneLogs text⟩
    · obtain ⟨c, hc, below⟩ := Removal.exists_below_of_touches touches
      exact ⟨c, below, others today day _ (finishes.tried.subset (List.mem_map_of_mem ht)) c hc⟩

end Run

end Orderly

/-- A pass does not select the record. -/
def PassesOver (p : Pass) (s : State) (r : Record) : Prop :=
  ∀ today, p.today = .ok today → r ∉ p.selected s today

/-- A pass leaves the log, the sentinel and the data of every backup alone that it does not select,
and the log of every backup whose device is not available. -/
theorem keeps_unselected (h : p.Orderly s m) (built : s.Built) {r : Record} (hr : r ∈ s.records) :
    (p.PassesOver s r ∨ p.identify m.tree r.device = none →
      m.tree.Keeps (Path.locate m.tree.current (r.backup.logPath p.config.logs))
        (p.run s m).machine.tree) ∧
    (p.PassesOver s r → ∀ store, p.identify m.tree r.device = some store →
      m.tree.Keeps (Path.locate m.tree.current (r.backup.sentinelPath store))
          (p.run s m).machine.tree ∧
        m.tree.Keeps (Path.locate m.tree.current (r.backup.dataPath store))
          (p.run s m).machine.tree) := by
  have other {today : Date} {t : Target} (passed : p.PassesOver s r) (day : p.today = .ok today)
      (ht : t ∈ p.targets s m today) : t.2 ≠ r := by
    rintro rfl
    exact passed today day (mem_located.1 ht).1
  constructor
  · intro alone
    rw [Backup.logPath, Path.locate_join_of_plain _ _ (h.named r hr).flat.isPlain_logName]
    refine h.keeps_run built (PruneLog.apart_logName _ r.backup) fun today day t ht c hc => ?_
    refine h.apart_log built (stored_of_mem_targets ht) hr ?_ hc
    rcases alone with passed | missing
    · exact other passed day ht
    · rintro rfl
      rw [(mem_located.1 ht).2] at missing
      cases missing
  · intro passed store located
    have stored : p.Stored s m (store, r) := ⟨hr, located⟩
    have keeps : ∀ path ∈ (p.removal (store, r)).paths,
        m.tree.Keeps (Path.locate m.tree.current path) (p.run s m).machine.tree := by
      intro path hpath
      have place := List.mem_map_of_mem hpath (f := Path.locate m.tree.current)
      refine h.keeps_run built (h.pruneLog_apart stored place) fun today day t ht c hc => ?_
      exact h.apart built (stored_of_mem_targets ht) stored (other passed day ht) hc place
    exact ⟨keeps _ List.mem_cons_self,
      keeps _ (List.mem_cons_of_mem _ (List.mem_cons_of_mem _ List.mem_cons_self))⟩

/-- The latest backup is to be kept. -/
def oneKept : Config where
  logs := "logs"
  hosts := [("h", { volumes := [("v", { path := "/", pruneAge := 0, minBackups := 1 })] })]

def newer : Record := ⟨⟨"h", "v", "d", ⟨2024, 1, 2⟩, 0⟩, 1⟩

/-- Two backups that differ in the day only. -/
def twoDays : State := (State.ofConfig oneKept).fill [⟨⟨"h", "v", "d", ⟨2024, 1, 1⟩, 0⟩, 0⟩, newer]

/-- Their data and their logs, and a prune log that expires. -/
def sharedStore : FileTree where
  nodes := [(["s"], .dir), (["s", "h"], .dir), (["s", "h", "v"], .dir),
    (["s", "h", "v", "2024-01-01"], .dir), (["s", "h", "v", "2024-01-02"], .dir), (["logs"], .dir),
    (["logs", "2024-01-01-d-h-v.log"], .file .empty),
    (["logs", "2024-01-02-d-h-v.log"], .file .empty),
    (["logs", "prune-2023-01-01.log"], .file .empty)]
  current := []
  changes := []

def selective : Pass where
  config := oneKept
  day := .given ⟨2024, 3, 5⟩
  runner := .scriptedRemoval fun _ => {}
  identify := fun _ device => if device = "d" then some "s" else none

/-- The earlier backup is removed, the later one is as it was. -/
theorem keeps_newer :
    selective.Orderly twoDays (.ofTree sharedStore) ∧ twoDays.Built ∧ newer ∈ twoDays.records ∧
      selective.PassesOver twoDays newer ∧
      (selective.run twoDays (.ofTree sharedStore)).report = .ok ⟨1, 1, 0, 0⟩ ∧
      sharedStore.Keeps ["logs", "2024-01-02-d-h-v.log"]
        (selective.run twoDays (.ofTree sharedStore)).machine.tree ∧
      sharedStore.Keeps ["s", "h", "v", "2024-01-02.incomplete"]
        (selective.run twoDays (.ofTree sharedStore)).machine.tree ∧
      sharedStore.Keeps ["s", "h", "v", "2024-01-02"]
        (selective.run twoDays (.ofTree sharedStore)).machine.tree := by
  have located {d store : String}
      (found : selective.identify sharedStore d = some store) : d = "d" ∧ store = "s" := by
    simp only [selective] at found
    grind
  have orderly : selective.Orderly twoDays (.ofTree sharedStore) := by
    refine ⟨FileTree.linkless_of_all (by decide), by decide +kernel, ?_, ?_,
      Runner.confined_scriptedRemoval fun _ => rfl, .inl (Runner.linkless_scriptedRemoval _)⟩
    · intro d e S T hS hT other
      exact absurd ((located hS).1.trans (located hT).1.symm) other
    · intro d S hS
      obtain ⟨-, rfl⟩ := located hS
      exact ⟨by decide, by decide⟩
  have built : twoDays.Built := (State.Built.ofConfig oneKept).fill _
  have known : newer ∈ twoDays.records := by decide +kernel
  have passed : selective.PassesOver twoDays newer := by
    intro today day
    obtain rfl : ⟨2024, 3, 5⟩ = today := Except.ok.inj day
    decide +kernel
  have succeeds : (selective.run twoDays (.ofTree sharedStore)).report.toOption =
      some ⟨1, 1, 0, 0⟩ := by decide +kernel
  obtain ⟨log, store⟩ := keeps_unselected orderly built known
  obtain ⟨sentinel, data⟩ := store passed "s" rfl
  exact ⟨orderly, built, known, passed, eq_ok_of_toOption succeeds, log (.inl passed), sentinel,
    data⟩

end Pass

end BackupRetention
