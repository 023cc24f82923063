import BackupRetention.Proofs.Calendar.Text
import BackupRetention.Proofs.Files.Changes
import BackupRetention.Programs.Scripted
import BackupRetention.Prune.Removal

/-!
# Steps of a removal

Where the data, the sentinel and the log of a backup are, and what each step of a removal
does to the files in a tree without links.

## Main definitions

* `Runner.Confined`: a runner that keeps to the tree that it is to remove.
* `Removal.dataPlace`, `Removal.sentinelPlace`, `Removal.logPlace`: the places of a backup.

## Main results

* `Removal.placed_of_placeSentinel`, `Removal.dropped_of_dropLog`, `Removal.agreesOff_removeData`:
  the steps one by one.
-/

namespace BackupRetention

/-! ## Runners -/

/-- The runner changes nothing but what it is told to remove. -/
def Runner.Confined (runner : Runner) : Prop :=
  ∀ path t, FileTree.AgreesOff (t.Covers path) t (runner (removeTree path) t).2

/-- A script that removes nothing else keeps to what it is told to remove. -/
theorem Runner.confined_scriptedRemoval {script : String → ScriptedAnswer}
    (h : ∀ path, (script path).alsoRemove = []) : (scriptedRemoval script).Confined := by
  intro path t
  simp only [scriptedRemoval, scripted, removeTree, List.getElem?_cons_succ,
    List.getElem?_cons_zero, h, List.foldl_nil]
  cases (script path).outcome with
  | some outcome => exact .refl _ t
  | none => exact FileTree.agreesOff_removeAll t path

namespace Removal

variable (x : Removal)

/-! ## Places -/

/-- The directory with the data of all backups of the volume. -/
def volumePath : String :=
  Path.join (Path.join x.store x.backup.host) x.backup.volume

def dataPlace (start : Location) : Location := Path.locate start x.dataPath

def sentinelPlace (start : Location) : Location := Path.locate start x.sentinelPath

def logPlace (start : Location) : Location := Path.locate start x.logPath

theorem sentinelPath_eq :
    x.sentinelPath = Path.join x.volumePath (x.backup.date.text ++ Backup.sentinelSuffix) :=
  Path.join_append _ x.backup.date.isPlain_text.nonempty _

theorem isPlain_sentinel : Path.IsPlain (x.backup.date.text ++ Backup.sentinelSuffix) :=
  x.backup.date.isPlain_text_append (by decide)

theorem endsIn_dataPath : Path.EndsIn x.dataPath x.backup.date.text :=
  Path.endsIn_join_of_plain _ x.backup.date.isPlain_text

theorem endsIn_sentinelPath :
    Path.EndsIn x.sentinelPath (x.backup.date.text ++ Backup.sentinelSuffix) :=
  x.sentinelPath_eq ▸ Path.endsIn_join_of_plain _ x.isPlain_sentinel

theorem dataPlace_eq (start : Location) :
    x.dataPlace start = Path.locate start x.volumePath ++ [x.backup.date.text] :=
  Path.locate_join_of_plain start _ x.backup.date.isPlain_text

theorem sentinelPlace_eq (start : Location) : x.sentinelPlace start =
    Path.locate start x.volumePath ++ [x.backup.date.text ++ Backup.sentinelSuffix] := by
  rw [sentinelPlace, sentinelPath_eq]
  exact Path.locate_join_of_plain start _ x.isPlain_sentinel

theorem logPlace_eq (plain : Path.IsPlain x.backup.logName) (start : Location) :
    x.logPlace start = Path.locate start x.logs ++ [x.backup.logName] := by
  rw [logPlace, logPath, Backup.logPath, Path.locate_join_of_plain start x.logs plain]

/-- The name of a log ends in `.log`, whatever else is in it. -/
theorem exists_endsIn_logPath : ∃ start, Path.EndsIn x.logPath (start ++ ".log") := by
  have relative : Path.isAbsolute x.backup.logName = false := by
    have date := x.backup.date.isPlain_text
    simp only [Backup.logName, String.append_assoc]
    rw [Path.isAbsolute_append date.nonempty, Path.isAbsolute_of_noSlash date.noSlash]
  obtain ⟨front, h⟩ : ∃ front, x.logPath = front ++ ".log" := by
    rcases Path.join_cases x.logs relative with ⟨-, hj⟩ | ⟨start, -, hj⟩ | ⟨-, hj⟩
    · exact ⟨_, hj⟩
    · exact ⟨_, hj.trans (String.append_assoc ..).symm⟩
    · exact ⟨_, hj.trans (String.append_assoc ..).symm⟩
  rw [h]
  exact Path.exists_endsIn_append front (by decide) (by decide)

theorem sentinelPlace_ne_logPlace (start : Location) :
    x.sentinelPlace start ≠ x.logPlace start := by
  intro same
  obtain ⟨front, log⟩ := x.exists_endsIn_logPath
  have names := x.endsIn_sentinelPath.getLast?_locate start
  rw [← sentinelPlace, same, logPlace, log.getLast?_locate] at names
  have letters := congrArg (fun s : String => s.toList.getLast?) (Option.some.inj names)
  simp [Backup.sentinelSuffix, List.getLast?_append] at letters

/-- The sentinel stands beside the data. -/
theorem not_dataPlace_prefix_sentinelPlace (start : Location) :
    ¬ x.dataPlace start <+: x.sentinelPlace start := by
  rw [dataPlace_eq, sentinelPlace_eq, List.prefix_append_right_inj, List.cons_prefix_cons]
  rintro ⟨same, -⟩
  have length := congrArg (fun s : String => s.toList.length) same
  simp [Backup.sentinelSuffix] at length

/-- There are no links on the ways to what belongs to the backup. -/
structure Direct (t : FileTree) : Prop where
  sentinel : t.Direct x.sentinelPath
  log : t.Direct x.logPath
  data : t.Direct x.dataPath

theorem direct_of_linkless {t : FileTree} (h : t.Linkless) : x.Direct t :=
  ⟨h.direct _, h.direct _, h.direct _⟩

/-! ## Steps -/

variable {x} {m n : Machine} {runner : Runner}

theorem placeSentinel_cases (x : Removal) (m : Machine) :
    (∃ e, x.placeSentinel m = (.error (.during (creating x.sentinelPath) (.io e)), m)) ∨
      ∃ l u, m.tree.touch x.sentinelPath = (.ok l, u) ∧
        x.placeSentinel m = (.ok (), { m with tree := u }) := by
  unfold placeSentinel
  rcases FileTree.touch_cases m.tree x.sentinelPath with ⟨e, h⟩ | ⟨l, _, -, -, h⟩ | ⟨l, -, h⟩
  · exact .inl ⟨e, by rw [h]⟩
  · exact .inr ⟨l, _, h, by rw [h]⟩
  · exact .inr ⟨l, _, h, by rw [h]⟩

theorem dropLog_cases (x : Removal) (m : Machine) :
    (∃ e, x.dropLog m = (.error (.during (removing x.logPath) (.io e)), m)) ∨
      ∃ u, m.tree.unlink x.logPath = (.ok (), u) ∧
        x.dropLog m = (.ok (), { m with tree := u }) := by
  unfold dropLog
  rcases FileTree.unlink_cases m.tree x.logPath with ⟨e, h⟩ | ⟨l, _, -, -, h⟩
  · exact .inl ⟨e, by rw [h]⟩
  · exact .inr ⟨_, h, by rw [h]⟩

/-- What has happened when a removal comes to the data. -/
theorem exists_of_performAll (h : x.performAll runner [.placeSentinel, .dropLog] m = (.ok (), n)) :
    ∃ one, x.placeSentinel m = (.ok (), one) ∧ x.dropLog one = (.ok (), n) := by
  simp only [performAll, perform] at h
  generalize x.placeSentinel m = first at h ⊢
  obtain ⟨f | ⟨⟩, one⟩ := first
  · simp at h
  · refine ⟨one, rfl, ?_⟩
    dsimp only at h
    generalize x.dropLog one = second at h ⊢
    obtain ⟨f | ⟨⟩, two⟩ := second
    · simp at h
    · simpa using h

/-- Removing the data is what the runner makes of it. -/
theorem removeData_ok_iff (runner : Runner) (x : Removal) (m : Machine) :
    (x.removeData runner m).1 = .ok () ↔ (runner (removeTree x.dataPath) m.tree).1 = .ok 0 := by
  unfold removeData Machine.execute
  generalize runner (removeTree x.dataPath) m.tree = result
  obtain ⟨_ | status, tree⟩ := result
  · simp
  · by_cases h : status = 0 <;> simp [h]

@[simp] theorem tree_removeData (x : Removal) (m : Machine) :
    (x.removeData runner m).2.tree = (runner (removeTree x.dataPath) m.tree).2 := by
  unfold removeData Machine.execute
  generalize runner (removeTree x.dataPath) m.tree = result
  obtain ⟨_ | status, tree⟩ := result <;> rfl

/-- The sentinel was placed: nothing else has changed. -/
structure Placed (x : Removal) (m n : Machine) : Prop where
  alters : FileTree.Alters (x.sentinelPlace m.tree.current) m.tree n.tree
  found : ∃ p, m.tree.lookup true x.sentinelPath = .ok p
  there : n.tree.node? (x.sentinelPlace m.tree.current) ≠ none

/-- The log was taken away: nothing else has changed. -/
structure Dropped (x : Removal) (m n : Machine) : Prop where
  alters : FileTree.Alters (x.logPlace m.tree.current) m.tree n.tree
  found : ∃ p, m.tree.lookup false x.logPath = .ok p
  gone : n.tree.node? (x.logPlace m.tree.current) = none

theorem placed_of_placeSentinel (direct : m.tree.Direct x.sentinelPath)
    (h : x.placeSentinel m = (.ok (), n)) : x.Placed m n := by
  rcases placeSentinel_cases x m with ⟨f, hf⟩ | ⟨l, u, touched, hu⟩
  · simp [hf] at h
  · obtain rfl : { m with tree := u } = n := by simpa [hu] using h
    obtain ⟨found, at_l, alters, there⟩ :=
      FileTree.alters_of_touch direct x.endsIn_sentinelPath touched
    rw [at_l, ← sentinelPlace] at alters there
    exact ⟨alters, found, there⟩

theorem dropped_of_dropLog (direct : m.tree.Direct x.logPath) (h : x.dropLog m = (.ok (), n)) :
    x.Dropped m n := by
  rcases dropLog_cases x m with ⟨f, hf⟩ | ⟨u, unlinked, hu⟩
  · simp [hf] at h
  · obtain rfl : { m with tree := u } = n := by simpa [hu] using h
    obtain ⟨_, ends⟩ := x.exists_endsIn_logPath
    obtain ⟨found, alters, gone⟩ := FileTree.alters_of_unlink direct ends unlinked
    exact ⟨alters, found, gone⟩

theorem Direct.of_links {t u : FileTree} (h : x.Direct t) (links : t.NoNewLinks u)
    (current : u.current = t.current) : x.Direct u :=
  ⟨h.sentinel.of_links links current, h.log.of_links links current, h.data.of_links links current⟩

theorem Direct.placed (h : x.Direct m.tree) (placed : x.Placed m n) : x.Direct n.tree :=
  h.of_links placed.alters.links placed.alters.off.1

theorem Direct.dropped (h : x.Direct m.tree) (dropped : x.Dropped m n) : x.Direct n.tree :=
  h.of_links dropped.alters.links dropped.alters.off.1

/-- Removing the data changes only what is at the place of the data. -/
theorem agreesOff_removeData (confined : runner.Confined) (direct : x.Direct m.tree) :
    FileTree.AgreesOff (x.dataPlace m.tree.current <+: ·) m.tree
      (x.removeData runner m).2.tree := by
  rw [tree_removeData]
  exact (confined x.dataPath m.tree).mono fun l covered =>
    covered.prefix direct.data x.endsIn_dataPath

end Removal

end BackupRetention
