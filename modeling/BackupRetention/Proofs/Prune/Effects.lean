import BackupRetention.Proofs.Prune.Course
import BackupRetention.Proofs.Prune.Steps
import BackupRetention.Prune.Expiry

/-!
# What removals change

Without links on its ways, a removal changes at most its sentinel, its log and its data, and it
takes away no directory but those of its data. Its outcome tells whether the log is gone. The
removals of a pass, one after the other, change what each of them does, and the log of the pass.

## Main definitions

* `FileTree.Frame`: what has changed, and which directories may be gone.
* `Removal.drops`: the outcomes after which the log of the backup is gone.

## Main results

* `Removal.frame_run`, `Removal.log_run`: one removal.
* `Pass.Course.frame`, `Pass.Course.node_log`: the removals of a pass.
-/

namespace BackupRetention

namespace FileTree

/-- Nothing has changed but at places in `changed`, no directory is gone but at places in `gone`,
and there are no new links. -/
structure Frame (changed gone : Location → Prop) (t u : FileTree) : Prop where
  off : AgreesOff changed t u
  links : t.NoNewLinks u
  dirs : ∀ k, ¬ gone k → t.node? k = some .dir → u.node? k = some .dir

variable {changed more gone away : Location → Prop} {t u v : FileTree}

theorem Frame.refl (t : FileTree) : Frame changed gone t t :=
  ⟨.refl changed t, .refl t, fun _ _ dir => dir⟩

theorem Frame.mono (h : Frame changed gone t u) (hc : ∀ k, changed k → more k)
    (hg : ∀ k, gone k → away k) : Frame more away t u :=
  ⟨h.off.mono hc, h.links, fun k hk dir => h.dirs k (fun gone => hk (hg k gone)) dir⟩

theorem Frame.trans (h : Frame changed gone t u) (g : Frame changed gone u v) :
    Frame changed gone t v :=
  ⟨h.off.trans g.off, h.links.trans g.links, fun k hk dir => g.dirs k hk (h.dirs k hk dir)⟩

theorem Alters.frame {l : Location} (h : Alters l t u) (hc : changed l) : Frame changed gone t u :=
  ⟨h.off.mono fun _ hk => hk ▸ hc, h.links, fun k _ dir => h.dirs k dir⟩

/-- Taking away a name changes at most its place. -/
theorem frame_unlink (changed gone : Location → Prop) {path name : String}
    (direct : t.Direct path) (ends : Path.EndsIn path name)
    (hc : changed (Path.locate t.current path)) : Frame changed gone t (t.unlink path).2 := by
  rcases unlinked : t.unlink path with ⟨e | ⟨⟩, u⟩
  · rcases unlink_cases t path with ⟨e, he⟩ | ⟨l, n, -, -, hl⟩
    · obtain rfl : t = u := by simpa [he] using congrArg Prod.snd unlinked
      exact .refl t
    · simp [hl] at unlinked
  · exact (alters_of_unlink direct ends unlinked).2.1.frame hc

/-- Writing to an open file changes at most its place. -/
theorem frame_append (t : FileTree) {l : Location} (text : String) (hc : changed l) :
    Frame changed gone t (t.append l text).2 := by
  unfold append
  split
  · next content file =>
    have notRoot : l ≠ [] := Holds.ne_root file
    refine ⟨(agreesOff_set t notRoot _).mono fun k hk => hk ▸ hc,
      t.noNewLinks_set notRoot _, fun k _ dir => ?_⟩
    rw [node?_set t notRoot, if_neg, dir]
    rintro rfl
    rw [file] at dir
    cases dir
  · exact .refl t
  · exact .refl t

end FileTree

/-- The runner makes no links. -/
def Runner.Linkless (runner : Runner) : Prop :=
  ∀ args t, FileTree.NoNewLinks t (runner args t).2

theorem FileTree.noNewLinks_removeAll (t : FileTree) (path : String) :
    t.NoNewLinks (t.removeAll path) := by
  unfold removeAll
  split
  · exact t.noNewLinks_eraseBelow _
  · exact .refl t

/-- A script makes no links. -/
theorem Runner.linkless_scriptedRemoval (script : String → ScriptedAnswer) :
    (scriptedRemoval script).Linkless := by
  intro args t
  have also (paths : List String) : t.NoNewLinks (paths.foldl FileTree.removeAll t) := by
    induction paths generalizing t with
    | nil => exact .refl t
    | cons path paths ih => exact (t.noNewLinks_removeAll path).trans (ih _)
  unfold scriptedRemoval scripted
  split
  · exact .refl t
  · next key _ =>
    dsimp only
    cases (script key).outcome with
    | some outcome => exact also _
    | none => exact (also _).trans (FileTree.noNewLinks_removeAll _ _)

namespace Removal

variable {runner : Runner} {x : Removal} {m one two : Machine}

/-- A place that the removal may change. -/
def touches (x : Removal) (start k : Location) : Prop :=
  k = x.sentinelPlace start ∨ k = x.logPlace start ∨ x.dataPlace start <+: k

/-- Whether the log is gone after a removal: the data was removed, or its removal has failed. -/
def drops (x : Removal) : Except Fault Unit → Bool
  | .ok () => true
  | .error (.during message _) => message = removing x.dataPath
  | .error _ => false

/-- All that can come of a removal without links on its ways. -/
inductive Ends (runner : Runner) (x : Removal) (m : Machine) :
    Except Fault Unit → Machine → Prop where
  | unplaced (e : IoFault) :
      Ends runner x m (.error (.during (creating x.sentinelPath) (.io e))) m
  | undropped (e : IoFault) (one : Machine) (placed : x.Placed m one) :
      Ends runner x m (.error (.during (removing x.logPath) (.io e))) one
  | unremoved (f : Fault) (one two : Machine) (placed : x.Placed m one)
      (dropped : x.Dropped one two) :
      Ends runner x m (.error (.during (removing x.dataPath) f)) (x.removeData runner two).2
  | done (one two : Machine) (placed : x.Placed m one) (dropped : x.Dropped one two) :
      Ends runner x m (.ok ()) (x.clearSentinel (x.removeData runner two).2).2

theorem removeData_cases (runner : Runner) (x : Removal) (m : Machine) :
    (x.removeData runner m).1 = .ok () ∨
      ∃ f, (x.removeData runner m).1 = .error (.during (removing x.dataPath) f) := by
  unfold removeData
  rcases m.execute runner (removeTree x.dataPath) with ⟨f | status, n⟩
  · exact .inr ⟨f, rfl⟩
  · by_cases ok : status = 0
    · exact .inl (by simp [ok])
    · exact .inr ⟨.commandFailed "rm" status, by simp [ok]⟩

theorem ends_run (runner : Runner) (x : Removal) (direct : x.Direct m.tree) :
    Ends runner x m (x.run runner m).1 (x.run runner m).2 := by
  rcases placeSentinel_cases x m with ⟨e, he⟩ | ⟨l, u, -, hu⟩
  · have whole : x.run runner m = (.error (.during (creating x.sentinelPath) (.io e)), m) := by
      simp only [run, steps, performAll, perform, he]
    rw [whole]
    exact .unplaced e
  have placed := placed_of_placeSentinel direct.sentinel hu
  rcases dropLog_cases x { m with tree := u } with ⟨e, he⟩ | ⟨v, -, hv⟩
  · have whole : x.run runner m =
        (.error (.during (removing x.logPath) (.io e)), { m with tree := u }) := by
      simp only [run, steps, performAll, perform, hu, he]
    rw [whole]
    exact .undropped e _ placed
  have dropped := dropped_of_dropLog (direct.placed placed).log hv
  rcases removed : x.removeData runner { m with tree := v } with ⟨o, three⟩
  have last := removeData_cases runner x { m with tree := v }
  rw [removed] at last
  have there : three = (x.removeData runner { m with tree := v }).2 := by rw [removed]
  rcases last with rfl | ⟨f, rfl⟩
  · have whole : x.run runner m = (.ok (), (x.clearSentinel three).2) := by
      simp only [run, steps, performAll, perform, hu, hv, removed, clearSentinel]
    rw [whole, there]
    exact .done _ _ placed dropped
  · have whole : x.run runner m = (.error (.during (removing x.dataPath) f), three) := by
      simp only [run, steps, performAll, perform, hu, hv, removed]
    rw [whole, there]
    exact .unremoved f _ _ placed dropped

theorem drops_creating (x : Removal) (f : Fault) :
    x.drops (.error (.during (creating x.sentinelPath) f)) = false := by
  have first : (creating x.sentinelPath).toList.head? ≠ (removing x.dataPath).toList.head? := by
    simp [creating, removing]
  simpa [drops] using fun same => first (congrArg (fun s : String => s.toList.head?) same)

theorem logPath_ne_dataPath (x : Removal) : x.logPath ≠ x.dataPath := by
  intro same
  obtain ⟨start, ends⟩ := x.exists_endsIn_logPath
  have last := ends.last
  rw [same, x.endsIn_dataPath.last] at last
  have dot : '.' ∈ x.backup.date.text.toList := by
    rw [Option.some.inj last]
    simp
  rw [Date.toList_text] at dot
  rcases Date.mem_chars dot with h | h <;> exact absurd h (by decide)

theorem drops_removing_log (x : Removal) (f : Fault) :
    x.drops (.error (.during (removing x.logPath) f)) = false := by
  have paths : removing x.logPath ≠ removing x.dataPath := fun same =>
    x.logPath_ne_dataPath (by simpa [removing] using same)
  simpa [drops] using paths

theorem drops_removing_data (x : Removal) (f : Fault) :
    x.drops (.error (.during (removing x.dataPath) f)) = true := by
  simp [drops]

/-- Where the log was, nothing comes back while the data is removed. -/
theorem log_removeData (confined : runner.Confined) (direct : x.Direct m.tree)
    (apart : ¬ x.dataPlace m.tree.current <+: x.logPlace m.tree.current)
    (placed : x.Placed m one) (dropped : x.Dropped one two) :
    (x.removeData runner two).2.tree.node? (x.logPlace m.tree.current) = none := by
  have current : one.tree.current = m.tree.current := placed.alters.off.1
  have current' : two.tree.current = m.tree.current := dropped.alters.off.1.trans current
  have gone := dropped.gone
  rw [current] at gone
  rw [(agreesOff_removeData confined ((direct.placed placed).dropped dropped)).2, gone]
  rwa [current']

section Run

variable (confined : runner.Confined) (linkless : runner.Linkless) (direct : x.Direct m.tree)

include confined linkless direct

/-- Up to the removal of the data, whatever comes of it. -/
theorem frame_removeData (placed : x.Placed m one) (dropped : x.Dropped one two) :
    FileTree.Frame (x.touches m.tree.current) (x.dataPlace m.tree.current <+: ·) m.tree
      (x.removeData runner two).2.tree := by
  have current : one.tree.current = m.tree.current := placed.alters.off.1
  have current' : two.tree.current = m.tree.current := dropped.alters.off.1.trans current
  have first : FileTree.Frame (x.touches m.tree.current) (x.dataPlace m.tree.current <+: ·)
      m.tree one.tree := placed.alters.frame (.inl rfl)
  have second : FileTree.Frame (x.touches m.tree.current) (x.dataPlace m.tree.current <+: ·)
      one.tree two.tree := dropped.alters.frame (.inr (.inl (by rw [current])))
  refine (first.trans second).trans ?_
  have off := agreesOff_removeData confined ((direct.placed placed).dropped dropped)
  rw [current'] at off
  refine ⟨off.mono fun k hk => .inr (.inr hk), ?_, fun k hk dir => ?_⟩
  · rw [tree_removeData]
    exact linkless _ _
  · rw [off.2 k hk, dir]

theorem frame_clearSentinel (placed : x.Placed m one) (dropped : x.Dropped one two) :
    FileTree.Frame (x.touches m.tree.current) (x.dataPlace m.tree.current <+: ·) m.tree
      (x.clearSentinel (x.removeData runner two).2).2.tree := by
  have removed := frame_removeData confined linkless direct placed dropped
  refine removed.trans ?_
  have clear := FileTree.frame_unlink (x.touches m.tree.current)
    (x.dataPlace m.tree.current <+: ·)
    (direct.sentinel.of_links removed.links removed.off.1) x.endsIn_sentinelPath
    (.inl (by rw [removed.off.1]; rfl))
  unfold clearSentinel
  generalize (x.removeData runner two).2 = three at clear ⊢
  generalize three.tree.unlink x.sentinelPath = unlinked at clear ⊢
  exact clear

/-- A removal changes its sentinel, its log and its data. -/
theorem frame_run :
    FileTree.Frame (x.touches m.tree.current) (x.dataPlace m.tree.current <+: ·) m.tree
      (x.run runner m).2.tree := by
  have ends := ends_run runner x direct
  generalize (x.run runner m).1 = o at ends
  generalize (x.run runner m).2 = n at ends ⊢
  cases ends with
  | unplaced e => exact .refl _
  | undropped e one placed => exact placed.alters.frame (.inl rfl)
  | unremoved f one two placed dropped =>
    exact frame_removeData confined linkless direct placed dropped
  | done one two placed dropped =>
    exact frame_clearSentinel confined linkless direct placed dropped

/-- The log of the backup is gone, or it is what it was; the outcome tells. -/
theorem log_run (apart : ¬ x.dataPlace m.tree.current <+: x.logPlace m.tree.current) :
    (x.run runner m).2.tree.node? (x.logPlace m.tree.current) =
      if x.drops (x.run runner m).1 then none else m.tree.node? (x.logPlace m.tree.current) := by
  have ends := ends_run runner x direct
  generalize (x.run runner m).1 = o at ends ⊢
  generalize (x.run runner m).2 = n at ends ⊢
  have other : x.logPlace m.tree.current ≠ x.sentinelPlace m.tree.current :=
    (x.sentinelPlace_ne_logPlace _).symm
  cases ends with
  | unplaced e => rw [drops_creating, if_neg Bool.false_ne_true]
  | undropped e one placed =>
    rw [drops_removing_log, if_neg Bool.false_ne_true]
    exact placed.alters.off.2 _ other
  | unremoved f one two placed dropped =>
    rw [drops_removing_data, if_pos rfl]
    exact log_removeData confined direct apart placed dropped
  | done one two placed dropped =>
    have removed := frame_removeData confined linkless direct placed dropped
    have clear := FileTree.frame_unlink (· = x.sentinelPlace m.tree.current) (fun _ => False)
      (direct.sentinel.of_links removed.links removed.off.1) x.endsIn_sentinelPath
      (by rw [removed.off.1]; rfl)
    have gone := log_removeData confined direct apart placed dropped
    rw [← clear.off.2 _ other] at gone
    unfold clearSentinel
    generalize (x.removeData runner two).2 = three at gone ⊢
    generalize three.tree.unlink x.sentinelPath = unlinked at gone ⊢
    exact gone

end Run

end Removal

namespace Pass

variable {p : Pass} {log : PruneLog} {m : Machine} {tries notes : List (Target × Outcome)}
  {s : Site}

/-- The removals of these tries may change this place. -/
def Touches (p : Pass) (start : Location) (tries : List (Target × Outcome)) (k : Location) : Prop :=
  ∃ t ∈ tries, (p.removal t.1).touches start k

/-- This place belongs to the data of one of these tries. -/
def Clears (p : Pass) (start : Location) (tries : List (Target × Outcome)) (k : Location) : Prop :=
  ∃ t ∈ tries, (p.removal t.1).dataPlace start <+: k

/-- One of these tries has taken away the log at this place. -/
def drops (p : Pass) (start : Location) (tries : List (Target × Outcome)) (k : Location) : Bool :=
  tries.any fun t => (p.removal t.1).logPlace start = k && (p.removal t.1).drops t.2

theorem tree_writeLine (log : PruneLog) (line : String) (t : FileTree) :
    (log.writeLine line t).2 = (t.append log.place (line ++ "\n")).2 := by
  unfold PruneLog.writeLine
  rcases t.append log.place (line ++ "\n") with ⟨e | ⟨⟩, u⟩ <;> rfl

theorem frame_unlessRefused (gone : Location → Prop) (t : FileTree) (log : PruneLog)
    (refused : Option IoFault) (line : String) :
    FileTree.Frame (· = log.place) gone t (log.unlessRefused refused (log.writeLine line) t).2 := by
  cases refused with
  | none =>
    rw [PruneLog.unlessRefused, tree_writeLine]
    exact FileTree.frame_append _ _ rfl
  | some e => exact .refl t

/-- A note changes the log of the pass. -/
theorem frame_settle (gone : Location → Prop) (s : Site) (refused : Option IoFault)
    (log : PruneLog) (r : Record) (path : String) (o : Outcome) :
    FileTree.Frame (· = log.place) gone s.machine.tree
      (s.settle refused log r path o).machine.tree := by
  cases o with
  | ok => exact frame_unlessRefused gone _ log refused _
  | error f => exact frame_unlessRefused gone _ log refused _

/-- What the removals of a pass change. -/
theorem Course.frame (course : Course p log m tries notes s) (confined : p.runner.Confined)
    (linkless : p.runner.Linkless) (direct : ∀ t ∈ tries, (p.removal t.1).Direct m.tree) :
    FileTree.Frame (fun k => k = log.place ∨ p.Touches m.tree.current tries k)
      (p.Clears m.tree.current tries) m.tree s.machine.tree := by
  induction course with
  | start => exact .refl _
  | @attempt t tries notes s _ ih =>
    have ih := ih fun u hu => direct u (List.mem_append_left _ hu)
    have own : (p.removal t).Direct m.tree :=
      direct _ (List.mem_append_right _ List.mem_cons_self)
    have run := Removal.frame_run confined linkless (own.of_links ih.links ih.off.1)
    rw [ih.off.1] at run
    rw [machine_removalJob]
    have earlier {k : Location} : (k = log.place ∨ p.Touches m.tree.current tries k) →
        k = log.place ∨ p.Touches m.tree.current
          (tries ++ [(t, (removalJob p.runner (p.removal t) s).1)]) k :=
      .imp_right fun ⟨u, hu, touches⟩ => ⟨u, List.mem_append_left _ hu, touches⟩
    refine (ih.mono (fun k => earlier) fun k ⟨u, hu, below⟩ =>
      ⟨u, List.mem_append_left _ hu, below⟩).trans ?_
    refine run.mono (fun k touches => .inr ?_) fun k below => ?_
    · exact ⟨_, List.mem_append_right _ List.mem_cons_self, touches⟩
    · exact ⟨_, List.mem_append_right _ List.mem_cons_self, below⟩
  | @note t o _ _ s _ _ ih =>
    exact (ih direct).trans ((frame_settle _ s _ log t.2 _ o).mono (fun k => .inl) fun k => id)

/-- Which logs of backups the removals of a pass take away. -/
theorem Course.node_log (course : Course p log m tries notes s) (confined : p.runner.Confined)
    (linkless : p.runner.Linkless) (direct : ∀ t ∈ tries, (p.removal t.1).Direct m.tree)
    {k : Location} (hlog : k ≠ log.place)
    (hdata : ¬ p.Clears m.tree.current tries k)
    (hsentinel : ∀ t ∈ tries, k ≠ (p.removal t.1).sentinelPlace m.tree.current) :
    s.machine.tree.node? k =
      if p.drops m.tree.current tries k then none else m.tree.node? k := by
  -- Only a try of the backup whose log is at `k` can change it, and once it is gone it stays so.
  induction course with
  | start => rfl
  | @attempt t tries notes s before ih =>
    have before' := fun u hu => direct u (List.mem_append_left _ hu)
    have frame := before.frame confined linkless before'
    have earlier := ih before' (fun ⟨u, hu, below⟩ => hdata ⟨u, List.mem_append_left _ hu, below⟩)
      fun u hu => hsentinel u (List.mem_append_left _ hu)
    have own : (t, (removalJob p.runner (p.removal t) s).1) ∈
        tries ++ [(t, (removalJob p.runner (p.removal t) s).1)] :=
      List.mem_append_right _ List.mem_cons_self
    have apart : ¬ (p.removal t).dataPlace m.tree.current <+: k := fun below =>
      hdata ⟨_, own, below⟩
    have reached : (p.removal t).Direct s.machine.tree :=
      (direct _ own).of_links frame.links frame.off.1
    have last : p.drops m.tree.current
        (tries ++ [(t, (removalJob p.runner (p.removal t) s).1)]) k =
      (p.drops m.tree.current tries k || (decide ((p.removal t).logPlace m.tree.current = k) &&
        (p.removal t).drops ((p.removal t).run p.runner s.machine).1)) := by
      simp [drops]
    rw [machine_removalJob, last]
    by_cases here : (p.removal t).logPlace m.tree.current = k
    · have log := Removal.log_run confined linkless reached
      rw [frame.off.1, here] at log
      rw [log apart, earlier]
      cases p.drops m.tree.current tries k <;> simp [here]
    · have run := Removal.frame_run confined linkless reached
      rw [frame.off.1] at run
      rw [run.off.2, earlier]
      · simp [here]
      · rintro (sentinel | log | below)
        · exact hsentinel _ own sentinel
        · exact here log.symm
        · exact apart below
  | @note t o _ _ s _ before ih =>
    rw [(frame_settle (fun _ => False) s _ log t.2 _ o).off.2 k hlog]
    exact ih direct hdata hsentinel

end Pass

end BackupRetention
