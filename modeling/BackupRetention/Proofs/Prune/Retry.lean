import BackupRetention.Proofs.Prune.Accounting
import BackupRetention.Proofs.Prune.CrashSafety

/-!
# Removing once more

A removal whose runner has failed is not taken up by another attempt. The sentinel that it left
does no harm, but the log was taken away before, and the second attempt ends where it looks for
it. Only if something has put the log back does the second attempt get to the data.

## Main definitions

* `Removal.FailsAtData`: a removal that gets to the data, where the runner fails.
* `Runner.Thorough`: a runner that removes what it is told to.
* `Removal.Retried`: what comes of another attempt.

## Main results

* `Removal.retried`: every attempt after such a failure.
-/

namespace BackupRetention

/-- The runner removes what it is told to, and succeeds. -/
structure Runner.Thorough (runner : Runner) : Prop where
  succeeds : ∀ path t, (runner (removeTree path) t).1 = .ok 0
  clears : ∀ path (t : FileTree) l n, t.lookup false path = .ok (.found l n) → l ≠ [] →
    ∀ k, l <+: k → (runner (removeTree path) t).2.node? k = none
  absent : ∀ path (t : FileTree) l, t.lookup false path = .ok (.vacant l) →
    (runner (removeTree path) t).2.node? l = none

/-- A script without answers of its own removes what it is told to. -/
theorem Runner.thorough_scriptedRemoval : (scriptedRemoval fun _ => {}).Thorough where
  succeeds _ _ := rfl
  clears path t l n found notRoot k below := by
    show (t.removeAll path).node? k = none
    have notRoot' : k ≠ [] := by
      rintro rfl
      exact notRoot (List.prefix_nil.1 below)
    rw [FileTree.removeAll, FileTree.find, found]
    simp [FileTree.node?_eraseBelow, notRoot', below]
  absent path t l vacant := by
    show (t.removeAll path).node? l = none
    rw [FileTree.removeAll, FileTree.find, vacant]
    exact (FileTree.lookup_eq_ok vacant).2.placed.1 l rfl

namespace Removal

variable {first second : Runner} {x : Removal} {m n one two k : Machine} {t u : FileTree}

/-! ## What the first attempt leaves -/

/-- The removal gets as far as the data, and the runner fails there. -/
def FailsAtData (runner : Runner) (x : Removal) (m : Machine) : Prop :=
  ∃ two, x.performAll runner [.placeSentinel, .dropLog] m = (.ok (), two) ∧
    (runner (removeTree x.dataPath) two.tree).1 ≠ .ok 0

/-- The ways to the sentinel and to the log do not lead through the data. -/
def Outside (x : Removal) (start : Location) : Prop :=
  ∀ path ∈ [x.sentinelPath, x.logPath], ∀ l ∈ Path.along start path, ¬ x.dataPlace start <+: l

theorem Outside.log {start : Location} (h : x.Outside start) :
    ¬ x.dataPlace start <+: x.logPlace start :=
  h x.logPath (by simp) _ List.mem_cons_self

/-- A removal that fails at the data ends with what the runner has done. -/
theorem run_of_failsAtData
    (reached : x.performAll first [.placeSentinel, .dropLog] m = (.ok (), two))
    (failed : (first (removeTree x.dataPath) two.tree).1 ≠ .ok 0) :
    (x.run first m).1 ≠ .ok () ∧ (x.run first m).2 = (x.removeData first two).2 := by
  have refused : (x.removeData first two).1 ≠ .ok () := (removeData_ok_iff first x two).not.2 failed
  have whole := x.performAll_append first [.placeSentinel, .dropLog] [.removeData, .clearSentinel] m
  rw [reached] at whole
  rw [run, steps]
  generalize removed : x.removeData first two = result at refused ⊢
  obtain ⟨f | ⟨⟩, three⟩ := result
  · simp only [List.cons_append, List.nil_append, performAll, perform, removed] at whole ⊢
    rw [whole]
    exact ⟨by simp, rfl⟩
  · exact absurd rfl refused

/-- Where a sentinel was placed there is no directory. -/
theorem notDir_of_placeSentinel (direct : m.tree.Direct x.sentinelPath)
    (h : x.placeSentinel m = (.ok (), one)) :
    one.tree.node? (x.sentinelPlace m.tree.current) ≠ some .dir := by
  rcases placeSentinel_cases x m with ⟨e, he⟩ | ⟨l, u, touched, hu⟩
  · simp [he] at h
  obtain rfl : { m with tree := u } = one := by simpa [hu] using h
  show u.node? (x.sentinelPlace m.tree.current) ≠ some .dir
  rcases FileTree.touch_cases m.tree x.sentinelPath with
    ⟨e, he⟩ | ⟨k, n, found, notDir, hk⟩ | ⟨k, vacant, hk⟩
  · simp [he] at touched
  · obtain ⟨-, rfl⟩ : k = l ∧ m.tree = u := by simpa [hk] using touched
    have node := (FileTree.placeAt_eq_found
      (FileTree.lookup_eq_placeAt direct x.endsIn_sentinelPath found).symm).2
    rw [sentinelPlace, node]
    exact fun dir => notDir (Option.some.inj dir)
  · obtain ⟨-, rfl⟩ : k = l ∧ m.tree.set k (.file .empty) = u := by simpa [hk] using touched
    have here := (FileTree.placeAt_eq_vacant
      (FileTree.lookup_eq_placeAt direct x.endsIn_sentinelPath vacant).symm).1
    rw [here, sentinelPlace, FileTree.node?_set m.tree (x.endsIn_sentinelPath.locate_ne_nil _),
      if_pos rfl]
    simp

/-- A sentinel that stands can be placed again. -/
theorem Placed.again (direct : x.Direct m.tree) (placed : x.Placed m one) : x.Placed one one := by
  have current : one.tree.current = m.tree.current := placed.alters.off.1
  obtain ⟨_, found⟩ := placed.found
  refine ⟨⟨.refl _ _, .refl _, fun _ dir => dir⟩, ⟨_, FileTree.lookup_of_dirs direct.sentinel
    placed.alters.links current (fun l _ => placed.alters.dirs l) x.endsIn_sentinelPath found
    true⟩, ?_⟩
  rw [current]
  exact placed.there

/-! ## The steps of another attempt -/

/-- The sentinel and the log can be looked up, and their ways do not lead through the data. -/
structure Accessible (x : Removal) (t : FileTree) : Prop where
  direct : x.Direct t
  outside : x.Outside t.current
  sentinel : ∃ p, t.lookup true x.sentinelPath = .ok p
  log : ∃ p, t.lookup false x.logPath = .ok p

/-- After a change of the sentinel, the log and the data their paths still lead to the places that
they name. -/
theorem Accessible.lookups (h : x.Accessible t)
    (frame : FileTree.Frame (x.touches t.current) (x.dataPlace t.current <+: ·) t u)
    (follow : Bool) :
    u.lookup follow x.sentinelPath = .ok (u.placeAt (x.sentinelPlace u.current)) ∧
    u.lookup follow x.logPath = .ok (u.placeAt (x.logPlace u.current)) ∧
    u.lookup follow x.dataPath = .ok (u.placeAt (x.dataPlace u.current)) := by
  obtain ⟨_, sentinel⟩ := h.sentinel
  obtain ⟨_, log⟩ := h.log
  obtain ⟨_, ends⟩ := x.exists_endsIn_logPath
  have dirs {path : String} (own : path ∈ [x.sentinelPath, x.logPath]) :
      ∀ l ∈ Path.along t.current path, t.node? l = some .dir → u.node? l = some .dir :=
    fun l hl => frame.dirs l (h.outside path own l hl)
  have there (follow : Bool) := FileTree.lookup_of_dirs h.direct.sentinel frame.links frame.off.1
    (dirs (by simp)) x.endsIn_sentinelPath sentinel follow
  refine ⟨there follow, FileTree.lookup_of_dirs h.direct.log frame.links frame.off.1
    (dirs (by simp)) ends log follow, ?_⟩
  have direct := h.direct.of_links frame.links frame.off.1
  have beside := there false
  have way := direct.sentinel
  rw [x.sentinelPath_eq] at beside way
  have data := FileTree.lookup_cut x.backup.date.isPlain_text x.isPlain_sentinel way
    (fun target => ?_) beside follow
  · rwa [← x.dataPlace_eq] at data
  · rw [← x.dataPlace_eq]
    exact direct.data _ List.mem_cons_self target

theorem Accessible.of_frame (h : x.Accessible t)
    (frame : FileTree.Frame (x.touches t.current) (x.dataPlace t.current <+: ·) t u) :
    x.Accessible u where
  direct := h.direct.of_links frame.links frame.off.1
  outside := frame.off.1 ▸ h.outside
  sentinel := ⟨_, (h.lookups frame true).1⟩
  log := ⟨_, (h.lookups frame false).2.1⟩

/-- A sentinel that stands can be placed again, and nothing changes. -/
theorem Accessible.placeSentinel (h : x.Accessible m.tree) {s : Node}
    (there : m.tree.node? (x.sentinelPlace m.tree.current) = some s) (notDir : s ≠ .dir) :
    x.placeSentinel m = (.ok (), m) := by
  have found := (h.lookups (.refl _) true).1
  rw [FileTree.placeAt, there] at found
  have touched := FileTree.touch_of_found found notDir
  unfold Removal.placeSentinel
  rw [touched]

/-- With the log an attempt gets to the data. -/
theorem Accessible.dropLog (h : x.Accessible m.tree) {n : Node}
    (log : m.tree.node? (x.logPlace m.tree.current) = some n) (file : n ≠ .dir) :
    x.dropLog m = (.ok (), { m with tree := m.tree.erase (x.logPlace m.tree.current) }) := by
  have found := (h.lookups (.refl _) false).2.1
  rw [FileTree.placeAt, log] at found
  have unlinked := FileTree.unlink_of_found found file
  unfold Removal.dropLog
  rw [unlinked]

/-- A log that is missing cannot be taken away. -/
theorem Accessible.dropLog_of_none (h : x.Accessible m.tree)
    (none : m.tree.node? (x.logPlace m.tree.current) = none) :
    x.dropLog m = (.error (.during (removing x.logPath) (.io (.system .noEntry))), m) := by
  have vacant := (h.lookups (.refl _) false).2.1
  rw [FileTree.placeAt, none] at vacant
  have unlinked := FileTree.unlink_of_vacant vacant
  unfold Removal.dropLog
  rw [unlinked]

theorem Accessible.dropLog_of_dir (h : x.Accessible m.tree)
    (dir : m.tree.node? (x.logPlace m.tree.current) = some .dir) :
    x.dropLog m = (.error (.during (removing x.logPath) (.io (.system .isDirectory))), m) := by
  have found := (h.lookups (.refl _) false).2.1
  rw [FileTree.placeAt, dir] at found
  have unlinked := FileTree.unlink_of_dir found
  unfold Removal.dropLog
  rw [unlinked]

/-- A thorough runner takes the data away. -/
theorem Accessible.data_removeData (h : x.Accessible m.tree) (thorough : second.Thorough) :
    (x.removeData second m).2.tree.node? (x.dataPlace m.tree.current) = none ∧
      (m.tree.node? (x.dataPlace m.tree.current) ≠ none → ∀ l, x.dataPlace m.tree.current <+: l →
        (x.removeData second m).2.tree.node? l = none) := by
  have found := (h.lookups (.refl _) false).2.2
  rw [tree_removeData]
  cases node : m.tree.node? (x.dataPlace m.tree.current) with
  | none =>
    rw [FileTree.placeAt, node] at found
    exact ⟨thorough.absent _ _ _ found, fun missing => absurd rfl missing⟩
  | some n =>
    rw [FileTree.placeAt, node] at found
    have gone := thorough.clears _ _ _ _ found (x.endsIn_dataPath.locate_ne_nil _)
    exact ⟨gone _ (List.prefix_refl _), fun _ => gone⟩

/-- A sentinel that stands is cleared. -/
theorem Accessible.clearSentinel (h : x.Accessible m.tree) {s : Node}
    (there : m.tree.node? (x.sentinelPlace m.tree.current) = some s) (notDir : s ≠ .dir) :
    x.clearSentinel m =
      (.ok (), { m with tree := m.tree.erase (x.sentinelPlace m.tree.current) }) := by
  have found := (h.lookups (.refl _) false).1
  rw [FileTree.placeAt, there] at found
  have unlinked := FileTree.unlink_of_found found notDir
  unfold Removal.clearSentinel
  rw [unlinked]

/-! ## Whole attempts -/

/-- What another attempt comes to: it starts from `k`. -/
structure Retried (runner : Runner) (x : Removal) (k : Machine) : Prop where
  /-- It succeeds just if the log is there again, whatever it may be but a directory. -/
  ok_iff : (x.run runner k).1 = .ok () ↔
    ∃ n, k.tree.node? (x.logPlace k.tree.current) = some n ∧ n ≠ .dir
  /-- Then neither the sentinel nor the data is left. -/
  sentinel : (x.run runner k).1 = .ok () →
    (x.run runner k).2.tree.node? (x.sentinelPlace k.tree.current) = none
  data : (x.run runner k).1 = .ok () →
    (x.run runner k).2.tree.node? (x.dataPlace k.tree.current) = none
  below : (x.run runner k).1 = .ok () → k.tree.node? (x.dataPlace k.tree.current) ≠ none →
    ∀ l, x.dataPlace k.tree.current <+: l → (x.run runner k).2.tree.node? l = none
  /-- Without the log it fails and changes nothing. -/
  stuck : k.tree.node? (x.logPlace k.tree.current) = none → x.run runner k =
    (.error (.during (removing x.logPath) (.io (.system .noEntry))), k)

/-- An attempt that cannot take the log away ends there. -/
theorem run_of_undropped {f : Fault} (placed : x.placeSentinel k = (.ok (), k))
    (refused : x.dropLog k = (.error f, k)) : x.run second k = (.error f, k) := by
  simp only [run, steps, performAll, perform, placed, refused]

/-- Without the log an attempt ends where it would take it away. -/
theorem run_of_no_log {s : Node} (access : x.Accessible k.tree)
    (there : k.tree.node? (x.sentinelPlace k.tree.current) = some s) (notDir : s ≠ .dir)
    (none : k.tree.node? (x.logPlace k.tree.current) = none) :
    x.run second k = (.error (.during (removing x.logPath) (.io (.system .noEntry))), k) :=
  run_of_undropped (access.placeSentinel there notDir) (access.dropLog_of_none none)

/-- With the log an attempt gets through. -/
theorem run_of_log (confined : second.Confined) (linkless : second.Linkless)
    (thorough : second.Thorough) {s n : Node} (access : x.Accessible k.tree)
    (there : k.tree.node? (x.sentinelPlace k.tree.current) = some s) (notDir : s ≠ .dir)
    (log : k.tree.node? (x.logPlace k.tree.current) = some n) (file : n ≠ .dir) :
    (x.run second k).1 = .ok () ∧
      (x.run second k).2.tree.node? (x.sentinelPlace k.tree.current) = none ∧
      (x.run second k).2.tree.node? (x.dataPlace k.tree.current) = none ∧
      (k.tree.node? (x.dataPlace k.tree.current) ≠ none →
        ∀ l, x.dataPlace k.tree.current <+: l → (x.run second k).2.tree.node? l = none) := by
  have placed := access.placeSentinel there notDir
  have logged := access.dropLog log file
  generalize htwo : { k with tree := k.tree.erase (x.logPlace k.tree.current) } = two at logged
  have dropped := dropped_of_dropLog access.direct.log logged
  have current : two.tree.current = k.tree.current := dropped.alters.off.1
  have access' : x.Accessible two.tree :=
    access.of_frame (dropped.alters.frame (.inr (.inl rfl)))
  obtain ⟨top, below⟩ := access'.data_removeData thorough
  have frame := frame_removeData confined linkless access.direct
    (placed_of_placeSentinel access.direct.sentinel placed) dropped
  have off := agreesOff_removeData confined access'.direct
  have removed : (x.removeData second two).1 = .ok () :=
    (removeData_ok_iff second x two).2 (thorough.succeeds _ _)
  rw [current] at top below off
  generalize hthree : x.removeData second two = three at top below frame off removed
  have stays : three.2.tree.node? (x.sentinelPlace k.tree.current) = some s := by
    rw [off.2 _ (x.not_dataPlace_prefix_sentinelPlace _),
      dropped.alters.off.2 _ (x.sentinelPlace_ne_logPlace _), there]
  have cleared : x.clearSentinel three.2 =
      (.ok (), { three.2 with tree := three.2.tree.erase (x.sentinelPlace k.tree.current) }) := by
    have there' : three.2.tree.node? (x.sentinelPlace three.2.tree.current) = some s := by
      rwa [frame.off.1]
    have ended := (access.of_frame frame).clearSentinel there' notDir
    rwa [frame.off.1] at ended
  have whole : x.run second k =
      (.ok (), { three.2 with tree := three.2.tree.erase (x.sentinelPlace k.tree.current) }) := by
    obtain ⟨outcome, three⟩ := three
    obtain rfl : outcome = .ok () := removed
    simp only [run, steps, performAll, perform, placed, logged, hthree, cleared]
  have data : two.tree.node? (x.dataPlace k.tree.current) =
      k.tree.node? (x.dataPlace k.tree.current) :=
    dropped.alters.off.2 _ fun same => access.outside.log (same ▸ List.prefix_refl _)
  have gone (l : Location) (none : three.2.tree.node? l = none) :
      (three.2.tree.erase (x.sentinelPlace k.tree.current)).node? l = .none := by
    rw [FileTree.node?_erase, none, ite_self]
  rw [whole]
  refine ⟨rfl, ?_, gone _ top, fun missing l hl => gone l (below ?_ l hl)⟩
  · show (three.2.tree.erase _).node? _ = none
    rw [FileTree.node?_erase, if_pos ⟨x.endsIn_sentinelPath.locate_ne_nil _, rfl⟩]
  · rwa [data]

/-- An attempt finds nothing in its way but a missing log. -/
theorem Accessible.again (access : x.Accessible k.tree) {s : Node}
    (there : k.tree.node? (x.sentinelPlace k.tree.current) = some s) (notDir : s ≠ .dir)
    (confined : second.Confined) (linkless : second.Linkless) (thorough : second.Thorough) :
    Retried second x k := by
  have ok_iff : (x.run second k).1 = .ok () ↔
      ∃ n, k.tree.node? (x.logPlace k.tree.current) = some n ∧ n ≠ .dir := by
    constructor
    · intro ok
      cases log : k.tree.node? (x.logPlace k.tree.current) with
      | none => simp [run_of_no_log access there notDir log] at ok
      | some n =>
        refine ⟨n, rfl, fun dir => ?_⟩
        rw [dir] at log
        rw [run_of_undropped (access.placeSentinel there notDir) (access.dropLog_of_dir log)] at ok
        cases ok
    · rintro ⟨n, log, file⟩
      exact (run_of_log confined linkless thorough access there notDir log file).1
  have through (ok : (x.run second k).1 = .ok ()) :
      (x.run second k).2.tree.node? (x.sentinelPlace k.tree.current) = none ∧
        (x.run second k).2.tree.node? (x.dataPlace k.tree.current) = none ∧
        (k.tree.node? (x.dataPlace k.tree.current) ≠ none →
          ∀ l, x.dataPlace k.tree.current <+: l → (x.run second k).2.tree.node? l = none) := by
    obtain ⟨n, log, file⟩ := ok_iff.1 ok
    exact (run_of_log confined linkless thorough access there notDir log file).2
  exact {
    ok_iff
    sentinel := fun ok => (through ok).1
    data := fun ok => (through ok).2.1
    below := fun ok => (through ok).2.2
    stuck := run_of_no_log access there notDir }

/-! ## After a failure -/

/-- What may have happened to the files between two attempts: at most the log has come back, as
anything but a link. -/
structure Meanwhile (x : Removal) (t u : FileTree) : Prop where
  off : FileTree.AgreesOff (· = x.logPlace t.current) t u
  noLink : ∀ target, u.node? (x.logPlace t.current) ≠ some (.link target)

theorem Meanwhile.frame (h : x.Meanwhile t u) (gone : t.node? (x.logPlace t.current) = none) :
    FileTree.Frame (x.touches t.current) (x.dataPlace t.current <+: ·) t u := by
  refine ⟨h.off.mono fun l hl => .inr (.inl hl), fun l target link => ?_, fun l _ dir => ?_⟩
  · have other : l ≠ x.logPlace t.current := by
      intro same
      rw [same] at link
      exact h.noLink target link
    rwa [← h.off.2 l other]
  · have other : l ≠ x.logPlace t.current := by
      intro same
      rw [same, gone] at dir
      cases dir
    rwa [h.off.2 l other]

/-- A removal that failed at the data leaves the sentinel, but not the log. -/
theorem left_of_failsAtData (confined : first.Confined) (linkless : first.Linkless)
    (direct : x.Direct m.tree) (outside : x.Outside m.tree.current)
    (fails : FailsAtData first x m) :
    x.Accessible (x.run first m).2.tree ∧ (x.run first m).2.tree.current = m.tree.current ∧
    (x.run first m).2.tree.node? (x.logPlace m.tree.current) = none ∧
    ∃ s, (x.run first m).2.tree.node? (x.sentinelPlace m.tree.current) = some s ∧ s ≠ .dir := by
  obtain ⟨two, reached, failed⟩ := fails
  obtain ⟨one, hone, htwo⟩ := exists_of_performAll reached
  obtain ⟨-, left⟩ := run_of_failsAtData reached failed
  have placed := placed_of_placeSentinel direct.sentinel hone
  have current : one.tree.current = m.tree.current := placed.alters.off.1
  have dropped := dropped_of_dropLog (direct.placed placed).log htwo
  have again := placed.again direct
  have access : x.Accessible one.tree :=
    ⟨direct.placed placed, current ▸ outside, again.found, dropped.found⟩
  have frame := frame_removeData confined linkless access.direct again dropped
  have gone := log_removeData confined access.direct access.outside.log again dropped
  obtain ⟨s, there⟩ := Option.ne_none_iff_exists'.1 again.there
  have notDir : s ≠ .dir := fun dir => notDir_of_placeSentinel direct.sentinel hone
    (by rw [← current, there, dir])
  have stays := (agreesOff_removeData confined (access.direct.dropped dropped)).2
    (x.sentinelPlace one.tree.current) (by
      rw [dropped.alters.off.1]
      exact x.not_dataPlace_prefix_sentinelPlace _)
  rw [dropped.alters.off.2 _ (x.sentinelPlace_ne_logPlace _), there] at stays
  rw [← left] at frame gone stays
  rw [current] at gone stays
  exact ⟨access.of_frame frame, frame.off.1.trans current, gone, s, stays, notDir⟩

/-- After a removal that failed at the data the log is gone. Another attempt fails where it looks
for the log, and changes nothing; it succeeds if the log has come back until then, and leaves
neither the sentinel nor the data. -/
theorem retried (confined : first.Confined) (linkless : first.Linkless)
    (confined' : second.Confined) (linkless' : second.Linkless) (thorough : second.Thorough)
    (direct : x.Direct m.tree) (outside : x.Outside m.tree.current)
    (fails : FailsAtData first x m) :
    (x.run first m).1 ≠ .ok () ∧
    (x.run first m).2.tree.node? (x.logPlace m.tree.current) = none ∧
    x.run second (x.run first m).2 =
      (.error (.during (removing x.logPath) (.io (.system .noEntry))), (x.run first m).2) ∧
    ∀ k : Machine, x.Meanwhile (x.run first m).2.tree k.tree → Retried second x k := by
  obtain ⟨access, current, gone, s, stays, notDir⟩ :=
    left_of_failsAtData confined linkless direct outside fails
  obtain ⟨two, reached, failed⟩ := fails
  refine ⟨(run_of_failsAtData reached failed).1, gone, ?_, fun k between => ?_⟩
  · rw [← current] at gone stays
    exact run_of_no_log access stays notDir gone
  · rw [← current] at gone stays
    have there : k.tree.node? (x.sentinelPlace k.tree.current) = some s := by
      rw [between.off.1, between.off.2 _ (x.sentinelPlace_ne_logPlace _), stays]
    exact (access.of_frame (between.frame gone)).again there notDir confined' linkless' thorough

theorem linkless_haltingRunner : haltingRunner.Linkless := by
  intro args t
  unfold haltingRunner
  split
  · exact t.noNewLinks_eraseBelow _
  · exact .refl t

theorem status_haltingRunner (args : List String) (t : FileTree) :
    (haltingRunner args t).1 = .ok 1 := by
  unfold haltingRunner
  split <;> rfl

theorem failsAtData_halting :
    FailsAtData haltingRunner smallRemoval (Machine.ofTree smallTree) := by
  generalize hm : Machine.ofTree smallTree = m
  have succeeds : (smallRemoval.performAll haltingRunner [.placeSentinel, .dropLog] m).1.toOption =
      some () := by
    rw [← hm]
    decide +kernel
  refine ⟨_, Prod.ext (eq_ok_of_toOption succeeds) rfl, ?_⟩
  rw [status_haltingRunner]
  simp

/-- What the failed attempt at the one backup leaves. -/
def halted : Machine :=
  (smallRemoval.run haltingRunner (Machine.ofTree smallTree)).2

/-- The same with the log put back. -/
def mended : Machine :=
  { halted with tree := halted.tree.set ["logs", "2024-02-29-d-h-v.log"] (.file .empty) }

theorem meanwhile_mended : smallRemoval.Meanwhile halted.tree mended.tree := by
  have place : smallRemoval.logPlace halted.tree.current = ["logs", "2024-02-29-d-h-v.log"] := by
    decide +kernel
  have notRoot : ["logs", "2024-02-29-d-h-v.log"] ≠ [] := by simp
  have off := FileTree.agreesOff_set halted.tree notRoot (.file .empty)
  have there := FileTree.node?_set halted.tree notRoot (.file .empty)
    ["logs", "2024-02-29-d-h-v.log"]
  rw [if_pos rfl] at there
  constructor
  · rw [place]
    exact off
  · intro target link
    rw [place] at link
    exact absurd (there.symm.trans link) (by simp)

/-- A runner that does what it is told to. -/
def plainRunner : Runner := .scriptedRemoval fun _ => {}

/-- With its log put back the backup is removed. -/
theorem retried_mended :
    (haltingRunner.Confined ∧ haltingRunner.Linkless ∧ plainRunner.Confined ∧
      plainRunner.Linkless ∧ plainRunner.Thorough) ∧
    smallRemoval.Direct (Machine.ofTree smallTree).tree ∧
    smallRemoval.Outside (Machine.ofTree smallTree).tree.current ∧
    FailsAtData haltingRunner smallRemoval (Machine.ofTree smallTree) ∧
    smallRemoval.Meanwhile halted.tree mended.tree ∧ Retried plainRunner smallRemoval mended ∧
    (smallRemoval.run plainRunner mended).1 = .ok () := by
  have confined : plainRunner.Confined := Runner.confined_scriptedRemoval fun _ => rfl
  have linkless : plainRunner.Linkless := Runner.linkless_scriptedRemoval _
  have thorough : plainRunner.Thorough := Runner.thorough_scriptedRemoval
  have direct : smallRemoval.Direct (Machine.ofTree smallTree).tree :=
    smallRemoval.direct_of_linkless (FileTree.linkless_of_all (by decide))
  have outside : smallRemoval.Outside (Machine.ofTree smallTree).tree.current := by
    unfold Outside
    decide +kernel
  have fails := failsAtData_halting
  have attempts := (retried confined_haltingRunner linkless_haltingRunner confined linkless
    thorough direct outside fails).2.2.2
  rw [← halted] at attempts
  have succeeds : (smallRemoval.run plainRunner mended).1.toOption = some () := by decide +kernel
  exact ⟨⟨confined_haltingRunner, linkless_haltingRunner, confined, linkless, thorough⟩, direct,
    outside, fails, meanwhile_mended, attempts mended meanwhile_mended,
    eq_ok_of_toOption succeeds⟩

/-- Otherwise the other attempt fails as well, and the rest of the data stays. -/
theorem not_retried_halted :
    smallTree.isDir smallRemoval.dataPath = true ∧ smallTree.isThere smallRemoval.logPath = true ∧
    FailsAtData haltingRunner smallRemoval (Machine.ofTree smallTree) ∧ plainRunner.Thorough ∧
    (smallRemoval.run plainRunner halted).1 ≠ .ok () ∧
    (smallRemoval.run plainRunner halted).2.tree.isDir smallRemoval.dataPath = true ∧
    (smallRemoval.run plainRunner halted).2.tree.isThere smallRemoval.sentinelPath = true := by
  have refused : (smallRemoval.run plainRunner halted).1.toOption = none := by decide +kernel
  refine ⟨by decide +kernel, by decide +kernel, failsAtData_halting,
    Runner.thorough_scriptedRemoval, fun ok => ?_, by decide +kernel, by decide +kernel⟩
  rw [ok] at refused
  cases refused

end Removal

end BackupRetention
