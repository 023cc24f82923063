import BackupRetention.Proofs.Prune.Steps

/-!
# Removals that stop halfway

A removal can stop after any of its steps, and the system can refuse any of them. Wherever it
stops, data of which a part may be missing has its sentinel beside it and its log is gone.

## Main definitions

* `Removal.attempt`: a step that the system may refuse.
* `Removal.stopped`: a removal that stops after some steps.
* `Removal.CrashSafe`: what holds wherever a removal stops.

## Main results

* `Removal.course`: all that can come of a removal.
* `Removal.crashSafe`: every removal is safe.
-/

namespace BackupRetention.Removal

/-! ## Stopping and refusing -/

/-- One step; a file operation that is refused changes nothing. Whether data is removed is up to
the runner alone, and a sentinel may stay behind. -/
def attempt (refused : Step → Option Fault) (runner : Runner) (x : Removal) (s : Step)
    (m : Machine) : Except Fault Unit × Machine :=
  match s, refused s with
  | .placeSentinel, some f => (.error f, m)
  | .dropLog, some f => (.error f, m)
  | .clearSentinel, some _ => (.ok (), m)
  | s, _ => x.perform runner s m

/-- Takes steps in order until one fails. -/
def attemptAll (refused : Step → Option Fault) (runner : Runner) (x : Removal) :
    List Step → Machine → Except Fault Unit × Machine
  | [], m => (.ok (), m)
  | s :: rest, m =>
    match x.attempt refused runner s m with
    | (.error f, m) => (.error f, m)
    | (.ok (), m) => x.attemptAll refused runner rest m

/-- A removal that goes no further than its first `n` steps. -/
def stopped (refused : Step → Option Fault) (runner : Runner) (x : Removal) (m : Machine)
    (n : Nat) : Except Fault Unit × Machine :=
  x.attemptAll refused runner (steps.take n) m

/-- Where nothing is refused the steps are those of a removal. -/
theorem attemptAll_unrefused (runner : Runner) (x : Removal) (ss : List Step) (m : Machine) :
    x.attemptAll (fun _ => none) runner ss m = x.performAll runner ss m := by
  induction ss generalizing m with
  | nil => rfl
  | cons s ss ih =>
    have same : x.attempt (fun _ => none) runner s m = x.perform runner s m := by cases s <;> rfl
    rw [attemptAll, performAll, same]
    rcases x.perform runner s m with ⟨_ | _, n⟩ <;> simp [ih]

/-- A removal that is neither stopped nor refused anything. -/
theorem stopped_unrefused (runner : Runner) (x : Removal) (m : Machine) :
    x.stopped (fun _ => none) runner m 4 = x.run runner m :=
  x.attemptAll_unrefused runner steps m

/-! ## What can happen -/

section Course

variable (refused : Step → Option Fault) (runner : Runner) (x : Removal) (m : Machine)

/-- All that can come of a removal: the step that fails, if any, and where the machine is then,
however many steps follow. -/
inductive Course : Prop where
  | unplaced (f : Fault) (after : ∀ n, x.stopped refused runner m (n + 1) = (.error f, m))
  | undropped (f : Fault) (one : Machine) (placed : x.Placed m one)
      (first : x.stopped refused runner m 1 = (.ok (), one))
      (after : ∀ n, x.stopped refused runner m (n + 2) = (.error f, one))
  | unremoved (f : Fault) (one two : Machine) (placed : x.Placed m one)
      (first : x.stopped refused runner m 1 = (.ok (), one)) (dropped : x.Dropped one two)
      (second : x.stopped refused runner m 2 = (.ok (), two))
      (failed : (runner (removeTree x.dataPath) two.tree).1 ≠ .ok 0)
      (after : ∀ n, x.stopped refused runner m (n + 3) =
        (.error f, (x.removeData runner two).2))
  | done (one two : Machine) (last : Machine) (placed : x.Placed m one)
      (first : x.stopped refused runner m 1 = (.ok (), one)) (dropped : x.Dropped one two)
      (second : x.stopped refused runner m 2 = (.ok (), two))
      (succeeded : (runner (removeTree x.dataPath) two.tree).1 = .ok 0)
      (third : x.stopped refused runner m 3 = (.ok (), (x.removeData runner two).2))
      (after : ∀ n, x.stopped refused runner m (n + 4) = (.ok (), last))

variable {x m}

theorem attempt_placeSentinel (direct : x.Direct m.tree) :
    (∃ f, x.attempt refused runner .placeSentinel m = (.error f, m)) ∨
      ∃ n, x.attempt refused runner .placeSentinel m = (.ok (), n) ∧ x.Placed m n := by
  unfold attempt
  cases refused .placeSentinel with
  | some f => exact .inl ⟨f, rfl⟩
  | none =>
    rcases placeSentinel_cases x m with ⟨e, h⟩ | ⟨_, u, -, h⟩
    · exact .inl ⟨_, h⟩
    · exact .inr ⟨_, h, placed_of_placeSentinel direct.sentinel h⟩

theorem attempt_dropLog (direct : x.Direct m.tree) :
    (∃ f, x.attempt refused runner .dropLog m = (.error f, m)) ∨
      ∃ n, x.attempt refused runner .dropLog m = (.ok (), n) ∧ x.Dropped m n := by
  unfold attempt
  cases refused .dropLog with
  | some f => exact .inl ⟨f, rfl⟩
  | none =>
    rcases dropLog_cases x m with ⟨e, h⟩ | ⟨u, -, h⟩
    · exact .inl ⟨_, h⟩
    · exact .inr ⟨_, h, dropped_of_dropLog direct.log h⟩

theorem attempt_removeData :
    x.attempt refused runner .removeData m = x.removeData runner m := by
  unfold attempt
  cases refused .removeData <;> rfl

theorem attempt_clearSentinel :
    ∃ n, x.attempt refused runner .clearSentinel m = (.ok (), n) := by
  unfold attempt
  cases refused .clearSentinel with
  | some f => exact ⟨m, rfl⟩
  | none => exact ⟨_, rfl⟩

/-- Only removing the data depends on the runner. -/
theorem attempt_of_ne (other runner : Runner) (x : Removal) {s : Step} (hs : s ≠ .removeData)
    (m : Machine) : x.attempt refused other s m = x.attempt refused runner s m := by
  unfold attempt
  cases s with
  | removeData => exact absurd rfl hs
  | _ => cases refused _ <;> rfl

/-- One of these is what comes of a removal. -/
theorem course (direct : x.Direct m.tree) : Course refused runner x m := by
  rcases attempt_placeSentinel refused runner direct with ⟨f, h⟩ | ⟨one, hone, placed⟩
  · exact .unplaced f fun n => by simp [stopped, steps, attemptAll, h]
  have first : x.stopped refused runner m 1 = (.ok (), one) := by
    simp [stopped, steps, attemptAll, hone]
  rcases attempt_dropLog refused runner (direct.placed placed) with
    ⟨f, h⟩ | ⟨two, htwo, dropped⟩
  · exact .undropped f one placed first fun n => by simp [stopped, steps, attemptAll, hone, h]
  have second : x.stopped refused runner m 2 = (.ok (), two) := by
    simp [stopped, steps, attemptAll, hone, htwo]
  have status := removeData_ok_iff runner x two
  rcases hthree : x.removeData runner two with ⟨f | ⟨⟩, three⟩
  · have failed : (runner (removeTree x.dataPath) two.tree).1 ≠ .ok 0 := fun ok => by
      simpa [hthree] using status.2 ok
    refine .unremoved f one two placed first dropped second failed fun n => ?_
    simp [stopped, steps, attemptAll, hone, htwo, attempt_removeData, hthree]
  · obtain ⟨last, hlast⟩ := attempt_clearSentinel refused runner (x := x) (m := three)
    refine .done one two last placed first dropped second (status.1 (by rw [hthree])) ?_ fun n => ?_
    · simp [stopped, steps, attemptAll, hone, htwo, attempt_removeData, hthree]
    · simp [stopped, steps, attemptAll, hone, htwo, attempt_removeData, hthree, hlast]

end Course

/-! ## Safety -/

/-- What holds wherever a removal stops and whatever is refused. -/
structure CrashSafe (refused : Step → Option Fault) (runner : Runner) (x : Removal) (m : Machine) :
    Prop where
  /-- The data is only given to a runner while the sentinel is there and the log is not: what it
  would do at any other time makes no difference. -/
  guarded : ∀ other : Runner,
    (∀ t, t.isThere x.sentinelPath = true → t.isThere x.logPath = false →
      other (removeTree x.dataPath) t = runner (removeTree x.dataPath) t) →
    ∀ n, x.stopped refused other m n = x.stopped refused runner m n
  /-- Without a sentinel nothing changes at all. -/
  unplaced : (x.stopped refused runner m 1).1 ≠ .ok () →
    ∀ n, (x.stopped refused runner m n).2.tree = m.tree
  /-- While the log stays nothing changes but the sentinel. -/
  undropped : (x.stopped refused runner m 2).1 ≠ .ok () →
    ∀ n, FileTree.AgreesOff (· = x.sentinelPlace m.tree.current) m.tree
      (x.stopped refused runner m n).2.tree
  /-- While the log stays no data changes. -/
  untouched : (x.stopped refused runner m 2).1 ≠ .ok () → ∀ n l, x.dataPlace m.tree.current <+: l →
    (x.stopped refused runner m n).2.tree.node? l = m.tree.node? l
  /-- A sentinel that was placed is only missing once the runner has succeeded. -/
  kept : (x.stopped refused runner m 1).1 = .ok () → ∀ n, 1 ≤ n →
    (x.stopped refused runner m n).2.tree.node? (x.sentinelPlace m.tree.current) = none →
    4 ≤ n ∧ (x.stopped refused runner m 2).1 = .ok () ∧
      (runner (removeTree x.dataPath) (x.stopped refused runner m 2).2.tree).1 = .ok 0
  /-- A removal succeeds if the sentinel is placed, the log goes and the runner succeeds. -/
  outcome : ∀ n, 4 ≤ n → ((x.stopped refused runner m n).1 = .ok () ↔
    (x.stopped refused runner m 1).1 = .ok () ∧ (x.stopped refused runner m 2).1 = .ok () ∧
      (runner (removeTree x.dataPath) (x.stopped refused runner m 2).2.tree).1 = .ok 0)
  /-- A removal that fails later on leaves the sentinel. -/
  failed : (x.stopped refused runner m 1).1 = .ok () → ∀ n,
    (x.stopped refused runner m n).1 ≠ .ok () →
    (x.stopped refused runner m n).2.tree.node? (x.sentinelPlace m.tree.current) ≠ none

section Safety

variable {refused : Step → Option Fault} {runner : Runner} {x : Removal} {m one two : Machine}

/-- Taking the log away leaves the sentinel. -/
theorem Dropped.sentinel (placed : x.Placed m one) (dropped : x.Dropped one two) :
    two.tree.current = m.tree.current ∧
      two.tree.node? (x.sentinelPlace m.tree.current) ≠ none := by
  have current : one.tree.current = m.tree.current := placed.alters.off.1
  refine ⟨dropped.alters.off.1.trans current, ?_⟩
  rw [dropped.alters.off.2 _ (by rw [current]; exact x.sentinelPlace_ne_logPlace _)]
  exact placed.there

/-- Removing the data leaves the sentinel. -/
theorem sentinel_removeData (confined : runner.Confined) (direct : x.Direct m.tree)
    (placed : x.Placed m one) (dropped : x.Dropped one two) :
    (x.removeData runner two).2.tree.node? (x.sentinelPlace m.tree.current) ≠ none := by
  obtain ⟨current, there⟩ := dropped.sentinel placed
  rw [(agreesOff_removeData confined ((direct.placed placed).dropped dropped)).2]
  · exact there
  · rw [current]
    exact x.not_dataPlace_prefix_sentinelPlace _

/-- When the runner is started the sentinel is there and the log is not. -/
theorem guarded_of_dropped (direct : x.Direct m.tree) (placed : x.Placed m one)
    (dropped : x.Dropped one two) :
    two.tree.isThere x.sentinelPath = true ∧ two.tree.isThere x.logPath = false := by
  obtain ⟨current, there⟩ := dropped.sentinel placed
  obtain ⟨_, found⟩ := placed.found
  have links := placed.alters.links.trans dropped.alters.links
  have sentinel := FileTree.lookup_of_dirs direct.sentinel links current
    (fun l _ dir => dropped.alters.dirs l (placed.alters.dirs l dir)) x.endsIn_sentinelPath
    found true
  obtain ⟨_, ends⟩ := x.exists_endsIn_logPath
  obtain ⟨_, foundLog⟩ := dropped.found
  have log := FileTree.lookup_of_dirs (direct.placed placed).log dropped.alters.links
    dropped.alters.off.1 (fun l _ => dropped.alters.dirs l) ends foundLog true
  rw [FileTree.isThere_eq sentinel, FileTree.isThere_eq log, current, ← sentinelPlace,
    ← placed.alters.off.1, ← logPlace, placed.alters.off.1]
  have gone := dropped.gone
  rw [placed.alters.off.1] at gone
  exact ⟨Option.isSome_iff_ne_none.2 there, by rw [gone]; rfl⟩

/-- A runner that does the same whenever it may be started makes no difference. -/
theorem stopped_congr (direct : x.Direct m.tree) {other : Runner}
    (same : ∀ t, t.isThere x.sentinelPath = true → t.isThere x.logPath = false →
      other (removeTree x.dataPath) t = runner (removeTree x.dataPath) t) (n : Nat) :
    x.stopped refused other m n = x.stopped refused runner m n := by
  have place := attempt_of_ne refused other runner x (s := .placeSentinel) (by decide) m
  have drop := attempt_of_ne refused other runner x (s := .dropLog) (by decide)
  have clear := attempt_of_ne refused other runner x (s := .clearSentinel) (by decide)
  rcases attempt_placeSentinel refused runner direct with ⟨f, h⟩ | ⟨one, h, placed⟩
  · rcases n with _ | n <;> simp [stopped, steps, attemptAll, place, h]
  rcases attempt_dropLog refused runner (direct.placed placed) with
    ⟨f, h'⟩ | ⟨two, h', dropped⟩
  · rcases n with _ | _ | n <;> simp [stopped, steps, attemptAll, place, h, drop, h']
  · obtain ⟨sentinel, log⟩ := guarded_of_dropped direct placed dropped
    -- This is the only step that asks the runner, and what is promised of it holds here.
    have data : x.removeData other two = x.removeData runner two := by
      rw [removeData, removeData, Machine.execute, Machine.execute, same two.tree sentinel log]
    rcases n with _ | _ | _ | _ | n <;>
      simp [stopped, steps, attemptAll, place, h, drop, h', attempt_removeData, data, clear]

theorem unplaced_of_course (course : Course refused runner x m)
    (h : (x.stopped refused runner m 1).1 ≠ .ok ()) (n : Nat) :
    (x.stopped refused runner m n).2.tree = m.tree := by
  cases course with
  | unplaced f after =>
    cases n with
    | zero => rfl
    | succ n => rw [after]
  | undropped _ _ _ first | unremoved _ _ _ _ first | done _ _ _ _ first => simp [first] at h

theorem undropped_of_course (course : Course refused runner x m)
    (h : (x.stopped refused runner m 2).1 ≠ .ok ()) (n : Nat) :
    FileTree.AgreesOff (· = x.sentinelPlace m.tree.current) m.tree
      (x.stopped refused runner m n).2.tree := by
  cases course with
  | unplaced f after =>
    cases n with
    | zero => exact .refl _ _
    | succ n =>
      rw [after]
      exact .refl _ _
  | undropped f one placed first after =>
    match n with
    | 0 => exact .refl _ _
    | 1 =>
      rw [first]
      exact placed.alters.off
    | n + 2 =>
      rw [after]
      exact placed.alters.off
  | unremoved _ _ _ _ _ _ second | done _ _ _ _ _ _ second => simp [second] at h

/-- Where the sentinel stands, once it was placed, until the last step. -/
theorem sentinel_of_course (confined : runner.Confined) (direct : x.Direct m.tree)
    (course : Course refused runner x m) (h : (x.stopped refused runner m 1).1 = .ok ())
    {n : Nat} (hn : 1 ≤ n) (stays : n ≤ 3 ∨ (x.stopped refused runner m n).1 ≠ .ok ()) :
    (x.stopped refused runner m n).2.tree.node? (x.sentinelPlace m.tree.current) ≠ none := by
  cases course with
  | unplaced f after => simp [after 0] at h
  | undropped f one placed first after =>
    match n, hn with
    | 1, _ => rw [first]; exact placed.there
    | n + 2, _ => rw [after]; exact placed.there
  | unremoved f one two placed first dropped second failed after =>
    match n, hn with
    | 1, _ => rw [first]; exact placed.there
    | 2, _ => rw [second]; exact (dropped.sentinel placed).2
    | n + 3, _ => rw [after]; exact sentinel_removeData confined direct placed dropped
  | done one two last placed first dropped second succeeded third after =>
    match n, hn with
    | 1, _ => rw [first]; exact placed.there
    | 2, _ => rw [second]; exact (dropped.sentinel placed).2
    | 3, _ => rw [third]; exact sentinel_removeData confined direct placed dropped
    | n + 4, _ => simp [after] at stays

theorem outcome_of_course (course : Course refused runner x m) {n : Nat} (hn : 4 ≤ n) :
    (x.stopped refused runner m n).1 = .ok () ↔
      (x.stopped refused runner m 1).1 = .ok () ∧ (x.stopped refused runner m 2).1 = .ok () ∧
        (runner (removeTree x.dataPath) (x.stopped refused runner m 2).2.tree).1 = .ok 0 := by
  obtain ⟨n, rfl⟩ : ∃ k, n = k + 4 := ⟨n - 4, by omega⟩
  cases course with
  | unplaced f after => simp [after 0, after (n + 3)]
  | undropped f one placed first after => simp [after 0, after (n + 2)]
  | unremoved f one two placed first dropped second failed after =>
    simp [after (n + 1), second, failed]
  | done one two last placed first dropped second succeeded third after =>
    simp [after n, first, second, succeeded]

/-- A removal in a tree without links is safe wherever it stops and whatever is refused, if the
runner keeps to the data. -/
theorem crashSafe (refused : Step → Option Fault) (confined : runner.Confined) (x : Removal)
    (linkless : m.tree.Linkless) : CrashSafe refused runner x m := by
  have direct := x.direct_of_linkless linkless
  have course := course refused runner direct
  refine ⟨fun _ same => stopped_congr direct same, unplaced_of_course course,
    undropped_of_course course, ?_, ?_, fun n => outcome_of_course course, ?_⟩
  · intro h n l data
    refine (undropped_of_course course h n).2 l fun sentinel => ?_
    rw [sentinel] at data
    exact x.not_dataPlace_prefix_sentinelPlace _ data
  · intro placed n hn missing
    by_cases stays : n ≤ 3 ∨ (x.stopped refused runner m n).1 ≠ .ok ()
    · exact absurd missing (sentinel_of_course confined direct course placed hn stays)
    · rw [not_or, Nat.not_le, Classical.not_not] at stays
      obtain ⟨late, ok⟩ := stays
      exact ⟨late, ((outcome_of_course course late).1 ok).2⟩
  · intro placed n failed
    refine sentinel_of_course confined direct course placed ?_ (.inr failed)
    cases n with
    | zero => exact absurd rfl failed
    | succ n => omega

end Safety

/-- A store with one backup, and its log. -/
def smallTree : FileTree where
  nodes := [(["s"], .dir), (["s", "h"], .dir), (["s", "h", "v"], .dir),
    (["s", "h", "v", "2024-02-29"], .dir), (["s", "h", "v", "2024-02-29", "f"], .file .empty),
    (["logs"], .dir), (["logs", "2024-02-29-d-h-v.log"], .file .empty)]
  current := []
  changes := []

def smallRemoval : Removal := ⟨⟨"h", "v", "d", ⟨2024, 2, 29⟩, 0⟩, "s", "logs"⟩

/-- A runner that removes a part, what is called `f`, and then fails. -/
def haltingRunner : Runner := fun args t =>
  match t.find false (args.getLastD "") with
  | .ok (l, _) => (.ok 1, t.eraseBelow (l ++ ["f"]))
  | .error _ => (.ok 1, t)

theorem confined_haltingRunner : haltingRunner.Confined := by
  intro path t
  show FileTree.AgreesOff _ t (match t.find false path with
    | .ok (l, _) => ((.ok 1 : Except Fault Int), t.eraseBelow (l ++ ["f"]))
    | .error _ => (.ok 1, t)).2
  cases found : t.find false path with
  | error e => exact .refl _ t
  | ok place =>
    obtain ⟨l, n⟩ := place
    have reached : t.lookup false path = .ok (.found l n) := by
      unfold FileTree.find at found
      split at found <;> cases found
      assumption
    exact (FileTree.agreesOff_eraseBelow t _).mono fun k below =>
      ⟨.found l n, reached, (List.prefix_append l ["f"]).trans below⟩

/-- The runner fails halfway: a part of the data is gone, and the sentinel is there. -/
theorem crashSafe_halting : haltingRunner.Confined ∧ smallTree.Linkless ∧
    CrashSafe (fun _ => none) haltingRunner smallRemoval (Machine.ofTree smallTree) ∧
    (smallRemoval.run haltingRunner (Machine.ofTree smallTree)).2.tree.nodes =
      [(["s"], .dir), (["s", "h"], .dir), (["s", "h", "v"], .dir),
        (["s", "h", "v", "2024-02-29"], .dir), (["logs"], .dir),
        (["s", "h", "v", "2024-02-29.incomplete"], .file .empty)] := by
  have linkless : smallTree.Linkless := FileTree.linkless_of_all (by decide)
  exact ⟨confined_haltingRunner, linkless, crashSafe _ confined_haltingRunner _ linkless,
    by decide +kernel⟩

end BackupRetention.Removal
