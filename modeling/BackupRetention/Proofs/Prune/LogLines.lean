import BackupRetention.Proofs.Prune.LeftAlone

/-!
# Lines of the prune log

A pass that takes nothing away from the place of its log adds one line for each removal that it
notes, as long as the disk takes lines. A line is a line: nothing in it breaks it.

## Main definitions

* `Pass.line`: what is written about a removal.
* `Pass.taken`: the notes for which the disk takes lines.

## Main results

* `PruneLog.holds_openFor`: what an open log holds.
* `Pass.Course.holds`: what the log holds after some tries and notes.
-/

namespace BackupRetention

/-! ## Opening the log -/

namespace PruneLog

theorem openFor_cases {t u : FileTree} {logs : String} {today : Date} {log : PruneLog}
    (h : openFor logs today t = (.ok log, u)) : log.today = today ∧
      t.touch (pathFor logs today) = (.ok log.place, u) := by
  unfold openFor at h
  dsimp only at h
  generalize t.touch (pathFor logs today) = touched at h ⊢
  obtain ⟨e | l, v⟩ := touched
  · simp at h
  · obtain ⟨rfl, rfl⟩ : (⟨pathFor logs today, today, l⟩ : PruneLog) = log ∧ v = u := by
      simpa using h
    exact ⟨rfl, rfl⟩

/-- Without links on the way a log is opened at the place that its path names. -/
theorem alters_of_openFor {t u : FileTree} {logs : String} {today : Date} {log : PruneLog}
    (h : openFor logs today t = (.ok log, u)) (direct : t.Direct (pathFor logs today)) :
    log.place = Path.locate t.current (pathFor logs today) ∧ FileTree.Alters log.place t u := by
  have ends := Path.endsIn_join_of_plain logs (isPlain_fileName today)
  obtain ⟨-, place, alters, -⟩ := FileTree.alters_of_touch direct ends (openFor_cases h).2
  exact ⟨place, alters⟩

theorem exists_followed_of_openFor {t u : FileTree} {logs : String} {today : Date} {log : PruneLog}
    (h : openFor logs today t = (.ok log, u)) :
    ∃ place, t.lookup true (pathFor logs today) = .ok place := by
  have touched := (openFor_cases h).2
  rcases FileTree.touch_cases t (pathFor logs today) with
    ⟨e, he⟩ | ⟨l, n, there, -, -⟩ | ⟨l, vacant, -⟩
  · rw [he] at touched
    simp at touched
  · exact ⟨_, there⟩
  · exact ⟨_, vacant⟩

/-- The path of an open log leads somewhere, whether a link at its end is followed or not. -/
theorem exists_lookup_of_openFor {t u : FileTree} {logs : String} {today : Date} {log : PruneLog}
    (h : openFor logs today t = (.ok log, u)) :
    ∃ place, t.lookup false (pathFor logs today) = .ok place := by
  have noSlash := (Path.endsIn_join_of_plain logs (isPlain_fileName today)).noSlash
  obtain ⟨place, followed⟩ := exists_followed_of_openFor h
  exact FileTree.exists_lookup_unfollowed noSlash followed

/-- An open log holds what it held before, if it is an ordinary file. -/
theorem holds_openFor {t u : FileTree} {logs : String} {today : Date} {log : PruneLog}
    (h : openFor logs today t = (.ok log, u)) {place : Place}
    (followed : t.lookup true (pathFor logs today) = .ok place) (ordinary : place.IsOrdinary) :
    log.place = place.location ∧ u.Holds log.place (t.contentAt log.place) := by
  obtain ⟨-, touched⟩ := openFor_cases h
  have placed := (FileTree.lookup_eq_ok followed).2.placed
  rcases FileTree.touch_cases t (pathFor logs today) with
    ⟨e, he⟩ | ⟨l, n, there, notDir, hl⟩ | ⟨l, vacant, hl⟩
  · rw [he] at touched
    simp at touched
  · obtain ⟨same, rfl⟩ : l = log.place ∧ t = u := by simpa [hl] using touched
    obtain rfl : place = .found l n := by simpa [followed] using there
    have node : t.node? l = some n := placed.2 l n rfl notDir
    rw [← same]
    refine ⟨rfl, ?_⟩
    cases n with
    | file content => simp [FileTree.Holds, FileTree.contentAt, node]
    | dir => exact absurd rfl notDir
    | _ => exact ordinary.elim
  · obtain ⟨same, rfl⟩ : l = log.place ∧ t.set l (.file .empty) = u := by simpa [hl] using touched
    obtain rfl : place = .vacant l := by simpa [followed] using vacant
    have free : t.node? l = none := placed.1 l rfl
    have notRoot : l ≠ [] := by
      rintro rfl
      simp at free
    rw [← same]
    exact ⟨rfl, by simp [FileTree.Holds, FileTree.contentAt, free, t.node?_set notRoot]⟩

/-- A log that is no link is at a place of its own name. -/
theorem followed_of_unlinked {t : FileTree} {logs : String} {today : Date} {place : Place}
    (found : t.lookup false (pathFor logs today) = .ok place)
    (unlinked : ∀ l target, place ≠ .found l (.link target)) :
    t.lookup true (pathFor logs today) = .ok place ∧
      place.location.getLast? = some (fileName today) := by
  have ends := Path.endsIn_join_of_plain logs (isPlain_fileName today)
  exact ⟨FileTree.lookup_follow unlinked found,
    (FileTree.Leads.of_lookup found ends).last ends.proper ends.last⟩

end PruneLog

/-! ## What a pass writes -/

namespace Pass

/-- What is written about a removal. -/
def line (p : Pass) (today : Date) (t : Target) : Outcome → String
  | .ok () => PruneLog.removedLine today (p.removal t).dataPath
  | .error f => PruneLog.failedLine today (p.removal t).dataPath f

/-- Some lines one below the other. -/
def lines (p : Pass) (today : Date) (notes : List (Target × Outcome)) : String :=
  String.join (notes.map fun n => p.line today n.1 n.2 ++ "\n")

/-- The notes for which the disk takes lines. -/
def taken (p : Pass) (notes : List (Target × Outcome)) : List (Target × Outcome) :=
  match p.refusal with
  | none => notes
  | some refusal => notes.take refusal.room

theorem taken_prefix (p : Pass) (notes : List (Target × Outcome)) : p.taken notes <+: notes := by
  unfold taken
  split
  · exact List.prefix_refl _
  · exact List.take_prefix _ _

section Course

variable {p : Pass} {log : PruneLog} {m : Machine} {tries notes : List (Target × Outcome)}
  {s : Site} {old : ByteArray}

theorem Course.length_notes (course : Course p log m tries notes s) :
    s.removed.length + s.failed = notes.length := by
  induction course with
  | start => rfl
  | attempt t before ih => rwa [removed_removalJob, failed_removalJob]
  | @note t o _ notes s _ _ ih =>
    rw [List.length_append, List.length_singleton, ← ih]
    cases o with
    | ok =>
      simp only [Site.settle, Site.note, List.length_append, List.length_singleton]
      omega
    | error f =>
      simp only [Site.settle, Site.note]
      omega

/-- The disk takes every line up to the first that it refuses. -/
theorem taken_of_admitted (admitted : p.refused? s = none)
    (count : s.removed.length + s.failed = notes.length) (n : Target × Outcome) :
    p.taken notes = notes ∧ p.taken (notes ++ [n]) = notes ++ [n] := by
  unfold refused? at admitted
  unfold taken
  cases limit : p.refusal with
  | none => exact ⟨rfl, rfl⟩
  | some refusal =>
    have room : notes.length < refusal.room := by simpa [limit, count] using admitted
    refine ⟨List.take_of_length_le (by omega), List.take_of_length_le ?_⟩
    rw [List.length_append, List.length_singleton]
    omega

theorem taken_of_refused {e : IoFault} (refused : p.refused? s = some e)
    (count : s.removed.length + s.failed = notes.length) (n : Target × Outcome) :
    p.taken (notes ++ [n]) = p.taken notes := by
  unfold refused? at refused
  unfold taken
  cases limit : p.refusal with
  | none => simp [limit] at refused
  | some refusal =>
    have full : refusal.room ≤ notes.length := by
      simp only [limit, count, Option.ite_none_right_eq_some] at refused
      exact refused.1
    exact List.take_append_of_le_length full

/-- Noting what came of a removal adds a line, if the disk takes it. -/
theorem Site.holds_settle {content : ByteArray} (h : s.machine.tree.Holds log.place content)
    (t : Target) (o : Outcome) :
    (s.settle none log t.2 (p.removal t).dataPath o).machine.tree.Holds log.place
        (content ++ (p.line log.today t o ++ "\n").toUTF8) ∧
      (s.settle none log t.2 (p.removal t).dataPath o).unwritten = s.unwritten := by
  obtain ⟨u, appended, holds⟩ := h.append (p.line log.today t o ++ "\n")
  cases o with
  | ok =>
    rw [line] at appended
    simpa [settle, note, PruneLog.unlessRefused, PruneLog.removed, PruneLog.writeLine, appended]
      using holds
  | error f =>
    rw [line] at appended
    simpa [settle, note, PruneLog.unlessRefused, PruneLog.failed, PruneLog.writeLine, appended]
      using holds

/-- A line that the disk refuses leaves the log as it is. -/
theorem Site.settle_of_refused (s : Site) (e : IoFault) (log : PruneLog) (r : Record)
    (path : String) (o : Outcome) : (s.settle (some e) log r path o).machine = s.machine ∧
      (s.settle (some e) log r path o).unwritten.length = s.unwritten.length + 1 := by
  cases o <;> exact ⟨rfl, List.length_append⟩

/-- What the log holds after some tries and notes, and how many lines are lost. -/
theorem Course.holds (course : Course p log m tries notes s) (confined : p.runner.Confined)
    (avoids : ∀ before t o, before ++ [(t, o)] <+: tries → ∀ notes s,
      Course p log m before notes s →
        (p.removal t).Avoids p.runner Removal.steps s.machine log.place)
    (h : m.tree.Holds log.place old) :
    s.machine.tree.Holds log.place (old ++ (p.lines log.today (p.taken notes)).toUTF8) ∧
      s.unwritten.length + (p.taken notes).length = notes.length := by
  -- A try leaves the log as it is, a note adds its line: the lines follow the notes.
  induction course with
  | start =>
    rw [List.prefix_nil.1 (p.taken_prefix [])]
    have none : old ++ (p.lines log.today []).toUTF8 = old := by simp [lines]
    rw [none]
    exact ⟨h, rfl⟩
  | @attempt t tries notes s before ih =>
    obtain ⟨earlier, lost⟩ := ih fun first t o prefixed =>
      avoids first t o (prefixed.trans (List.prefix_append _ _))
    rw [machine_removalJob, unwritten_removalJob]
    have kept := avoids tries t _ (List.prefix_refl _) notes s before
    exact ⟨Removal.holds_run confined kept earlier, lost⟩
  | @note t o tries notes s known before ih =>
    obtain ⟨earlier, lost⟩ := ih avoids
    cases refusal : p.refused? s with
    | none =>
      obtain ⟨all, more⟩ := taken_of_admitted refusal before.length_notes (t, o)
      rw [all] at earlier lost
      obtain ⟨written, same⟩ := Site.holds_settle (p := p) earlier t o
      have content : old ++ (p.lines log.today (notes ++ [(t, o)])).toUTF8 =
          old ++ (p.lines log.today notes).toUTF8 ++ (p.line log.today t o ++ "\n").toUTF8 := by
        simp [lines, ByteArray.append_assoc]
      rw [more, content, same]
      refine ⟨written, ?_⟩
      rw [List.length_append]
      omega
    | some e =>
      obtain ⟨kept, more⟩ := s.settle_of_refused e log t.2 (p.removal t).dataPath o
      rw [taken_of_refused refusal before.length_notes, kept, more, List.length_append,
        List.length_singleton]
      exact ⟨earlier, by omega⟩

end Course

end Pass

end BackupRetention
