import BackupRetention.Proofs.Text.Lines
import BackupRetention.State.LogFile

/-!
# The last line of a log

The last line of a log with anything on it decides about its backup, whatever blanks come after it
and whatever the line ends are.

## Main definitions

* `LogFile.lastWritten?`: the last line that is not blank.
* `LogFile.EndsInError`: a log whose last line that is not blank reports an error.

## Main results

* `LogFile.outcome_eq_ite`: the status of a log by its last line that is not blank.
* `LogFile.decided_by_last_line`: which logs report an error.
-/

namespace BackupRetention.LogFile

open Text (pieces isBlank dropReturn)

variable {cs line blanks : List Char}

/-- There is nothing but blanks on a blank line. -/
theorem isBlankLine_iff : isBlankLine line = true ↔ ∀ c ∈ line, isBlank c = true := by
  rw [isBlankLine, List.isEmpty_iff, ← Text.trims_iff]
  constructor
  · rintro ⟨⟨before, after, whole, blank⟩, -, -⟩
    rwa [whole, List.append_nil]
  · exact fun blank => ⟨⟨line, [], by simp, by simpa using blank⟩, by simp, by simp⟩

theorem isBlankLine_dropReturn (line : List Char) :
    isBlankLine (dropReturn line) = isBlankLine line := by
  rw [isBlankLine, isBlankLine, Text.trimChars_dropReturn]

/-- The mark does not end in a carriage return. -/
theorem errorMark_prefix_dropReturn : errorMark <+: dropReturn line ↔ errorMark <+: line := by
  unfold dropReturn
  split
  · next last =>
    obtain ⟨front, rfl⟩ := List.getLast?_eq_some_iff.1 last
    rw [List.dropLast_concat, List.prefix_concat_iff, or_iff_right]
    intro same
    have colon : errorMark.getLast? = some ':' := by decide
    rw [same] at colon
    simp at colon
  · rfl

theorem isBlankLine_of_errorMark (marked : errorMark <+: line) : isBlankLine line = false := by
  obtain ⟨rest, rfl⟩ := marked
  rw [← Bool.not_eq_true, isBlankLine_iff]
  exact fun blank => absurd (blank 'E' (List.mem_append_left _ (by decide))) (by decide)

/-! ## The last line that is not blank -/

/-- The last line that is not blank, with the carriage return at its end. -/
def lastWritten? (cs : List Char) : Option (List Char) :=
  (pieces '\n' cs).reverse.find? (!isBlankLine ·)

/-- A blank text after the last line changes nothing. -/
theorem lastWritten?_append_blank (blank : ∀ c ∈ blanks, isBlank c = true) :
    lastWritten? (cs ++ '\n' :: blanks) = lastWritten? cs := by
  have none : (pieces '\n' blanks).reverse.find? (!isBlankLine ·) = none := by
    rw [List.find?_eq_none]
    intro piece inside
    have own : isBlankLine piece = true := isBlankLine_iff.2 fun c hc =>
      blank c (Text.subset_of_mem_pieces (List.mem_reverse.1 inside) hc)
    simp [own]
  rw [lastWritten?, Text.pieces_append_cons, List.reverse_append, List.find?_append, none,
    Option.none_or, lastWritten?]

theorem lastWritten?_of_line (single : '\n' ∉ line) (written : isBlankLine line = false) :
    lastWritten? line = some line := by
  rw [lastWritten?, Text.pieces_of_not_mem single]
  simp [written]

/-- A line that is not blank is the last one wherever it is added. -/
theorem lastWritten?_append_line (cs : List Char) (single : '\n' ∉ line)
    (written : isBlankLine line = false) : lastWritten? (cs ++ '\n' :: line) = some line := by
  rw [lastWritten?, Text.pieces_append_cons, Text.pieces_of_not_mem single, List.reverse_append,
    List.reverse_singleton, List.singleton_append, List.find?_cons_of_pos (by simp [written])]

/-- The status of a log is told by its last line that is not blank. -/
theorem outcome_eq_ite (text : String) : outcome text =
    if ∃ line ∈ lastWritten? text.toList, errorMark <+: line then 1 else 0 := by
  obtain ⟨before, last, cut⟩ := Text.exists_pieces_eq '\n' text.toList
  have unreturned : ((!isBlankLine ·) ∘ dropReturn : List Char → Bool) = (!isBlankLine ·) :=
    funext fun line => congrArg Bool.not (isBlankLine_dropReturn line)
  rw [outcome, Text.lines_of_pieces cut, lastWritten?, cut, List.reverse_append,
    List.reverse_append, List.find?_append, List.find?_append, ← List.map_reverse,
    List.find?_map, unreturned]
  cases blank : isBlankLine last with
  | true =>
    have skipped : ([last].filter (· ≠ [])).reverse.find? (!isBlankLine ·) = none := by
      rw [List.find?_eq_none]
      intro line inside
      obtain rfl : line = last := by simpa using (List.mem_filter.1 (List.mem_reverse.1 inside)).1
      simp [blank]
    rw [skipped]
    cases before.reverse.find? (!isBlankLine ·) <;> simp [blank, errorMark_prefix_dropReturn]
  | false =>
    have more : last ≠ [] := by
      rintro rfl
      exact absurd blank (by decide)
    simp [blank, more]

/-! ## Logs that report an error -/

/-- The text `cs` is some lines, a line that starts with the mark of an error, and blank lines. -/
structure EndsInError (cs before line after : List Char) : Prop where
  whole : cs = before ++ line ++ after
  starts : before = [] ∨ before.getLast? = some '\n'
  single : '\n' ∉ line
  marked : errorMark <+: line
  ends : after = [] ∨ after.head? = some '\n'
  blank : ∀ c ∈ after, isBlank c = true

theorem EndsInError.lastWritten?_eq {before after : List Char}
    (h : EndsInError cs before line after) : lastWritten? cs = some line := by
  have written := isBlankLine_of_errorMark h.marked
  have own : lastWritten? (before ++ line) = some line := by
    rcases h.starts with rfl | last
    · exact lastWritten?_of_line h.single written
    · obtain ⟨front, rfl⟩ := List.getLast?_eq_some_iff.1 last
      rw [List.append_assoc]
      exact lastWritten?_append_line front h.single written
  rw [h.whole]
  rcases h.ends with rfl | first
  · rwa [List.append_nil]
  · obtain ⟨blanks, rfl⟩ := List.head?_eq_some_iff.1 first
    rw [lastWritten?_append_blank fun c inside => h.blank c (List.mem_cons_of_mem _ inside), own]

theorem exists_endsInError (last : lastWritten? cs = some line) (marked : errorMark <+: line) :
    ∃ before after, EndsInError cs before line after := by
  obtain ⟨-, later, earlier, order, blank⟩ := List.find?_eq_some_iff_append.1 last
  have cut : pieces '\n' cs = earlier.reverse ++ line :: later.reverse := by
    simpa using congrArg List.reverse order
  have inside : line ∈ pieces '\n' cs := by simp [cut]
  refine ⟨_, _, Text.eq_of_pieces cut, ?_, Text.not_mem_of_mem_pieces inside, marked, ?_, ?_⟩
  · cases earlier with
    | nil => exact .inl rfl
    | cons => exact .inr (by simp)
  · cases later.reverse with
    | nil => exact .inl rfl
    | cons => exact .inr rfl
  · intro c inside
    obtain ⟨piece, hp, hc⟩ := List.mem_flatMap.1 inside
    rcases List.mem_cons.1 hc with rfl | hc
    · exact Text.isBlank_lineFeed
    · exact isBlankLine_iff.1 (by simpa using blank piece (List.mem_reverse.1 hp)) c hc

theorem exists_endsInError_iff : (∃ before line after, EndsInError cs before line after) ↔
    ∃ line ∈ lastWritten? cs, errorMark <+: line := by
  constructor
  · rintro ⟨before, line, after, error⟩
    exact ⟨line, error.lastWritten?_eq, error.marked⟩
  · rintro ⟨line, last, marked⟩
    obtain ⟨before, after, error⟩ := exists_endsInError last marked
    exact ⟨before, line, after, error⟩

/-- The last line of a log that is not blank decides: a log reports an error if and only if it is
some lines, a line that starts with the mark, and blanks from the end of that line on. More blanks
behind the last line change nothing, and one more line that is not blank decides alone. -/
theorem decided_by_last_line (text : String) :
    (outcome text = 1 ↔ ∃ before line after, EndsInError text.toList before line after) ∧
    (outcome text = 0 ↔ ¬ ∃ before line after, EndsInError text.toList before line after) ∧
    (∀ blanks : String, (∀ c ∈ blanks.toList, isBlank c = true) →
      outcome (text ++ "\n" ++ blanks) = outcome text) ∧
    ∀ line : String, '\n' ∉ line.toList → (∃ c ∈ line.toList, isBlank c = false) →
      outcome (text ++ "\n" ++ line) = outcome line ∧
        outcome line = if errorMark <+: line.toList then 1 else 0 := by
  have letters (more : String) :
      (text ++ "\n" ++ more).toList = text.toList ++ '\n' :: more.toList := by
    simp
  refine ⟨?_, ?_, ?_, ?_⟩
  · rw [exists_endsInError_iff, outcome_eq_ite]
    split
    · next error => exact iff_of_true rfl error
    · next fine => exact iff_of_false (by decide) fine
  · rw [exists_endsInError_iff, outcome_eq_ite]
    split
    · next error => exact iff_of_false (by decide) (not_not_intro error)
    · next fine => exact iff_of_true rfl fine
  · intro blanks blank
    simp only [outcome_eq_ite, letters, lastWritten?_append_blank blank]
  · rintro line single ⟨c, inside, written⟩
    have own : isBlankLine line.toList = false := by
      rw [← Bool.not_eq_true, isBlankLine_iff]
      exact fun blank => by simp [blank c inside] at written
    simp [outcome_eq_ite, letters, lastWritten?_append_line _ single own,
      lastWritten?_of_line single own]

/-- A carriage return in front of the last line feed, and no line feed behind an error. -/
theorem decided_by_last_line_returns :
    outcome "ok\r\nERROR: status 23\r\n \x0b\r\n" = 1 ∧
      (∀ c ∈ " \t\r\n".toList, isBlank c = true) ∧
      outcome ("ERROR: status 23\r" ++ "\n" ++ " \t\r\n") = 1 ∧
      outcome ("ERROR: status 23" ++ "\n" ++ " ERROR: indented") = 0 := by
  have blank : ∀ c ∈ " \t\r\n".toList, isBlank c = true := List.all_eq_true.1 (by decide)
  obtain ⟨reports, -⟩ := decided_by_last_line "ok\r\nERROR: status 23\r\n \x0b\r\n"
  obtain ⟨-, -, same, -⟩ := decided_by_last_line "ERROR: status 23\r"
  obtain ⟨-, -, -, alone⟩ := decided_by_last_line "ERROR: status 23"
  obtain ⟨last, own⟩ := alone " ERROR: indented" (by decide) ⟨'E', by decide, by decide⟩
  refine ⟨reports.2 ⟨"ok\r\n".toList, "ERROR: status 23\r".toList, "\n \x0b\r\n".toList, ?_⟩,
    blank, (same _ blank).trans (by decide), last.trans (own.trans (by decide))⟩
  exact ⟨by decide, .inr (by decide), by decide, by decide, .inr (by decide),
    List.all_eq_true.1 (by decide)⟩

end BackupRetention.LogFile
