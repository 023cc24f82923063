import BackupRetention.Proofs.State.Reading
import BackupRetention.Proofs.Text.Pieces

/-!
# What a log tells

The name of a log tells which backup it is of, and its last line that is not blank tells whether
the backup failed. Here both are said without the reader: a name is put together from its parts,
and a text consists of lines.

## Main definitions

* `LogFile.Tells`: a name tells a date, a device, a host and a volume.
* `LogFile.Failed`: a text reports a failure.

## Main results

* `LogFile.label?_eq_some_iff`: the names that the reader takes, and what it takes them for.
* `LogFile.tells_iff`: the reader takes a name for what it tells.
* `State.recorded_eq_some_iff`: what an entry of the logs records.
-/

namespace BackupRetention

namespace LogFile

theorem dropEnding?_eq_some_iff {tail cs stem : List Char} :
    dropEnding? tail cs = some stem ↔ cs = stem ++ tail := by
  constructor
  · intro h
    unfold dropEnding? at h
    split at h
    · next whole =>
      obtain ⟨front, rfl⟩ := whole
      simpa using Option.some.inj h
    · cases h
  · rintro rfl
    exact dropEnding?_append tail stem

/-- Names can stand in the name of a log: with `-` between them they can be told apart. -/
def Separable (parts : List String) : Prop := ∀ part ∈ parts, part ≠ "" ∧ '-' ∉ part.toList

/-- The date of a log is written in digits. -/
def Numerals (parts : List String) : Prop := ∀ part ∈ parts, ∀ c ∈ part.toList, c.isDigit = true

/-- The name of a log: less `.log` at its end, six parts with `-` between them, the first three
of them numbers that are together read as `date`. -/
def Tells (name : String) (date : Date) (device host volume : String) : Prop :=
  ∃ y m d : String,
    name = "-".intercalate [y, m, d, device, host, volume] ++ ".log" ∧
      Separable [y, m, d, device, host, volume] ∧ Numerals [y, m, d] ∧
      Date.ofText ("-".intercalate [y, m, d]) = .ok date

theorem isNumber_iff {cs : List Char} :
    isNumber cs = true ↔ cs ≠ [] ∧ ∀ c ∈ cs, c.isDigit = true := by
  simp [isNumber]

/-- The names that the reader takes for names of logs, and what it takes them for. -/
theorem label?_eq_some_iff {name : String} {l : Label} : label? name = some l ↔
    ∃ y m d : String,
      name = "-".intercalate [y, m, d, l.device, l.host, l.volume] ++ ".log" ∧
        Separable [y, m, d, l.device, l.host, l.volume] ∧ Numerals [y, m, d] ∧
        l.dateText = "-".intercalate [y, m, d] := by
  constructor
  · intro h
    unfold label? at h
    split at h
    · cases h
    next stem found =>
    split at h
    case h_2 => cases h
    next y m d device host volume cut =>
    split at h
    case isFalse => cases h
    next parts =>
    cases h
    simp only [isNumber_iff] at parts
    obtain ⟨stems, free⟩ := (Text.pieces_eq_iff (by simp)).1 cut
    refine ⟨.ofList y, .ofList m, .ofList d, String.toList_injective ?_, ?_, ?_, ?_⟩
    · rw [dropEnding?_eq_some_iff.1 found, stems]
      simp [ending]
    · simp only [List.forall_mem_cons] at free
      simp [Separable, parts, free]
    · simpa [Numerals] using ⟨parts.1.2, parts.2.1.2, parts.2.2.1.2⟩
    · exact String.toList_injective (by simp)
  · rintro ⟨y, m, d, rfl, parts, numbers, read⟩
    simp only [Separable, Numerals, List.forall_mem_cons] at parts numbers
    have stem : dropEnding? ending
        ("-".intercalate [y, m, d, l.device, l.host, l.volume] ++ ".log").toList =
          some (['-'].intercalate
            [y.toList, m.toList, d.toList, l.device.toList, l.host.toList, l.volume.toList]) := by
      rw [dropEnding?_eq_some_iff]
      simp [ending]
    have free : ∀ part ∈ [y.toList, m.toList, d.toList, l.device.toList, l.host.toList,
        l.volume.toList], '-' ∉ part := by simp [parts]
    unfold label?
    rw [stem]
    simp only [Text.pieces_intercalate (List.cons_ne_nil _ _) free, isNumber_iff]
    rw [if_pos (by simpa [parts] using ⟨numbers.1, numbers.2.1, numbers.2.2.1⟩)]
    obtain ⟨dateText, device, host, volume⟩ := l
    dsimp only at read
    subst read
    simp only [Option.some.injEq, Label.mk.injEq, String.ofList_toList, and_true]
    exact String.toList_injective (by simp)

/-- The reader takes a name for what it tells, once it has read the date. -/
theorem tells_iff {name : String} {date : Date} {device host volume : String} :
    Tells name date device host volume ↔ ∃ written,
      label? name = some ⟨written, device, host, volume⟩ ∧ Date.ofText written = .ok date := by
  constructor
  · rintro ⟨y, m, d, whole, parts, numbers, read⟩
    exact ⟨_, label?_eq_some_iff.2 ⟨y, m, d, whole, parts, numbers, rfl⟩, read⟩
  · rintro ⟨written, found, read⟩
    obtain ⟨y, m, d, whole, parts, numbers, own⟩ := label?_eq_some_iff.1 found
    dsimp only at own
    exact ⟨y, m, d, whole, parts, numbers, own ▸ read⟩

/-! ## Outcomes -/

/-- The last line that is not blank reports an error. -/
def Failed (text : String) : Prop :=
  ∃ before line after, Text.lines text.toList = before ++ line :: after ∧
    isBlankLine line = false ∧ (∀ blank ∈ after, isBlankLine blank = true) ∧ errorMark <+: line

/-- The status of an attempt with this log. -/
def StatusOf (text : String) (status : Int) : Prop :=
  (status = 1 ∧ Failed text) ∨ (status = 0 ∧ ¬ Failed text)

theorem failed_iff {text : String} : Failed text ↔
    ∃ line, (Text.lines text.toList).reverse.find? (!isBlankLine ·) = some line ∧
      errorMark <+: line := by
  constructor
  · rintro ⟨before, line, after, lines, own, blanks, marked⟩
    refine ⟨line, List.find?_eq_some_iff_append.2 ⟨by simp [own], after.reverse, before.reverse,
      by simp [lines], by simpa using blanks⟩, marked⟩
  · rintro ⟨line, found, marked⟩
    obtain ⟨own, after, before, lines, blanks⟩ := List.find?_eq_some_iff_append.1 found
    refine ⟨before.reverse, line, after.reverse, ?_, by simpa using own, by simpa using blanks,
      marked⟩
    simpa using congrArg List.reverse lines

theorem outcome_eq_iff {text : String} {status : Int} :
    outcome text = status ↔ StatusOf text status := by
  rw [StatusOf, failed_iff, outcome]
  cases (Text.lines text.toList).reverse.find? fun line => !isBlankLine line with
  | none => simp [eq_comm]
  | some line =>
    by_cases marked : errorMark <+: line <;> simp [marked, eq_comm]

end LogFile

namespace State

variable {logs : String} {e : Listed} {b : Backup}

/-- A log records what its label says, if its date is one and its text can be read. -/
theorem recorded_of_label? {l : LogFile.Label} (found : LogFile.label? e.name = some l) :
    recorded logs e = .ok (some b) ↔ ∃ text, Date.ofText l.dateText = .ok b.date ∧
      e.content = .ok text ∧ b = ⟨l.host, l.volume, l.device, b.date, LogFile.outcome text⟩ := by
  unfold recorded
  rw [found]
  dsimp only
  cases Date.ofText l.dateText with
  | error e => simp
  | ok date =>
    cases e.content with
    | error e => simp
    | ok text =>
      simp only [dated_ok, within_ok, Except.ok.injEq, Option.some.injEq, exists_eq_left',
        exists_and_left]
      constructor
      · rintro rfl
        exact ⟨rfl, rfl⟩
      · rintro ⟨rfl, own⟩
        exact own.symm

/-- What an entry of the logs records: what its name tells, and how its text ends. -/
theorem recorded_eq_some_iff : recorded logs e = .ok (some b) ↔
    LogFile.Tells e.name b.date b.device b.host b.volume ∧
      ∃ text, e.content = .ok text ∧ LogFile.StatusOf text b.status := by
  constructor
  · intro h
    obtain ⟨l, found⟩ := Option.ne_none_iff_exists'.1 (label?_ne_none_of_recorded h)
    obtain ⟨text, read, content, own⟩ := (recorded_of_label? found).1 h
    rw [own]
    exact ⟨LogFile.tells_iff.2 ⟨_, found, read⟩, text, content, LogFile.outcome_eq_iff.1 rfl⟩
  · rintro ⟨tells, text, content, status⟩
    obtain ⟨written, found, read⟩ := LogFile.tells_iff.1 tells
    refine (recorded_of_label? found).2 ⟨text, read, content, ?_⟩
    rw [LogFile.outcome_eq_iff.2 status]

/-- An entry that could be looked at, and whose name tells something, records it. -/
theorem exists_recorded_of_tells {date : Date} {device host volume : String}
    (looked : ∃ b, recorded logs e = .ok b)
    (tells : LogFile.Tells e.name date device host volume) :
    ∃ status, recorded logs e = .ok (some ⟨host, volume, device, date, status⟩) := by
  obtain ⟨written, found, read⟩ := LogFile.tells_iff.1 tells
  obtain ⟨o, looked⟩ := looked
  obtain ⟨text, content⟩ := exists_content_of_recorded (by simp [found]) looked
  exact ⟨LogFile.outcome text, (recorded_of_label? found).2 ⟨text, read, content, rfl⟩⟩

end State

end BackupRetention
