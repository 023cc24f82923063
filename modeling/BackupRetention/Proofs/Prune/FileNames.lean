import BackupRetention.Proofs.Calendar.Text
import BackupRetention.Backup
import BackupRetention.Prune.Expiry

/-!
# Names of logs

The logs of backups start with a date and those of passes do not, so that neither is taken for the
other. The log of a day does not expire on that day.

## Main definitions

* `Backup.Flat`: the names of a backup hold no slash.

## Main results

* `PruneLog.fileName_ne`: no prune log is called like anything that starts with a date.
* `PruneLog.isExpired_fileName`: the log of the day does not expire.
-/

namespace BackupRetention

/-- The names of the backup hold no slash. -/
structure Backup.Flat (b : Backup) : Prop where
  device : '/' ∉ b.device.toList
  host : '/' ∉ b.host.toList
  volume : '/' ∉ b.volume.toList

instance (b : Backup) : Decidable b.Flat :=
  decidable_of_iff ('/' ∉ b.device.toList ∧ '/' ∉ b.host.toList ∧ '/' ∉ b.volume.toList)
    ⟨fun h => ⟨h.1, h.2.1, h.2.2⟩, fun h => ⟨h.device, h.host, h.volume⟩⟩

/-- The name of a log starts with the date. -/
theorem Backup.logName_eq (b : Backup) : b.logName =
    b.date.text ++ ("-" ++ b.device ++ "-" ++ b.host ++ "-" ++ b.volume ++ ".log") := by
  simp only [logName, String.append_assoc]

theorem Backup.Flat.isPlain_logName {b : Backup} (h : b.Flat) : Path.IsPlain b.logName := by
  rw [b.logName_eq]
  refine b.date.isPlain_text_append ?_
  simp [h.device, h.host, h.volume]

namespace PruneLog

/-- No name that starts with a date starts as that of a prune log. -/
theorem namePrefix_append_ne (text : String) (d : Date) (s : String) :
    namePrefix ++ text ≠ d.text ++ s := by
  intro same
  have letters := congrArg String.toList same
  cases hd : d.chars with
  | nil => simp [Date.chars, Text.padded_ne_nil] at hd
  | cons c cs =>
    have first : c = 'p' := by
      simp [namePrefix, hd] at letters
      exact letters.1.symm
    rcases Date.mem_chars (d := d) (c := c) (by simp [hd]) with h | h <;>
      exact absurd (first ▸ h) (by decide)

/-- No name that starts with a date is that of a prune log. -/
theorem fileName_ne (today d : Date) (s : String) : fileName today ≠ d.text ++ s := by
  rw [fileName, String.append_assoc]
  exact namePrefix_append_ne _ d s

theorem isPlain_fileName_of {text : String} (h : '/' ∉ text.toList) :
    Path.IsPlain (namePrefix ++ text ++ nameEnding) := by
  have first (s : String) (hs : s.toList.head? ≠ some 'p') :
      namePrefix ++ text ++ nameEnding ≠ s := by
    rintro rfl
    simp [namePrefix] at hs
  refine ⟨⟨first _ (by decide), first _ (by decide)⟩, first _ (by decide), ?_⟩
  simp [namePrefix, nameEnding, h]

theorem isPlain_fileName (today : Date) : Path.IsPlain (fileName today) := by
  refine isPlain_fileName_of fun h => ?_
  rw [Date.toList_text] at h
  rcases Date.mem_chars h with h | h <;> exact absurd h (by decide)

/-- A file with a day is called like a prune log. -/
theorem eq_of_dated? {name : String} {d : Date} (h : dated? name = some d) :
    ∃ text, name = namePrefix ++ text ++ nameEnding ∧ Date.ofText text = .ok d := by
  unfold dated? at h
  split at h
  · cases h
  · next text found =>
    have read : Date.ofText text = .ok d := by
      cases hd : Date.ofText text with
      | error e => simp [hd, Except.toOption] at h
      | ok e =>
        simp only [hd, Except.toOption, Option.some.injEq] at h
        rw [h]
    refine ⟨text, ?_, read⟩
    unfold dateText? at found
    split at found
    · cases found
    · next rest start =>
      obtain ⟨inner, ending, rfl⟩ := Option.map_eq_some_iff.1 found
      unfold LogFile.dropStart? at start
      unfold LogFile.dropEnding? at ending
      split at start
      · next front =>
        split at ending
        · next back =>
          obtain ⟨after, hafter⟩ := front
          obtain ⟨inside, rfl⟩ := back
          simp only [Option.some.injEq] at start ending
          rw [← hafter, List.drop_left] at start
          have same : inside = inner := by simpa using ending
          refine String.ext ?_
          simp [← hafter, start, same]
        · cases ending
      · cases start

theorem exists_of_isExpired {today : Date} {keep : Int} {name : String}
    (h : isExpired today keep name = true) :
    ∃ text, name = namePrefix ++ text ++ nameEnding := by
  unfold isExpired at h
  split at h
  · next d found =>
    obtain ⟨text, name, -⟩ := eq_of_dated? found
    exact ⟨text, name⟩
  · cases h

theorem isPlain_of_isExpired {today : Date} {keep : Int} {name : String}
    (h : isExpired today keep name = true) : Path.IsPlain name := by
  unfold isExpired at h
  split at h
  · next d found =>
    obtain ⟨text, rfl, read⟩ := eq_of_dated? found
    refine isPlain_fileName_of fun hs => ?_
    rcases Date.mem_of_ofText read hs with hs | hs <;> exact absurd hs (by decide)
  · cases h

/-- The log of the day itself does not expire. -/
theorem isExpired_fileName {today : Date} {keep : Int} (nonneg : 0 ≤ keep) :
    isExpired today keep (fileName today) = false := by
  unfold isExpired
  split
  · next d found =>
    obtain ⟨text, same, read⟩ := eq_of_dated? found
    have letters : namePrefix.toList ++ today.text.toList ++ nameEnding.toList =
        namePrefix.toList ++ text.toList ++ nameEnding.toList := by
      simpa [fileName] using congrArg String.toList same
    have own : today.text = text :=
      String.ext (List.append_cancel_left (List.append_cancel_right letters))
    rw [← own] at read
    rw [Date.eq_of_ofText_text read]
    simpa [Date.daysSince] using nonneg
  · rfl

end PruneLog

end BackupRetention
