import BackupRetention.Proofs.Calendar.RoundTrip
import BackupRetention.Proofs.Config.DataPlaces
import BackupRetention.Proofs.Prune.Agreement
import BackupRetention.Proofs.Prune.Expiry
import BackupRetention.Proofs.State.Spelling

/-!
# Names of logs, put together and taken apart

The date in the name of a log has two `-` in it, and there is a `-` before each of the names. As no
accepted name has one, the reader finds the parts again, even if names have dots in them or end in
`.log`. A prune log has a word where the log of a backup has the digits of the year.

## Main definitions

* `Backup.Admissible`: the date and all names of a backup have been accepted.

## Main results

* `Backup.Admissible.label?_logName`: what the reader finds in the name of a log.
* `Backup.node?_expire`: expiry leaves logs of backups alone.
* `Backup.logNames_round_trip`: names of logs, and which logs are the same.
-/

namespace BackupRetention

/-- Accepted names can be told apart with `-` between them. -/
theorem NameKind.separable_of_check {kind : NameKind} {name : String}
    (h : kind.check name = .ok ()) : name ≠ "" ∧ '-' ∉ name.toList :=
  ⟨(single_of_check h).1, notMem_of_check h fun kind => by cases kind <;> decide⟩

/-- A printed date is cut into three numerals. -/
theorem Date.Valid.text_eq {d : Date} (h : d.Valid) : ∃ year month day : String,
    d.text = "-".intercalate [year, month, day] ∧ LogFile.Separable [year, month, day] ∧
      LogFile.Numerals [year, month, day] := by
  obtain ⟨y, m, n, -, ys, ms, ns, whole, ⟨year, -⟩, ⟨month, -⟩, ⟨day, -⟩⟩ := h.spells
  have part {cs : List Char} {k : Nat} (numeral : Text.Numeral cs k) :
      (cs ≠ [] ∧ '-' ∉ cs) ∧ ∀ c ∈ cs, c.isDigit = true := by
    obtain ⟨some, digits, -⟩ := Text.number?_eq_some_iff.1 numeral.number?
    exact ⟨⟨some, numeral.dash_notMem⟩, digits⟩
  refine ⟨.ofList ys, .ofList ms, .ofList ns, ?_, ?_, ?_⟩
  · rw [whole]
    exact String.toList_injective (by simp)
  · simpa [LogFile.Separable] using ⟨(part year).1, (part month).1, (part day).1⟩
  · simpa [LogFile.Numerals] using ⟨(part year).2, (part month).2, (part day).2⟩

namespace Backup

/-- The date and all names have been accepted. -/
structure Admissible (b : Backup) : Prop extends b.Accepted where
  device : NameKind.device.check b.device = .ok ()
  date : b.date.Valid

variable {a b : Backup}

theorem Admissible.flat (h : b.Admissible) : b.Flat :=
  ⟨(NameKind.single_of_check h.device).2, (NameKind.single_of_check h.host).2,
    (NameKind.single_of_check h.volume).2⟩

/-- The reader finds the parts that a name was put together from. -/
theorem Admissible.label?_logName (h : b.Admissible) :
    LogFile.label? b.logName = some ⟨b.date.text, b.device, b.host, b.volume⟩ := by
  obtain ⟨year, month, day, text, parts, numbers⟩ := h.date.text_eq
  refine LogFile.label?_eq_some_iff.2 ⟨year, month, day, ?_, ?_, numbers, text⟩
  · rw [logName, text]
    exact String.toList_injective (by simp)
  · simp only [LogFile.Separable, List.forall_mem_cons] at parts ⊢
    exact ⟨parts.1, parts.2.1, parts.2.2.1, NameKind.separable_of_check h.device,
      NameKind.separable_of_check h.host, NameKind.separable_of_check h.volume, by simp⟩

/-- Backups with logs of one name are alike. -/
theorem Admissible.logName_eq_iff (ha : a.Admissible) (hb : b.Admissible) :
    a.logName = b.logName ↔ a.Alike b := by
  constructor
  · intro same
    have labels := ha.label?_logName
    rw [same, hb.label?_logName] at labels
    simp only [Option.some.injEq, LogFile.Label.mk.injEq] at labels
    obtain ⟨text, device, host, volume⟩ := labels
    exact ⟨(Date.text_injective text).symm, device.symm, host.symm, volume.symm⟩
  · rintro ⟨date, device, host, volume⟩
    rw [logName, logName, date, device, host, volume]

theorem logName_ne_pruneLog (b : Backup) (text : String) :
    b.logName ≠ PruneLog.namePrefix ++ text ++ PruneLog.nameEnding := by
  intro same
  rw [logName_eq] at same
  exact PruneLog.namePrefix_append_ne _ _ _ (String.append_assoc.symm.trans same.symm)

/-- Expiry leaves an entry alone that is called like the log of a backup, wherever it is. -/
theorem node?_expire (b : Backup) (logs : String) (today : Date) (keep : Int) (t : FileTree)
    (l : Location) : (PruneLog.expire logs today keep t).2.node? (l ++ [b.logName]) =
      t.node? (l ++ [b.logName]) := by
  refine (PruneLog.agreesOff_expire logs today keep t).2 _ ?_
  rintro ⟨k, name, ⟨text, date, called, -⟩, same⟩
  obtain ⟨-, rfl⟩ : l = k ∧ b.logName = name := by simpa using same
  exact b.logName_ne_pruneLog text called

/-- From the name of the log of a backup the reader gets back the date, the device, the host and the
volume. So backups have one log, or logs of one name, only if they agree in all four. The log of a
backup is not called like a prune log, and expiry leaves it alone; a prune log, whatever stands in
place of the date, is no log of a backup. -/
theorem logNames_round_trip :
    (∀ b : Backup, b.Admissible →
      LogFile.label? b.logName = some ⟨b.date.text, b.device, b.host, b.volume⟩ ∧
      Date.ofText b.date.text = .ok b.date) ∧
    (∀ a b : Backup, a.Admissible → b.Admissible →
      (a.logName = b.logName ↔ a.Alike b) ∧
      ∀ logs, (a.logPath logs = b.logPath logs ↔ a.Alike b) ∧
        ∀ start, Path.locate start (a.logPath logs) = Path.locate start (b.logPath logs) ↔
          a.Alike b) ∧
    (∀ b : Backup, (∀ text, b.logName ≠ PruneLog.namePrefix ++ text ++ PruneLog.nameEnding) ∧
      ∀ logs today keep (t : FileTree) l,
        (PruneLog.expire logs today keep t).2.node? (l ++ [b.logName]) =
          t.node? (l ++ [b.logName])) ∧
    ∀ text, LogFile.label? (PruneLog.namePrefix ++ text ++ PruneLog.nameEnding) = none ∧
      ∀ logs content, State.recorded logs
        ⟨PruneLog.namePrefix ++ text ++ PruneLog.nameEnding, content⟩ = .ok none := by
  refine ⟨fun b h => ⟨h.label?_logName, Date.ofText_text h.date⟩, ?_,
    fun b => ⟨b.logName_ne_pruneLog, b.node?_expire⟩, ?_⟩
  · intro a b ha hb
    have names := ha.logName_eq_iff hb
    refine ⟨names, fun logs => ⟨Iff.trans ?_ names, fun start => Iff.trans ?_ names⟩⟩
    · exact Path.join_inj a.isAbsolute_logName b.isAbsolute_logName
    · rw [logPath, logPath, Path.locate_join_of_plain _ _ ha.flat.isPlain_logName,
        Path.locate_join_of_plain _ _ hb.flat.isPlain_logName, List.append_cancel_left_eq,
        List.singleton_inj]
  · intro text
    have other := LogFile.label?_pruneLog text
    refine ⟨other, fun logs content => ?_⟩
    rw [State.recorded, other]

/-- Names with dots, two of them with the ending of a log, and a year of five digits. -/
def dotted : Backup := ⟨"..", "v.log", "d_.log", ⟨12024, 2, 29⟩, 0⟩

theorem logNames_round_trip_dotted :
    dotted.Admissible ∧ dotted.logName = "12024-02-29-d_.log-..-v.log.log" ∧
      LogFile.label? dotted.logName = some ⟨"12024-02-29", "d_.log", "..", "v.log"⟩ ∧
      Date.ofText "12024-02-29" = .ok ⟨12024, 2, 29⟩ ∧
      dotted.logName ≠ { dotted with volume := "v" }.logName := by
  have accepted {kind : NameKind} {name : String} (h : kind.accepts name = true) :
      kind.check name = .ok () := NameKind.check_eq_ok_iff.2 h
  have admissible : dotted.Admissible :=
    ⟨⟨accepted (by decide), accepted (by decide)⟩, accepted (by decide), by decide⟩
  have admissible' : { dotted with volume := "v" }.Admissible :=
    ⟨⟨accepted (by decide), accepted (by decide)⟩, accepted (by decide), by decide⟩
  obtain ⟨back, names, -⟩ := logNames_round_trip
  obtain ⟨label, date⟩ := back dotted admissible
  have text : dotted.date.text = "12024-02-29" := by decide +kernel
  rw [text] at label date
  refine ⟨admissible, by decide +kernel, label, date, fun same => ?_⟩
  have volume := ((names _ _ admissible admissible').1.1 same).volume
  exact absurd volume (by decide)

end Backup

end BackupRetention
