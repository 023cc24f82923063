import BackupRetention.Proofs.Calendar.Spelling
import BackupRetention.Proofs.State.Foreign
import BackupRetention.Proofs.State.Order
import BackupRetention.Prune.Removal

/-!
# Spellings of log names

The date in the name of a log can be written in many ways. A record does not keep the name that it
was loaded from but puts one together, with the date as it is printed. So it points back at its log
exactly if the date stands in the name as it is printed.

## Main definitions

* `LogFile.WellSpelled`: the date in a name is written as dates are printed.
* `State.Source`: the log that a record was loaded from.

## Main results

* `LogFile.Tells.logName_eq_iff`: which names are put together again as they were.
* `State.pointsBack_iff`: which records point back at their logs.
-/

namespace BackupRetention

namespace LogFile

/-- The date in the name of a log is written as dates are printed. -/
def WellSpelled (name : String) : Prop :=
  ∃ y m d rest, Text.pieces '-' name.toList = y :: m :: d :: rest ∧
    Text.PaddedTo 4 y ∧ Text.PaddedTo 2 m ∧ Text.PaddedTo 2 d

theorem wellSpelled_iff {name : String} {y m d : List Char} {rest : List (List Char)}
    (cut : Text.pieces '-' name.toList = y :: m :: d :: rest) :
    WellSpelled name ↔ Text.PaddedTo 4 y ∧ Text.PaddedTo 2 m ∧ Text.PaddedTo 2 d := by
  simp [WellSpelled, cut]

theorem eq_of_pieces {name name' : String}
    (same : Text.pieces '-' name.toList = Text.pieces '-' name'.toList) : name = name' := by
  refine String.toList_injective ?_
  rw [← Text.intercalate_pieces '-' name.toList, same, Text.intercalate_pieces]

/-- The parts of a name that tells something. -/
theorem Tells.pieces {name : String} {date : Date} {device host volume : String}
    (h : Tells name date device host volume) : ∃ (y m d : List Char) (a b c : Nat),
      Text.pieces '-' name.toList =
        [y, m, d, device.toList, host.toList, volume.toList ++ ".log".toList] ∧
      Text.number? y = some a ∧ Text.number? m = some b ∧ Text.number? d = some c ∧
      date = ⟨a, b, c⟩ ∧ '-' ∉ device.toList ∧ '-' ∉ host.toList ∧ '-' ∉ volume.toList := by
  obtain ⟨y, m, d, rfl, parts, -, read⟩ := h
  simp only [Separable, List.forall_mem_cons] at parts
  have dates : Text.pieces '-' ("-".intercalate [y, m, d]).toList =
      [y.toList, m.toList, d.toList] :=
    (Text.pieces_eq_iff (by simp)).2 ⟨by simp, by simp [parts]⟩
  obtain ⟨y', m', d', a, b, c, cut, ya, mb, dc, numbers⟩ := Date.exists_of_ofText read
  obtain ⟨rfl, rfl, rfl⟩ : y.toList = y' ∧ m.toList = m' ∧ d.toList = d' := by
    simpa using dates.symm.trans cut
  refine ⟨_, _, _, a, b, c, (Text.pieces_eq_iff (by simp)).2 ⟨by simp, ?_⟩, ya, mb, dc, numbers,
    by simp [parts]⟩
  simp [parts]

/-- The parts of the name of a log that is put together. -/
theorem pieces_logName {a b c : Nat} {device host volume : String} (status : Int)
    (deviceFree : '-' ∉ device.toList) (hostFree : '-' ∉ host.toList)
    (volumeFree : '-' ∉ volume.toList) :
    Text.pieces '-' (Backup.logName ⟨host, volume, device, ⟨a, b, c⟩, status⟩).toList =
      [Text.padded 4 a, Text.padded 2 b, Text.padded 2 c, device.toList, host.toList,
        volume.toList ++ ".log".toList] := by
  have numbers (width n : Nat) : '-' ∉ Text.padded width n := by
    rw [Text.padded_of_nonneg]
    exact Text.dash_notMem_zerosThen _ _
  refine (Text.pieces_eq_iff (by simp)).2 ⟨?_, ?_⟩
  · simp [Backup.logName, Date.chars]
  · simp [numbers, deviceFree, hostFree, volumeFree]

/-- A name is put together again as it was exactly if its date is written as dates are printed. -/
theorem Tells.logName_eq_iff {name : String} {b : Backup}
    (h : Tells name b.date b.device b.host b.volume) : b.logName = name ↔ WellSpelled name := by
  obtain ⟨host, volume, device, date, status⟩ := b
  obtain ⟨y, m, d, ny, nm, nd, cut, year, month, day, rfl, noDash⟩ := h.pieces
  have own := pieces_logName (a := ny) (b := nm) (c := nd) status noDash.1 noDash.2.1 noDash.2.2
  rw [wellSpelled_iff cut, ← Text.padded_eq_iff (by decide) year,
    ← Text.padded_eq_iff (by decide) month, ← Text.padded_eq_iff (by decide) day]
  constructor
  · intro same
    rw [same, cut] at own
    obtain ⟨rfl, rfl, rfl⟩ : y = _ ∧ m = _ ∧ d = _ := by simpa using own
    exact ⟨rfl, rfl, rfl⟩
  · rintro ⟨rfl, rfl, rfl⟩
    exact eq_of_pieces (own.trans cut.symm)

theorem Tells.isAbsolute {name : String} {date : Date} {device host volume : String}
    (h : Tells name date device host volume) : Path.isAbsolute name = false := by
  obtain ⟨y, m, d, rfl, parts, numbers, -⟩ := h
  have some : y ≠ "" := (parts y (by simp)).1
  have noSlash : '/' ∉ y.toList := fun slash => absurd (numbers y (by simp) _ slash) (by decide)
  have relative := Path.isAbsolute_of_noSlash noSlash
  obtain ⟨rest, whole⟩ :
      ∃ rest, "-".intercalate [y, m, d, device, host, volume] ++ ".log" = y ++ rest :=
    ⟨"-" ++ ("-".intercalate [m, d, device, host, volume] ++ ".log"),
      String.toList_injective (by simp)⟩
  rw [whole, Path.isAbsolute_append some, relative]

end LogFile

theorem Backup.isAbsolute_logName (b : Backup) : Path.isAbsolute b.logName = false := by
  have some : b.date.text ≠ "" := (Date.isPlain_text b.date).nonempty
  have relative := Path.isAbsolute_of_noSlash (Date.isPlain_text b.date).noSlash
  simp only [logName, String.append_assoc]
  rw [Path.isAbsolute_append some, relative]

theorem Path.join_inj {base a b : String} (ha : isAbsolute a = false) (hb : isAbsolute b = false) :
    join base a = join base b ↔ a = b := by
  by_cases bare : base = "" ∨ endsInSlash base = true <;> simp [join, ha, hb, bare]

namespace State

variable {c : Config} {t : FileTree} {s : State} {names : List String}

theorem backups_unnumbered (s : State) : s.unnumbered.backups = s.backups := by
  simp [backups, records, unnumbered, Volume.unnumbered, Ledger.unnumbered, Record.unnumbered,
    List.flatMap_map, List.map_flatMap, Function.comp_def]

/-- Everything that is held was told first by one of the names. -/
theorem exists_first (listed : t.list c.logs = .ok names) (loads : loaded? c t = some s)
    {b : Backup} (held : b ∈ s.backups) : ∃ name,
      First names name b.date b.device b.host b.volume ∧ told? c t name = some b := by
  obtain ⟨looked, rfl⟩ := (loaded?_of_list listed).1 loads
  have first := (mem_backups_stocked.1 held).2
  rw [List.find?_filterMap] at first
  obtain ⟨name, found, told⟩ := Option.bind_eq_some_iff.1 first
  obtain ⟨-, before, after, rfl, others⟩ := List.find?_eq_some_iff_append.1 found
  have tells := (recorded_eq_some_iff.1 (told?_eq_some_iff.1 told)).1
  refine ⟨name, ⟨before, after, rfl, tells, fun n hn other => ?_⟩, told⟩
  obtain ⟨status, here⟩ := exists_recorded_of_tells (looked n (List.mem_append_left _ hn)) other
  have alike := others n hn
  rw [told?_eq_some_iff.2 here] at alike
  simp [likeness] at alike

/-- Names that are all written as dates are printed cannot disagree. -/
theorem agreed_of_wellSpelled (spelled : ∀ names, t.list c.logs = .ok names → ∀ n ∈ names,
    ∀ host volume, LogFile.IsLogOf n host volume → c.Lists host volume → LogFile.WellSpelled n) :
    Agreed c t := by
  intro names listed n hn m hm date device host volume known tells tells' text text' read read'
  have one := @LogFile.Tells.logName_eq_iff n ⟨host, volume, device, date, 0⟩ tells
  have other := @LogFile.Tells.logName_eq_iff m ⟨host, volume, device, date, 0⟩ tells'
  have same : n = m := (one.2 (spelled names listed n hn _ _ tells.isLogOf known)).symm.trans
    (other.2 (spelled names listed m hm _ _ tells'.isLogOf known))
  rw [same, read'] at read
  rw [Except.ok.inj read]

/-- Every record was loaded from one of the logs, the first that tells its place. Its name and its
path are those of this log exactly if the date stands in the name as dates are printed. -/
theorem pointsBack_iff (loaded : load c t = .ok s) :
    ∃ names, t.list c.logs = .ok names ∧ ∀ r ∈ s.records,
      (∃ name, First names name r.date r.device r.backup.host r.backup.volume ∧
        told? c t name = some r.backup) ∧
      ∀ name, First names name r.date r.device r.backup.host r.backup.volume →
        (r.backup.logName = name ↔ LogFile.WellSpelled name) ∧
        ∀ store, (Removal.mk r.backup store c.logs).logPath = Path.join c.logs name ↔
          LogFile.WellSpelled name := by
  obtain ⟨names, listed, -⟩ := load_eq_ok_iff.1 loaded
  have loads : loaded? c t = some s.unnumbered := by simp [loaded?, loaded, Except.toOption]
  refine ⟨names, listed, fun r hr => ⟨?_, ?_⟩⟩
  · refine exists_first listed loads ?_
    rw [backups_unnumbered]
    exact List.mem_map_of_mem hr
  · rintro name ⟨-, -, -, tells, -⟩
    have back : r.backup.logName = name ↔ LogFile.WellSpelled name := tells.logName_eq_iff
    refine ⟨back, fun store => Iff.trans ?_ back⟩
    rw [Removal.logPath, Backup.logPath]
    exact Path.join_inj r.backup.isAbsolute_logName tells.isAbsolute

/-- The record of the one log. -/
def loneRecord : Record := ⟨⟨"h", "v", "d", ⟨2024, 1, 5⟩, 0⟩, 0⟩

theorem pointsBack_padded :
    load oneVolume (loneLog "2024-01-05-d-h-v.log") =
        .ok ((ofConfig oneVolume).fill [loneRecord]) ∧
      ∃ name, told? oneVolume (loneLog "2024-01-05-d-h-v.log") name = some loneRecord.backup ∧
        loneRecord.backup.logName = name := by
  have loaded : load oneVolume (loneLog "2024-01-05-d-h-v.log") =
      .ok ((ofConfig oneVolume).fill [loneRecord]) := rfl
  have listed : (loneLog "2024-01-05-d-h-v.log").list "logs" = .ok ["2024-01-05-d-h-v.log"] := by
    decide +kernel
  refine ⟨loaded, ?_⟩
  obtain ⟨names, listed', back⟩ := pointsBack_iff loaded
  obtain rfl := Except.ok.inj (listed.symm.trans listed')
  obtain ⟨⟨name, first, told⟩, spelled⟩ := back loneRecord (by decide +kernel)
  obtain rfl : name = "2024-01-05-d-h-v.log" := by
    obtain ⟨before, after, whole, -⟩ := first
    have here : name ∈ ["2024-01-05-d-h-v.log"] := by simp [whole]
    simpa using here
  have cut : Text.pieces '-' "2024-01-05-d-h-v.log".toList = "2024".toList :: "01".toList ::
      "05".toList :: ["d".toList, "h".toList, "v.log".toList] := by
    decide +kernel
  have printed : LogFile.WellSpelled "2024-01-05-d-h-v.log" :=
    (LogFile.wellSpelled_iff cut).2 (by decide +kernel)
  exact ⟨_, told, (spelled _ first).1.2 printed⟩

/-- A record that was loaded from a name without zeros points to a log that is not there. -/
theorem pointsElsewhere_unpadded :
    (load oneVolume (loneLog "2024-1-5-d-h-v.log")).toOption =
        some ((ofConfig oneVolume).fill [loneRecord]) ∧
      told? oneVolume (loneLog "2024-1-5-d-h-v.log") "2024-1-5-d-h-v.log" =
        some loneRecord.backup ∧
      loneRecord.backup.logName ≠ "2024-1-5-d-h-v.log" ∧
      (loneLog "2024-1-5-d-h-v.log").isThere
        (Removal.mk loneRecord.backup "store" "logs").logPath = false :=
  ⟨by decide +kernel, by decide +kernel, by decide +kernel, by decide +kernel⟩

end State

end BackupRetention
