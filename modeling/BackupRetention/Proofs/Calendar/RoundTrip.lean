import BackupRetention.Proofs.Calendar.Grammar
import BackupRetention.Proofs.Calendar.Successor
import BackupRetention.Proofs.Text.Json

/-!
# Dates printed and read

A printed date is read as the date, and so is the string of a data file that holds it. A date that
was read from any text is read again from the text that it prints.

## Main results

* `Date.ofText_text`: printing and reading a date.
* `Date.valid_of_ofText`: only valid dates are read.
* `Date.text_round_trip`: dates and texts.
-/

namespace BackupRetention.Date

/-- The dates that can be made, with years of 32 bits, are the valid ones. -/
theorem valid_iff_make {d : Date} :
    d.Valid ↔ make d.year d.month d.day = .ok d ∧ d.year ≤ Text.maxInt32 := by
  rw [make_eq_ok_iff]
  exact ⟨fun h => ⟨⟨rfl, h.exists_day⟩, h.year_le⟩, fun h => ⟨h.1.2, h.2⟩⟩

theorem fits_padded (width : Nat) {n : Nat} (room : (n : Int) ≤ Text.maxInt32) :
    Fits (Text.padded width n) n :=
  ⟨Text.numeral_iff.2 (by simpa using Text.number?_padded width (Int.natCast_nonneg n)), room⟩

/-- What is printed for a valid date is of the form of a date. -/
theorem Valid.spells {d : Date} (h : d.Valid) :
    ∃ year month day : Nat, d = ⟨year, month, day⟩ ∧ Spells d.text year month day := by
  obtain ⟨year, lower, upper, -⟩ := within_month h.exists_day
  obtain ⟨some, short⟩ := h.day_le
  have last := h.year_le
  obtain ⟨y, m, d⟩ := d
  dsimp only at *
  lift y to Nat using by omega
  lift m to Nat using by omega
  lift d to Nat using by omega
  have room : (366 : Int) ≤ Text.maxInt32 := by decide
  exact ⟨y, m, d, rfl, _, _, _, rfl, fits_padded 4 last, fits_padded 2 (by omega),
    fits_padded 2 (by omega)⟩

/-- A printed date is read as the date. -/
theorem ofText_text {d : Date} (h : d.Valid) : ofText d.text = .ok d := by
  obtain ⟨year, month, day, whole, form⟩ := h.spells
  have calendar := h.exists_day
  rw [ofText_of_spells form]
  subst whole
  simp only [calendar]

theorem ofJson?_json {d : Date} (h : d.Valid) : ofJson? d.json = some d := by
  simp [ofJson?, json, ofText_text h, Except.toOption]

/-- Only valid dates are read. -/
theorem valid_of_ofText {s : String} {d : Date} (read : ofText s = .ok d) : d.Valid := by
  have verdict := verdict_ofText s
  rw [read] at verdict
  cases verdict with
  | date form year month day =>
    obtain ⟨ys, ms, ds, -, fits, -⟩ := form
    exact ⟨by rw [fault?_eq, if_pos year, if_pos month, if_pos day], fits.2⟩

/-- Printing and reading are inverse to each other: a valid date is read from what it prints, also
as the string of a data file, and no other date prints the same. So the date that was read from some
text, padded or not, is read again from the text that it prints. -/
theorem text_round_trip :
    (∀ d : Date, make d.year d.month d.day = .ok d → d.year ≤ Text.maxInt32 →
      ofText d.text = .ok d ∧ ofJson? d.json = some d) ∧
    (∀ d e : Date, d.text = e.text → d = e) ∧
    ∀ (s : String) (d : Date), ofText s = .ok d →
      ofText d.text = .ok d ∧ ofJson? d.json = some d := by
  have back {d : Date} (h : d.Valid) : ofText d.text = .ok d ∧ ofJson? d.json = some d :=
    ⟨ofText_text h, ofJson?_json h⟩
  exact ⟨fun d made room => back (valid_iff_make.2 ⟨made, room⟩), fun _ _ => text_injective,
    fun _ _ read => back (valid_of_ofText read)⟩

/-- The last year there is, and a date with other zeros than it is printed with. -/
theorem text_round_trip_padding :
    make 2147483647 12 31 = .ok ⟨2147483647, 12, 31⟩ ∧ (2147483647 : Int) ≤ Text.maxInt32 ∧
    ofText "2147483647-12-31" = .ok ⟨2147483647, 12, 31⟩ ∧
    ofText "02024-2-029" = .ok ⟨2024, 2, 29⟩ ∧
    ofJson? "\"2024-02-29\"" = some ⟨2024, 2, 29⟩ := by
  have made : make 2147483647 12 31 = .ok ⟨2147483647, 12, 31⟩ := rfl
  have room : (2147483647 : Int) ≤ Text.maxInt32 := by decide
  have read : ofText "02024-2-029" = .ok ⟨2024, 2, 29⟩ := rfl
  obtain ⟨printed, -, again⟩ := text_round_trip
  exact ⟨made, room, (printed ⟨2147483647, 12, 31⟩ made room).1, read, (again _ _ read).2⟩

end BackupRetention.Date
