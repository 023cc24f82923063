import BackupRetention.Proofs.Calendar.DayNumber
import BackupRetention.Proofs.Calendar.Spelling
import Mathlib.Data.List.Induction

/-!
# The grammar of written dates

A date is written as three numerals with `-` between them, each of them for a number of 32 signed
bits. Any zeros may stand in front. Reading gives the date that the three numbers make, if there is
one in the calendar. Otherwise it says what is wrong with the text, and of several things that are
wrong the first one: the form, the year, the month, the day.

## Main definitions

* `Text.Numeral`: digits and the number that they stand for.
* `Date.Spells`: texts of the form of a date.
* `Date.daysIn`: the lengths of the months, one by one.
* `Date.Verdict`: what is to be read from a text.

## Main results

* `Date.ofText_eq_iff_verdict`: what is read from a text is what is to be read from it.
-/

namespace BackupRetention

namespace Text

/-- Digits, at least one of them, and the number that they stand for. -/
inductive Numeral : List Char → Nat → Prop where
  | digit {d : Nat} (small : d < 10) : Numeral [d.digitChar] d
  | append {cs : List Char} {n d : Nat} (front : Numeral cs n) (small : d < 10) :
      Numeral (cs ++ [d.digitChar]) (10 * n + d)

theorem isDigit_digitChar {d : Nat} (small : d < 10) : d.digitChar.isDigit = true :=
  isDigit_of_mem_digits (n := d) (by simp [digits, Nat.toDigits_of_lt_base small])

/-- One more digit. -/
theorem number?_append {cs : List Char} {n d : Nat} (front : number? cs = some n) (small : d < 10) :
    number? (cs ++ [d.digitChar]) = some (10 * n + d) := by
  obtain ⟨-, digits, rfl⟩ := number?_eq_some_iff.1 front
  refine number?_eq_some_iff.2 ⟨by simp, ?_, ?_⟩
  · simp only [List.mem_append, List.mem_singleton]
    rintro c (inside | rfl)
    · exact digits c inside
    · exact isDigit_digitChar small
  · rw [Nat.ofDigitChars_append, Nat.ofDigitChars_cons, Nat.toNat_digitChar_of_lt_ten small]
    have zero : '0'.toNat = 48 := rfl
    simp [zero]

theorem Numeral.number? {cs : List Char} {n : Nat} (h : Numeral cs n) : number? cs = some n := by
  induction h with
  | @digit d small =>
    have one : [d.digitChar] = zerosThen 0 d := by
      simp [zerosThen, digits, Nat.toDigits_of_lt_base small]
    rw [one, number?_zerosThen]
  | append _ small ih => exact number?_append ih small

/-- Numerals are exactly what is read as a number. -/
theorem numeral_iff {cs : List Char} {n : Nat} : Numeral cs n ↔ Text.number? cs = some n := by
  refine ⟨Numeral.number?, fun read => ?_⟩
  obtain ⟨some, all, rfl⟩ := number?_eq_some_iff.1 read
  clear read
  -- The induction goes digit by digit from the end, as numerals grow there.
  induction cs using List.reverseRecOn with
  | nil => exact absurd rfl some
  | append_singleton cs c ih =>
    obtain ⟨small, char⟩ := digitChar_of_isDigit (all c (by simp))
    rw [Nat.ofDigitChars_append, Nat.ofDigitChars_cons, Nat.ofDigitChars_nil]
    by_cases first : cs = []
    · subst first
      have lone := Numeral.digit small
      rw [char] at lone
      simpa using lone
    · have front := ih first fun c inside => all c (List.mem_append_left _ inside)
      simpa only [char] using front.append small

theorem Numeral.dash_notMem {cs : List Char} {n : Nat} (h : Numeral cs n) : '-' ∉ cs := fun dash =>
  absurd ((number?_eq_some_iff.1 h.number?).2.1 _ dash) (by decide)

end Text

namespace Date

open Text

/-! ## Forms -/

/-- Digits for a number that has room in 32 signed bits. -/
def Fits (cs : List Char) (n : Nat) : Prop := Numeral cs n ∧ (n : Int) ≤ maxInt32

/-- The text `s` is of the form of a date, with these three numbers. -/
def Spells (s : String) (y m d : Nat) : Prop :=
  ∃ ys ms ds, s = String.ofList (ys ++ '-' :: (ms ++ '-' :: ds)) ∧
    Fits ys y ∧ Fits ms m ∧ Fits ds d

theorem field?_eq_some_iff {cs : List Char} {n : Int} :
    field? cs = some n ↔ ∃ k : Nat, n = k ∧ Fits cs k := by
  unfold field?
  cases read : number? cs with
  | none => simp [Fits, numeral_iff, read]
  | some k => simp [Fits, numeral_iff, read, and_comm, eq_comm]

theorem fields?_eq_some_iff {s : String} {a b c : Int} : fields? s.toList = some (a, b, c) ↔
    ∃ y m d : Nat, Spells s y m d ∧ a = y ∧ b = m ∧ c = d := by
  unfold fields?
  constructor
  · intro h
    split at h
    case h_2 => cases h
    next ys ms ds cut =>
    split at h
    case h_2 => cases h
    next first second third =>
    cases h
    obtain ⟨y, rfl, year⟩ := field?_eq_some_iff.1 first
    obtain ⟨m, rfl, month⟩ := field?_eq_some_iff.1 second
    obtain ⟨d, rfl, day⟩ := field?_eq_some_iff.1 third
    have whole := ((pieces_eq_iff (by simp)).1 cut).1
    refine ⟨y, m, d, ⟨ys, ms, ds, String.toList_injective ?_, year, month, day⟩, rfl, rfl, rfl⟩
    simp [whole]
  · rintro ⟨y, m, d, ⟨ys, ms, ds, rfl, year, month, day⟩, rfl, rfl, rfl⟩
    have cut : pieces '-' (String.ofList (ys ++ '-' :: (ms ++ '-' :: ds))).toList =
        [ys, ms, ds] := by
      rw [String.toList_ofList, pieces_append_cons, pieces_append_cons,
        pieces_of_not_mem year.1.dash_notMem, pieces_of_not_mem month.1.dash_notMem,
        pieces_of_not_mem day.1.dash_notMem]
      rfl
    simp only [cut, field?_eq_some_iff.2 ⟨y, rfl, year⟩, field?_eq_some_iff.2 ⟨m, rfl, month⟩,
      field?_eq_some_iff.2 ⟨d, rfl, day⟩]

/-! ## Verdicts -/

/-- The lengths of the months. -/
def daysIn (year month : Nat) : Nat :=
  if month = 2 then if 4 ∣ year ∧ (¬ 100 ∣ year ∨ 400 ∣ year) then 29 else 28
  else if month ∈ [4, 6, 9, 11] then 30
  else 31

theorem monthLength?_eq {year month : Nat} (h : 1 ≤ month ∧ month ≤ 12) :
    monthLength? year month = some (daysIn year month : Int) := by
  obtain ⟨lower, upper⟩ := h
  have leap : isLeapYear year = true ↔ 4 ∣ year ∧ (¬ 100 ∣ year ∨ 400 ∣ year) := by
    rw [isLeapYear_iff]
    omega
  by_cases february : month = 2
  · subst february
    by_cases four : 4 ∣ year ∧ (¬ 100 ∣ year ∨ 400 ∣ year) <;>
      simp [monthLength?, daysIn, daysBefore, leap, four]
  · interval_cases month <;> simp_all [monthLength?, daysIn, daysBefore]

theorem fault?_eq (y m d : Nat) : fault? y m d =
    if 1 ≤ y then
      if 1 ≤ m ∧ m ≤ 12 then
        if 1 ≤ d ∧ d ≤ daysIn y m then none else some .dayOutOfRange
      else some .monthOutOfRange
    else some .yearTooSmall := by
  by_cases year : 1 ≤ y
  · have late : ¬ (y : Int) < 1 := by omega
    by_cases month : 1 ≤ m ∧ m ≤ 12
    · have outside : (d : Int) < 1 ∨ (daysIn y m : Int) < d ↔ ¬ (1 ≤ d ∧ d ≤ daysIn y m) := by
        omega
      simp only [fault?, late, year, monthLength?_eq month, outside, if_pos month, if_false,
        if_true]
      split_ifs <;> rfl
    · have none : monthLength? y m = none := if_neg (by omega)
      simp [fault?, late, year, none, month]
  · have early : (y : Int) < 1 := by omega
    simp [fault?, early, year]

/-- What is to be read from a text: a date of the calendar, or the first thing that is wrong. -/
inductive Verdict (s : String) : Except InvalidDate Date → Prop where
  | badFormat (form : ∀ y m d, ¬ Spells s y m d) : Verdict s (.error ⟨s, .badFormat⟩)
  | yearTooSmall {y m d : Nat} (form : Spells s y m d) (year : y < 1) :
      Verdict s (.error ⟨s, .yearTooSmall⟩)
  | monthOutOfRange {y m d : Nat} (form : Spells s y m d) (year : 1 ≤ y)
      (month : ¬ (1 ≤ m ∧ m ≤ 12)) : Verdict s (.error ⟨s, .monthOutOfRange⟩)
  | dayOutOfRange {y m d : Nat} (form : Spells s y m d) (year : 1 ≤ y) (month : 1 ≤ m ∧ m ≤ 12)
      (day : ¬ (1 ≤ d ∧ d ≤ daysIn y m)) : Verdict s (.error ⟨s, .dayOutOfRange⟩)
  | date {y m d : Nat} (form : Spells s y m d) (year : 1 ≤ y) (month : 1 ≤ m ∧ m ≤ 12)
      (day : 1 ≤ d ∧ d ≤ daysIn y m) : Verdict s (.ok ⟨y, m, d⟩)

theorem ofText_of_spells {s : String} {y m d : Nat} (form : Spells s y m d) :
    ofText s = match fault? y m d with
      | some reason => .error ⟨s, reason⟩
      | none => .ok ⟨y, m, d⟩ := by
  have read := fields?_eq_some_iff.2 ⟨y, m, d, form, rfl, rfl, rfl⟩
  cases found : fault? y m d <;> simp only [ofText, read, found]

theorem ofText_of_not_spells {s : String} (form : ∀ y m d, ¬ Spells s y m d) :
    ofText s = .error ⟨s, .badFormat⟩ := by
  cases read : fields? s.toList with
  | none => simp [ofText, read]
  | some numbers =>
    obtain ⟨y, m, d, spelled, -⟩ := fields?_eq_some_iff.1 read
    exact absurd spelled (form y m d)

theorem verdict_ofText (s : String) : Verdict s (ofText s) := by
  by_cases form : ∃ y m d, Spells s y m d
  · obtain ⟨y, m, d, form⟩ := form
    rw [ofText_of_spells form, fault?_eq]
    split_ifs with year month day
    · exact .date form year month day
    · exact .dayOutOfRange form year month day
    · exact .monthOutOfRange form year month
    · exact .yearTooSmall form (by omega)
  · simp only [not_exists] at form
    rw [ofText_of_not_spells form]
    exact .badFormat form

/-- A text is read as a date exactly if it is of the form of one and its numbers make a day of the
calendar. Of any other text it is said what is wrong first, and the text itself is given back. -/
theorem ofText_eq_iff_verdict (s : String) (r : Except InvalidDate Date) :
    ofText s = r ↔ Verdict s r := by
  constructor
  · rintro rfl
    exact verdict_ofText s
  · intro verdict
    cases verdict with
    | badFormat form => exact ofText_of_not_spells form
    | yearTooSmall form year =>
      rw [ofText_of_spells form, fault?_eq, if_neg (by omega)]
    | monthOutOfRange form year month =>
      rw [ofText_of_spells form, fault?_eq, if_pos year, if_neg month]
    | dayOutOfRange form year month day =>
      rw [ofText_of_spells form, fault?_eq, if_pos year, if_pos month, if_neg day]
    | date form year month day =>
      rw [ofText_of_spells form, fault?_eq, if_pos year, if_pos month, if_pos day]

example : ofText "0-13-32" = .error ⟨"0-13-32", .yearTooSmall⟩ ∧
    ofText "2023-2-029" = .error ⟨"2023-2-029", .dayOutOfRange⟩ ∧
    ofText "2024-2-2147483648" = .error ⟨"2024-2-2147483648", .badFormat⟩ := ⟨rfl, rfl, rfl⟩

end Date

end BackupRetention
