import BackupRetention.Calendar.Date
import Mathlib.Tactic.IntervalCases

/-!
# Day numbers

The count of days goes up along the calendar, so a later date has the higher number.

## Main definitions

* `Date.yearStart`: the number of the first day of a year.
* `Date.monthStart`: how many days of a year lie before a month.
* `Date.dayNumber_lt_iff`: dates compare like their numbers.
-/

namespace BackupRetention.Date

/-- The number of the first day of a year. -/
def yearStart (year : Int) : Int :=
  365 * year + (year - 1).tdiv 4 - (year - 1).tdiv 100 + (year - 1).tdiv 400

/-- How many days of a year lie before a month. -/
def monthStart (year : Int) (month : Nat) : Int :=
  daysBefore month + if 2 < month ∧ isLeapYear year then 1 else 0

theorem isLeapYear_iff {year : Int} :
    isLeapYear year = true ↔ (year % 4 = 0 ∧ year % 100 ≠ 0) ∨ year % 400 = 0 := by
  simp [isLeapYear]

/-- Every year from 1 on has 365 days, or one more. -/
theorem yearStart_succ {year : Int} (h : 1 ≤ year) :
    yearStart (year + 1) = yearStart year + monthStart year 13 := by
  have past : 0 ≤ year - 1 := by omega
  have now : 0 ≤ year + 1 - 1 := by omega
  simp only [yearStart, monthStart, Int.tdiv_eq_ediv_of_nonneg past,
    Int.tdiv_eq_ediv_of_nonneg now, isLeapYear_iff, daysBefore]
  split <;> omega

theorem yearStart_mono {a b : Int} (ha : 1 ≤ a) (hab : a ≤ b) : yearStart a ≤ yearStart b := by
  have hb : 0 ≤ b - 1 := by omega
  have ha' : 0 ≤ a - 1 := by omega
  simp only [yearStart, Int.tdiv_eq_ediv_of_nonneg hb, Int.tdiv_eq_ediv_of_nonneg ha']
  omega

theorem monthStart_lt_succ (year : Int) {month : Nat} (h : 1 ≤ month) (h' : month ≤ 12) :
    monthStart year month < monthStart year (month + 1) := by
  unfold monthStart
  cases isLeapYear year <;> interval_cases month <;> decide

theorem monthStart_mono (year : Int) {m n : Nat} (hm : 1 ≤ m) (hmn : m ≤ n) (hn : n ≤ 13) :
    monthStart year m ≤ monthStart year n := by
  induction n, hmn using Nat.le_induction with
  | base => exact Int.le_refl _
  | succ n hmn ih =>
    have step := monthStart_lt_succ year (hm.trans hmn) (by omega)
    have := ih (by omega)
    omega

/-- The length of a month is the way from its first day to that of the next month. -/
theorem monthStart_add_length {year month length : Int}
    (h : monthLength? year month = some length) :
    1 ≤ month.toNat ∧ month.toNat ≤ 12 ∧
      monthStart year month.toNat + length = monthStart year (month.toNat + 1) := by
  unfold monthLength? at h
  split at h
  · next range =>
    obtain ⟨n, rfl⟩ := Int.eq_ofNat_of_zero_le (by omega : 0 ≤ month)
    simp only [Option.some.injEq] at h
    subst h
    refine ⟨by simp; omega, by simp; omega, ?_⟩
    have lower : 1 ≤ n := by omega
    have upper : n ≤ 12 := by omega
    unfold monthStart
    cases isLeapYear year <;> interval_cases n <;> decide
  · contradiction

theorem dayNumber_eq (d : Date) :
    d.dayNumber = yearStart d.year + monthStart d.year d.month.toNat + d.day - 1 := by
  have late : 2 < d.month ↔ 2 < d.month.toNat := by omega
  simp only [dayNumber, yearStart, monthStart, late]
  omega

/-- A day of the calendar, of whatever year, lies in its month. -/
theorem within_month {d : Date} (h : fault? d.year d.month d.day = none) : 1 ≤ d.year ∧
    1 ≤ d.month.toNat ∧ d.month.toNat ≤ 12 ∧ 1 ≤ d.day ∧
    monthStart d.year d.month.toNat + d.day ≤ monthStart d.year (d.month.toNat + 1) := by
  unfold fault? at h
  split at h
  · contradiction
  · cases hl : monthLength? d.year d.month with
    | none => simp [hl] at h
    | some length =>
      obtain ⟨lower, upper, ends⟩ := monthStart_add_length hl
      simp only [hl, ite_eq_right_iff, reduceCtorEq, imp_false] at h
      exact ⟨by omega, lower, upper, by omega, by omega⟩

/-- The number of a day lies between the first days of its year and of the next. -/
theorem yearStart_le {d : Date} (h : fault? d.year d.month d.day = none) :
    yearStart d.year ≤ d.dayNumber ∧ d.dayNumber < yearStart (d.year + 1) := by
  obtain ⟨year, lower, upper, day, ends⟩ := within_month h
  have first := monthStart_mono d.year (Nat.le_refl 1) lower (by omega)
  have last := monthStart_mono d.year (by omega : 1 ≤ d.month.toNat + 1)
    (by omega : d.month.toNat + 1 ≤ 13) (Nat.le_refl 13)
  have start : monthStart d.year 1 = 0 := by simp [monthStart, daysBefore]
  rw [yearStart_succ year, dayNumber_eq]
  omega

theorem dayNumber_lt {a b : Date} (ha : fault? a.year a.month a.day = none)
    (hb : fault? b.year b.month b.day = none) (h : a < b) : a.dayNumber < b.dayNumber := by
  obtain ⟨year, lower, upper, day, ends⟩ := within_month ha
  obtain ⟨year', lower', upper', day', ends'⟩ := within_month hb
  rcases lt_iff.1 h with hyear | ⟨hyear, hmonth | ⟨hmonth, hday⟩⟩
  · have := (yearStart_le ha).2
    have := (yearStart_le hb).1
    have := yearStart_mono (by omega : 1 ≤ a.year + 1) (by omega : a.year + 1 ≤ b.year)
    omega
  · have := monthStart_mono a.year (by omega : 1 ≤ a.month.toNat + 1)
      (by omega : a.month.toNat + 1 ≤ b.month.toNat) (by omega)
    rw [dayNumber_eq, dayNumber_eq, ← hyear]
    omega
  · rw [dayNumber_eq, dayNumber_eq, ← hyear, ← hmonth]
    omega

/-- Different days have different numbers. -/
theorem eq_of_dayNumber_eq {a b : Date} (ha : fault? a.year a.month a.day = none)
    (hb : fault? b.year b.month b.day = none) (h : a.dayNumber = b.dayNumber) : a = b := by
  rcases lt_trichotomy a b with hab | same | hba
  · have := dayNumber_lt ha hb hab
    omega
  · exact same
  · have := dayNumber_lt hb ha hba
    omega

/-- Valid dates compare like their numbers. -/
theorem dayNumber_lt_iff {a b : Date} (ha : a.Valid) (hb : b.Valid) :
    a.dayNumber < b.dayNumber ↔ a < b := by
  refine ⟨?_, dayNumber_lt ha.exists_day hb.exists_day⟩
  intro h
  rcases lt_trichotomy a b with hab | rfl | hba
  · exact hab
  · omega
  · have := dayNumber_lt hb.exists_day ha.exists_day hba
    omega

end BackupRetention.Date
