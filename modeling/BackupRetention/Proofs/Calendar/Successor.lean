import BackupRetention.Proofs.Calendar.DayNumber
import Mathlib.Logic.Function.Iterate

/-!
# One day after the other

The day after a date is told by the lengths of the months alone, and its number is the next one. So
the difference of two numbers counts the days on the way from one date to the other. Numbers of 64
bits are enough for all of this, also in between.

## Main definitions

* `Date.next`: the day after.
* `Date.dayNumber64?`: the number of a date as it is computed with numbers of 64 bits.

## Main results

* `Date.dayNumber_next`: the day after has the next number.
* `Date.counts_days`: numbers of dates count the days of the calendar.
-/

namespace BackupRetention.Date

/-! ## The day after -/

/-- The next day of the month, or else the first day of the next month, or else the first day of the
next year. -/
def next (d : Date) : Date :=
  if (monthLength? d.year d.month).any (d.day < ·) then { d with day := d.day + 1 }
  else if d.month < 12 then ⟨d.year, d.month + 1, 1⟩
  else ⟨d.year + 1, 1, 1⟩

theorem fault?_eq_none_iff {year month day : Int} : fault? year month day = none ↔
    1 ≤ year ∧ ∃ length, monthLength? year month = some length ∧ 1 ≤ day ∧ day ≤ length := by
  by_cases early : year < 1
  · simp [fault?, early]
  · cases found : monthLength? year month with
    | none => simp [fault?, early, found]
    | some length =>
      simp only [fault?, early, found, if_false, Option.some.injEq, exists_eq_left']
      simp
      omega

/-- Every month has a day. -/
theorem exists_monthLength (year : Int) {month : Int} (h : 1 ≤ month ∧ month ≤ 12) :
    ∃ length, monthLength? year month = some length ∧ 1 ≤ length := by
  obtain ⟨length, found⟩ : ∃ length, monthLength? year month = some length := ⟨_, if_pos h⟩
  obtain ⟨lower, upper, ends⟩ := monthStart_add_length found
  have := monthStart_lt_succ year lower upper
  exact ⟨length, found, by omega⟩

theorem fault?_first {year month : Int} (hy : 1 ≤ year) (hm : 1 ≤ month ∧ month ≤ 12) :
    fault? year month 1 = none := by
  obtain ⟨length, found, pos⟩ := exists_monthLength year hm
  exact fault?_eq_none_iff.2 ⟨hy, length, found, Int.le_refl 1, pos⟩

section Next

variable {d : Date}

/-- The three ways to the day after. -/
theorem next_cases (h : fault? d.year d.month d.day = none) :
    ∃ length, monthLength? d.year d.month = some length ∧
      (d.day < length ∧ d.next = ⟨d.year, d.month, d.day + 1⟩ ∨
        d.day = length ∧ d.month < 12 ∧ d.next = ⟨d.year, d.month + 1, 1⟩ ∨
        d.day = length ∧ d.month = 12 ∧ d.next = ⟨d.year + 1, 1, 1⟩) := by
  obtain ⟨-, length, found, -, last⟩ := fault?_eq_none_iff.1 h
  obtain ⟨-, upper, -⟩ := monthStart_add_length found
  refine ⟨length, found, ?_⟩
  by_cases inside : d.day < length
  · exact .inl ⟨inside, by simp [next, found, inside]⟩
  · have ends : d.day = length := by omega
    by_cases early : d.month < 12
    · exact .inr (.inl ⟨ends, early, by simp [next, found, inside, early]⟩)
    · exact .inr (.inr ⟨ends, by omega, by simp [next, found, inside, early]⟩)

/-- The day after a day of the calendar is a day of the calendar. -/
theorem fault?_next (h : fault? d.year d.month d.day = none) :
    fault? d.next.year d.next.month d.next.day = none := by
  obtain ⟨year, lower, upper, day, -⟩ := within_month h
  obtain ⟨length, found, ⟨inside, following⟩ | ⟨-, early, following⟩ | ⟨-, -, following⟩⟩ :=
    next_cases h <;> rw [following]
  · exact fault?_eq_none_iff.2 ⟨year, length, found, Int.le_add_one (by omega), inside⟩
  · exact fault?_first year ⟨Int.le_add_one (by omega), early⟩
  · exact fault?_first (Int.le_add_one year) ⟨Int.le_refl 1, by simp⟩

/-- The day after has the next number. -/
theorem dayNumber_next (h : fault? d.year d.month d.day = none) :
    d.next.dayNumber = d.dayNumber + 1 := by
  obtain ⟨year, lower, upper, -⟩ := within_month h
  obtain ⟨length, found, ways⟩ := next_cases h
  have ends := (monthStart_add_length found).2.2
  rw [dayNumber_eq, dayNumber_eq]
  rcases ways with ⟨-, following⟩ | ⟨last, early, following⟩ | ⟨last, december, following⟩ <;>
    simp only [following]
  · omega
  · have month : (d.month + 1).toNat = d.month.toNat + 1 := by omega
    rw [month]
    omega
  · -- The end of December is the length of the year.
    have start : monthStart (d.year + 1) 1 = 0 := by simp [monthStart, daysBefore]
    have wholeYear := yearStart_succ year
    simp only [december, Int.reduceToNat, Int.toNat_one, Nat.reduceAdd, start] at ends ⊢
    omega

/-- Some days later. -/
theorem dayNumber_iterate (h : fault? d.year d.month d.day = none) (n : Nat) :
    fault? (next^[n] d).year (next^[n] d).month (next^[n] d).day = none ∧
      (next^[n] d).dayNumber = d.dayNumber + n := by
  induction n with
  | zero => exact ⟨h, by simp⟩
  | succ n ih =>
    obtain ⟨day, number⟩ := ih
    rw [Function.iterate_succ_apply']
    refine ⟨fault?_next day, ?_⟩
    rw [dayNumber_next day, number]
    omega

end Next

/-- The difference of two dates is the number of days from one to the other. -/
theorem iterate_next_iff {a b : Date} (ha : fault? a.year a.month a.day = none)
    (hb : fault? b.year b.month b.day = none) (n : Nat) :
    next^[n] b = a ↔ a.daysSince b = n := by
  obtain ⟨day, number⟩ := dayNumber_iterate hb n
  rw [daysSince]
  constructor
  · rintro rfl
    omega
  · intro between
    exact eq_of_dayNumber_eq day ha (by omega)

/-! ## Numbers of 64 bits -/

/-- The number `n`, unless it takes more than 64 signed bits. -/
def int64? (n : Int) : Option Int :=
  if -2 ^ 63 ≤ n ∧ n < 2 ^ 63 then some n else none

theorem int64?_eq_some {n : Int} (h : -2 ^ 63 ≤ n ∧ n < 2 ^ 63) : int64? n = some n :=
  if_pos h

/-- The number of a date, computed in 64 bits one step after the other. There is none if a single
step needs more. -/
def dayNumber64? (d : Date) : Option Int := do
  let past ← int64? (d.year - 1)
  let plainDays ← int64? (365 * d.year)
  let fourths ← int64? (past.tdiv 4)
  let days ← int64? (plainDays + fourths)
  let hundredths ← int64? (past.tdiv 100)
  let days ← int64? (days - hundredths)
  let fourHundredths ← int64? (past.tdiv 400)
  let days ← int64? (days + fourHundredths)
  let days ← int64? (days + daysBefore d.month.toNat)
  let days ← int64? (days + if 2 < d.month ∧ isLeapYear d.year then 1 else 0)
  let days ← int64? (days + d.day)
  int64? (days - 1)

def daysSince64? (a b : Date) : Option Int := do
  let later ← a.dayNumber64?
  let earlier ← b.dayNumber64?
  int64? (later - earlier)

theorem int64?_bind {α : Type} {n : Int} (h : -2 ^ 63 ≤ n ∧ n < 2 ^ 63) (next : Int → Option α) :
    (int64? n >>= next) = next n := by
  rw [int64?_eq_some h]
  rfl

theorem daysBefore_bounds (month : Nat) : 0 ≤ daysBefore month ∧ daysBefore month ≤ 365 := by
  unfold daysBefore
  split <;> decide

/-- A year has room for no more than 366 days. -/
theorem Valid.day_le {d : Date} (h : d.Valid) : 1 ≤ d.day ∧ d.day ≤ 366 := by
  obtain ⟨-, -, -, day, ends⟩ := within_month h.exists_day
  have start := daysBefore_bounds d.month.toNat
  have next := daysBefore_bounds (d.month.toNat + 1)
  unfold monthStart at ends
  split at ends <;> split at ends <;> omega

/-- No step of the computation needs more than 64 bits. -/
theorem dayNumber64?_eq {d : Date} (h : d.Valid) : d.dayNumber64? = some d.dayNumber := by
  obtain ⟨year, -⟩ := within_month h.exists_day
  have last : d.year ≤ 2147483647 := h.year_le
  have past : 0 ≤ d.year - 1 := by omega
  have days := daysBefore_bounds d.month.toNat
  have day := h.day_le
  have leapDay : 0 ≤ (if 2 < d.month ∧ isLeapYear d.year then 1 else 0 : Int) ∧
      (if 2 < d.month ∧ isLeapYear d.year then 1 else 0 : Int) ≤ 1 := by
    split <;> decide
  unfold dayNumber64? dayNumber
  rw [int64?_bind (by omega)]
  -- In years from 1 on, `omega` knows the divisions.
  simp only [Int.tdiv_eq_ediv_of_nonneg past]
  repeat rw [int64?_bind (by omega)]
  exact int64?_eq_some (by omega)

/-- The number of a date lies before that of the first day of the next year. -/
theorem Valid.dayNumber_bounds {d : Date} (h : d.Valid) :
    0 ≤ d.dayNumber ∧ d.dayNumber < 2 ^ 40 := by
  obtain ⟨lower, upper⟩ := yearStart_le h.exists_day
  obtain ⟨year, -⟩ := within_month h.exists_day
  have last : d.year ≤ 2147483647 := h.year_le
  have past : 0 ≤ d.year - 1 := by omega
  have now : 0 ≤ d.year + 1 - 1 := by omega
  simp only [yearStart, Int.tdiv_eq_ediv_of_nonneg past, Int.tdiv_eq_ediv_of_nonneg now]
    at lower upper
  omega

theorem daysSince64?_eq {a b : Date} (ha : a.Valid) (hb : b.Valid) :
    daysSince64? a b = some (a.daysSince b) := by
  have later := ha.dayNumber_bounds
  have earlier := hb.dayNumber_bounds
  simp only [daysSince64?, dayNumber64?_eq ha, dayNumber64?_eq hb, Option.bind_eq_bind,
    Option.bind_some]
  exact int64?_eq_some (by omega)

/-! ## Counting days -/

/-- The numbers of dates count the days of the calendar: they order the dates, the day after has the
next number, and the difference of two numbers is the number of days between the dates, negative if
the first one is earlier. No step on the way to it needs more than 64 bits. -/
theorem counts_days {a b : Date} (ha : a.Valid) (hb : b.Valid) :
    (a < b ↔ a.dayNumber < b.dayNumber) ∧
    make a.next.year a.next.month a.next.day = .ok a.next ∧
    a.next.dayNumber = a.dayNumber + 1 ∧
    (∀ n : Nat, next^[n] b = a ↔ a.daysSince b = n) ∧
    (∀ n : Nat, next^[n] a = b ↔ a.daysSince b = -n) ∧
    a.dayNumber64? = some a.dayNumber ∧
    daysSince64? a b = some (a.daysSince b) := by
  have day := ha.exists_day
  refine ⟨(dayNumber_lt_iff ha hb).symm, make_eq_ok_iff.2 ⟨rfl, fault?_next day⟩,
    dayNumber_next day, iterate_next_iff day hb.exists_day, ?_, dayNumber64?_eq ha,
    daysSince64?_eq ha hb⟩
  intro n
  rw [iterate_next_iff hb.exists_day day, daysSince, daysSince]
  omega

/-- The whole calendar: the first day of it and the last one. -/
theorem counts_days_of_calendar : Date.Valid ⟨1, 1, 1⟩ ∧ Date.Valid ⟨2147483647, 12, 31⟩ ∧
    daysSince64? ⟨1, 1, 1⟩ ⟨2147483647, 12, 31⟩ = some (-784352295938) := by
  have first : Date.Valid ⟨1, 1, 1⟩ := by decide
  have last : Date.Valid ⟨2147483647, 12, 31⟩ := by decide
  obtain ⟨-, -, -, -, -, -, fits⟩ := counts_days first last
  exact ⟨first, last, fits.trans (by decide)⟩

end BackupRetention.Date
