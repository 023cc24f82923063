import BackupRetention.Text.Decimal

/-!
# Calendar dates

A date is a year, a month and a day of the Gregorian calendar, extended to all years.
Days are counted by a closed formula, so that the difference of two dates is a number of
days. Months are walked without looking at the day.

## Main definitions

* `Date.make`: a date from its three numbers, or the first reason against them.
* `Date.dayNumber`: the place of a date in the count of days.
* `Date.addMonth`, `Date.firstOfMonth`: walking along months.
-/

namespace BackupRetention

/-- Why three numbers, or a text, are no date. -/
inductive DateReason where
  | badFormat
  | yearTooSmall
  | monthOutOfRange
  | dayOutOfRange
  deriving DecidableEq, Repr

/-- A rejected date: what was given, and what is wrong with it. -/
structure InvalidDate where
  input : String
  reason : DateReason
  deriving DecidableEq, Repr

/-- A day of the calendar. -/
structure Date where
  year : Int
  month : Int
  day : Int
  deriving DecidableEq, Repr

namespace Date

/-- Calendar order: by year, then month, then day. -/
def Before (a b : Date) : Prop :=
  a.year < b.year ∨ (a.year = b.year ∧
    (a.month < b.month ∨ (a.month = b.month ∧ a.day < b.day)))

instance : LT Date := ⟨Before⟩

instance (a b : Date) : Decidable (a < b) :=
  inferInstanceAs (Decidable (_ ∨ (_ ∧ (_ ∨ (_ ∧ _)))))

theorem lt_iff {a b : Date} : a < b ↔ a.year < b.year ∨ (a.year = b.year ∧
    (a.month < b.month ∨ (a.month = b.month ∧ a.day < b.day))) :=
  Iff.rfl

theorem lt_irrefl (a : Date) : ¬ a < a := by
  simp [lt_iff]

theorem lt_trans {a b c : Date} (hab : a < b) (hbc : b < c) : a < c := by
  simp only [lt_iff] at *
  omega

/-- Any two dates compare. -/
theorem lt_trichotomy (a b : Date) : a < b ∨ a = b ∨ b < a := by
  obtain ⟨y, m, d⟩ := a
  obtain ⟨y', m', d'⟩ := b
  simp only [lt_iff, Date.mk.injEq]
  omega

/-- The earlier of two dates. -/
def earlier (a b : Date) : Date := if b < a then b else a

/-- The later of two dates. -/
def later (a b : Date) : Date := if a < b then b else a

/-- Every fourth year, but of the hundredths only every fourth. -/
def isLeapYear (year : Int) : Bool :=
  (year % 4 == 0 && year % 100 != 0) || year % 400 == 0

/-- The number of days of a common year that lie before month `month`. Month 13 stands for
the end of December. -/
def daysBefore : Nat → Int
  | 1 => 0
  | 2 => 31
  | 3 => 59
  | 4 => 90
  | 5 => 120
  | 6 => 151
  | 7 => 181
  | 8 => 212
  | 9 => 243
  | 10 => 273
  | 11 => 304
  | 12 => 334
  | 13 => 365
  | _ => 0

/-- The number of days in a month; only the numbers from 1 to 12 are months. -/
def monthLength? (year month : Int) : Option Int :=
  if 1 ≤ month ∧ month ≤ 12 then
    let length := daysBefore (month.toNat + 1) - daysBefore month.toNat
    some (if month = 2 ∧ isLeapYear year then length + 1 else length)
  else none

/-- `dayNumber` counts days such that the day after has the next number. Divisions go
towards zero. -/
def dayNumber (d : Date) : Int :=
  let past := d.year - 1
  let years := 365 * d.year + past.tdiv 4 - past.tdiv 100 + past.tdiv 400
  let leapDay := if 2 < d.month ∧ isLeapYear d.year then 1 else 0
  years + daysBefore d.month.toNat + leapDay + d.day - 1

/-- The signed number of days from `b` to `a`. -/
def daysSince (a b : Date) : Int :=
  a.dayNumber - b.dayNumber

/-- The date `YYYY-MM-DD`, with more digits for later years. -/
def chars (d : Date) : List Char :=
  Text.padded 4 d.year ++ '-' :: (Text.padded 2 d.month ++ '-' :: Text.padded 2 d.day)

def text (d : Date) : String :=
  String.ofList d.chars

instance : ToString Date := ⟨text⟩

/-- What is wrong with three numbers as a date, year first. -/
def fault? (year month day : Int) : Option DateReason :=
  if year < 1 then some .yearTooSmall
  else
    match monthLength? year month with
    | none => some .monthOutOfRange
    | some length => if day < 1 ∨ length < day then some .dayOutOfRange else none

/-- The date with the given numbers, or the first of them that is out of range. -/
def make (year month day : Int) : Except InvalidDate Date :=
  let d : Date := ⟨year, month, day⟩
  match fault? year month day with
  | none => .ok d
  | some reason => .error ⟨d.text, reason⟩

/-- A day of a year from 1 to 2147483647. -/
structure Valid (d : Date) : Prop where
  exists_day : fault? d.year d.month d.day = none
  year_le : d.year ≤ Text.maxInt32

instance (d : Date) : Decidable d.Valid :=
  decidable_of_iff (fault? d.year d.month d.day = none ∧ d.year ≤ Text.maxInt32)
    ⟨fun h => ⟨h.1, h.2⟩, fun h => ⟨h.1, h.2⟩⟩

theorem make_eq_ok_iff {year month day : Int} {d : Date} :
    make year month day = .ok d ↔
      d = ⟨year, month, day⟩ ∧ fault? year month day = none := by
  unfold make
  cases fault? year month day <;> simp [eq_comm]

/-- The years that a computer's calendar can name. -/
def earliestYear : Int := -262143

def latestYear : Int := 262142

/-- The date with these numbers in the calendar extended to years before 1, if there is one. -/
def ofCalendar? (year month day : Int) : Option Date :=
  if year < earliestYear ∨ latestYear < year then none
  else
    match monthLength? year month with
    | none => none
    | some length => if day < 1 ∨ length < day then none else some ⟨year, month, day⟩

/-- The same day of the next month. The day is carried over as it is, so a month without
that day is only avoided by starting from `firstOfMonth`. -/
def addMonth (d : Date) : Date :=
  if 12 < d.month + 1 then { d with year := d.year + 1, month := 1 }
  else { d with month := d.month + 1 }

def firstOfMonth (d : Date) : Date :=
  { d with day := 1 }

@[simp] theorem addMonth_day (d : Date) : d.addMonth.day = d.day := by
  unfold addMonth
  split <;> rfl

/-- One step of a walk along the calendar. -/
inductive Stride where
  | addMonth
  | firstOfMonth
  deriving DecidableEq, Repr

def Stride.apply : Stride → Date → Date
  | .addMonth, d => d.addMonth
  | .firstOfMonth, d => d.firstOfMonth

/-- The dates of a walk, the start included. -/
def walk (start : Date) : List Stride → List Date
  | [] => [start]
  | s :: rest => start :: walk (s.apply start) rest

end Date

end BackupRetention
