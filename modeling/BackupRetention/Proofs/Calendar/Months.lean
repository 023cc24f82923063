import BackupRetention.Proofs.Calendar.Successor

/-!
# Month after month

A walk along months goes from the first day of a month to that of the next one. Its steps are as
long as the months they leave, and numbers of 32 bits are enough for them as long as they are enough
for the year.

## Main definitions

* `Date.monthNumber`: the place of a month in the count of months.
* `Date.monthsOn`: the first day of a month, some months later.
* `Date.WalksMonths`: what is promised of a walk along months.

## Main results

* `Date.dayNumber_addMonth`: a month later is the length of the month later.
* `Date.walks_months`: a walk along months agrees with the calendar.
-/

namespace BackupRetention.Date

/-- The place of the month of a date in the count of months. -/
def monthNumber (d : Date) : Int :=
  d.year * 12 + d.month

/-- The first day of the month that comes `n` months after that of `d`. -/
def monthsOn (d : Date) (n : Nat) : Date :=
  addMonth^[n] d.firstOfMonth

theorem monthsOn_succ (d : Date) (n : Nat) : d.monthsOn (n + 1) = (d.monthsOn n).addMonth :=
  Function.iterate_succ_apply' ..

/-- A walk of single months. -/
theorem walk_replicate (d : Date) (n : Nat) :
    walk d (List.replicate n .addMonth) = (List.range (n + 1)).map (addMonth^[·] d) := by
  induction n generalizing d with
  | zero => rfl
  | succ n ih =>
    have later : List.range (n + 1 + 1) = 0 :: (List.range (n + 1)).map Nat.succ :=
      List.range_succ_eq_map
    rw [List.replicate_succ, walk, Stride.apply, ih, later, List.map_cons, List.map_map]
    rfl

/-- A walk along the months after that of `d`. -/
theorem walk_months (d : Date) (n : Nat) :
    walk d (.firstOfMonth :: List.replicate n .addMonth) =
      d :: (List.range (n + 1)).map d.monthsOn := by
  rw [walk, Stride.apply, walk_replicate]
  rfl

/-! ## One month later -/

section Step

variable {d : Date}

/-- The two ways to the next month. -/
theorem addMonth_cases (month : d.month ≤ 12) :
    d.month < 12 ∧ d.addMonth = { d with month := d.month + 1 } ∨
      d.month = 12 ∧ d.addMonth = { d with year := d.year + 1, month := 1 } := by
  by_cases early : d.month < 12
  · exact .inl ⟨early, if_neg (by omega)⟩
  · exact .inr ⟨by omega, if_pos (by omega)⟩

theorem monthNumber_addMonth (month : d.month ≤ 12) :
    d.addMonth.monthNumber = d.monthNumber + 1 := by
  rcases addMonth_cases month with ⟨-, later⟩ | ⟨december, later⟩ <;> rw [later]
  · simp only [monthNumber]
    omega
  · simp only [monthNumber, december]
    omega

theorem year_le_addMonth (d : Date) : d.year ≤ d.addMonth.year := by
  unfold addMonth
  split
  · exact Int.le_add_one (Int.le_refl _)
  · exact Int.le_refl _

/-- The numbers of the days of a month follow one another. -/
theorem dayNumber_day (d : Date) (day : Int) :
    dayNumber ⟨d.year, d.month, day⟩ = d.dayNumber - d.day + day := by
  simp only [dayNumber_eq]
  omega

/-- The first day of a month comes after the last one of the month before. -/
theorem next_last {length : Int} (year : 1 ≤ d.year)
    (found : monthLength? d.year d.month = some length) :
    fault? d.year d.month length = none ∧
      next ⟨d.year, d.month, length⟩ = d.addMonth.firstOfMonth := by
  obtain ⟨lower, upper, -⟩ := monthStart_add_length found
  have month : 1 ≤ d.month ∧ d.month ≤ 12 := by omega
  obtain ⟨own, same, pos⟩ := exists_monthLength d.year month
  obtain rfl : length = own := Option.some.inj (found.symm.trans same)
  refine ⟨fault?_eq_none_iff.2 ⟨year, length, found, pos, Int.le_refl _⟩, ?_⟩
  rcases addMonth_cases month.2 with ⟨early, later⟩ | ⟨december, later⟩ <;> rw [later]
  · simp [next, found, early, firstOfMonth]
  · have late : ¬ d.month < 12 := by omega
    simp [next, found, late, firstOfMonth]

/-- The same day of the next month, whether there is such a day or not, is the length of the month
later. -/
theorem dayNumber_addMonth {length : Int} (year : 1 ≤ d.year)
    (found : monthLength? d.year d.month = some length) :
    d.addMonth.dayNumber = d.dayNumber + length := by
  obtain ⟨day, following⟩ := next_last year found
  have step := @dayNumber_next ⟨d.year, d.month, length⟩ day
  have last := d.dayNumber_day length
  have first : d.addMonth.firstOfMonth.dayNumber = _ := d.addMonth.dayNumber_day 1
  rw [addMonth_day] at first
  rw [following, first, last] at step
  omega

/-- The first day of a month is followed by that of the next. -/
theorem fault?_addMonth (h : fault? d.year d.month d.day = none) (first : d.day = 1) :
    fault? d.addMonth.year d.addMonth.month d.addMonth.day = none := by
  obtain ⟨year, length, found, -⟩ := fault?_eq_none_iff.1 h
  obtain ⟨day, following⟩ := next_last year found
  have there := @fault?_next ⟨d.year, d.month, length⟩ day
  rw [following] at there
  rwa [addMonth_day, first]

theorem fault?_firstOfMonth (h : fault? d.year d.month d.day = none) :
    fault? d.firstOfMonth.year d.firstOfMonth.month d.firstOfMonth.day = none := by
  obtain ⟨year, lower, upper, -⟩ := within_month h
  have month : 1 ≤ d.month ∧ d.month ≤ 12 := by omega
  exact fault?_first year month

end Step

/-! ## Numbers of 32 bits -/

/-- The number `n`, unless it takes more than 32 signed bits. -/
def int32? (n : Int) : Option Int :=
  if Text.minInt32 ≤ n ∧ n ≤ Text.maxInt32 then some n else none

/-- The same day of the next month, computed in 32 bits. There is none if a single step needs
more. -/
def addMonth32? (d : Date) : Option Date := do
  let month ← int32? (d.month + 1)
  if 12 < month then
    let year ← int32? (d.year + 1)
    return { d with year := year, month := 1 }
  else return { d with month := month }

theorem addMonth32?_eq {d : Date} (h : fault? d.year d.month d.day = none)
    (fits : d.addMonth.year ≤ Text.maxInt32) : d.addMonth32? = some d.addMonth := by
  obtain ⟨year, lower, upper, -⟩ := within_month h
  have month : d.month ≤ 12 := by omega
  have following : int32? (d.month + 1) = some (d.month + 1) :=
    if_pos (by simp only [Text.minInt32, Text.maxInt32]; omega)
  unfold addMonth32?
  rw [following]
  rcases addMonth_cases month with ⟨early, later⟩ | ⟨december, later⟩ <;> rw [later]
  · have stays : ¬ 12 < d.month + 1 := by omega
    simp [stays]
  · have carries : 12 < d.month + 1 := by omega
    rw [later] at fits
    have next : int32? (d.year + 1) = some (d.year + 1) :=
      if_pos ⟨by simp only [Text.minInt32]; omega, fits⟩
    simp [carries, next]

/-! ## Walks -/

section Walk

variable {d : Date}

/-- Every stop of a walk along months is the first day of a month. -/
theorem fault?_monthsOn (h : fault? d.year d.month d.day = none) (n : Nat) :
    fault? (d.monthsOn n).year (d.monthsOn n).month (d.monthsOn n).day = none ∧
      (d.monthsOn n).day = 1 := by
  induction n with
  | zero => exact ⟨fault?_firstOfMonth h, rfl⟩
  | succ n ih =>
    obtain ⟨day, first⟩ := ih
    rw [monthsOn_succ]
    exact ⟨fault?_addMonth day first, by rw [addMonth_day, first]⟩

theorem monthNumber_monthsOn (h : fault? d.year d.month d.day = none) (n : Nat) :
    (d.monthsOn n).monthNumber = d.monthNumber + n := by
  induction n with
  | zero => simp [monthsOn, monthNumber, firstOfMonth]
  | succ n ih =>
    obtain ⟨-, -, upper, -⟩ := within_month (fault?_monthsOn h n).1
    rw [monthsOn_succ, monthNumber_addMonth (by omega), ih]
    omega

/-- Every step of a walk is as long as the month that it leaves. -/
theorem dayNumber_monthsOn (h : fault? d.year d.month d.day = none) (n : Nat) :
    ∃ length, monthLength? (d.monthsOn n).year (d.monthsOn n).month = some length ∧
      (d.monthsOn (n + 1)).dayNumber = (d.monthsOn n).dayNumber + length := by
  obtain ⟨year, length, found, -⟩ := fault?_eq_none_iff.1 (fault?_monthsOn h n).1
  rw [monthsOn_succ]
  exact ⟨length, found, dayNumber_addMonth year found⟩

/-- The length of a walk is the sum of the lengths of the months on it. -/
theorem daysSince_monthsOn (h : fault? d.year d.month d.day = none) (n : Nat) :
    ∃ lengths : List Int,
      ((List.range n).map fun k => monthLength? (d.monthsOn k).year (d.monthsOn k).month) =
        lengths.map some ∧
      (d.monthsOn n).daysSince d.firstOfMonth = lengths.sum := by
  induction n with
  | zero => exact ⟨[], rfl, Int.sub_self _⟩
  | succ n ih =>
    obtain ⟨lengths, passed, distance⟩ := ih
    obtain ⟨length, found, step⟩ := dayNumber_monthsOn h n
    refine ⟨lengths ++ [length], ?_, ?_⟩
    · rw [List.range_succ, List.map_append, passed, List.map_append, List.map_singleton, found]
      rfl
    · rw [daysSince] at distance ⊢
      rw [step, List.sum_append, List.sum_singleton, ← distance]
      omega

/-- As long as the year fits, so does every number on the way. -/
theorem iterate_addMonth32? (h : fault? d.year d.month d.day = none) {n : Nat}
    (fits : (d.monthsOn n).year ≤ Text.maxInt32) :
    (Option.bind · addMonth32?)^[n] (some d.firstOfMonth) = some (d.monthsOn n) := by
  induction n with
  | zero => rfl
  | succ n ih =>
    rw [monthsOn_succ] at fits ⊢
    rw [Function.iterate_succ_apply', ih ((year_le_addMonth _).trans fits)]
    exact addMonth32?_eq (fault?_monthsOn h n).1 fits

end Walk

/-- What is promised of a walk over `n` months from that of `d`. -/
structure WalksMonths (d : Date) (n : Nat) : Prop where
  /-- The walk stops at the first day of each month. -/
  stops : walk d (.firstOfMonth :: List.replicate n .addMonth) =
    d :: (List.range (n + 1)).map d.monthsOn
  /-- No step needs more than 32 bits. -/
  fits : (Option.bind · addMonth32?)^[n] (some d.firstOfMonth) = some (d.monthsOn n)
  valid : (d.monthsOn n).Valid
  first : (d.monthsOn n).day = 1
  months : (d.monthsOn n).year * 12 + (d.monthsOn n).month = d.year * 12 + d.month + n
  /-- A step is as long as the month that it leaves. -/
  step : ∀ k < n, ∃ length,
    monthLength? (d.monthsOn k).year (d.monthsOn k).month = some length ∧
      (d.monthsOn (k + 1)).dayNumber = (d.monthsOn k).dayNumber + length
  /-- The walk is as long as all the months that it leaves. -/
  distance : ∃ lengths : List Int,
    ((List.range n).map fun k => monthLength? (d.monthsOn k).year (d.monthsOn k).month) =
      lengths.map some ∧
    (d.monthsOn n).daysSince d.firstOfMonth = lengths.sum

/-- A walk along months agrees with the calendar: it goes from the first day of a month to that of
the next one, is as many months long as it has steps, and each step is as long as the month that it
leaves. -/
theorem walks_months {d : Date} (valid : d.Valid) {n : Nat}
    (fits : (d.monthsOn n).year ≤ Text.maxInt32) : d.WalksMonths n := by
  have day := valid.exists_day
  obtain ⟨there, first⟩ := fault?_monthsOn day n
  exact ⟨walk_months d n, iterate_addMonth32? day fits, ⟨there, fits⟩, first,
    monthNumber_monthsOn day n, fun k _ => dayNumber_monthsOn day k, daysSince_monthsOn day n⟩

/-- A walk over the leap year 2000, from the end of December on. -/
theorem walks_months_leap : Date.Valid ⟨1999, 12, 31⟩ ∧
    monthsOn ⟨1999, 12, 31⟩ 14 = ⟨2001, 2, 1⟩ ∧ WalksMonths ⟨1999, 12, 31⟩ 14 ∧
    daysSince ⟨2001, 2, 1⟩ ⟨1999, 12, 1⟩ = 31 + 366 + 31 := by
  have valid : Date.Valid ⟨1999, 12, 31⟩ := by decide
  have stop : monthsOn ⟨1999, 12, 31⟩ 14 = ⟨2001, 2, 1⟩ := by decide
  exact ⟨valid, stop, walks_months valid (by rw [stop]; decide), by decide⟩

end BackupRetention.Date
