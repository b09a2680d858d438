/-
# Dates of the Gregorian calendar

A `Date` is a year, a month and a day of that month, in the proleptic Gregorian
calendar from the year -262143 to 262142. Days are numbered through: day 1 is
the first of January of the year 1, and order, distance and steps of days are
those of the numbers, `d.dayNumber`.

Key definitions: `Date`, `Date.dayNumber`, `Date.ofDayNumber?`,
`Date.addDays`, `Date.addMonths`.
Key theorem: `Date.dayNumber_natAbs_lt`.
-/

namespace Covenant

/-- Whether `year` has a 29th of February. -/
def isLeapYear (year : Int) : Bool :=
  year % 4 == 0 && (year % 100 != 0 || year % 400 == 0)

/-- The number of days in the `month` of `year`. -/
def monthLength (year : Int) (month : Nat) : Nat :=
  match month with
  | 2 => if isLeapYear year then 29 else 28
  | 4 | 6 | 9 | 11 => 30
  | _ => 31

/-- A day of the calendar: `day` is one of the days that the month has in this year. -/
structure Date where
  year : Int
  month : Nat
  day : Nat
  year_ge : -262143 ≤ year
  year_le : year ≤ 262142
  month_pos : 1 ≤ month
  month_le : month ≤ 12
  day_pos : 1 ≤ day
  day_le : day ≤ monthLength year month
deriving DecidableEq

namespace Date

/-- The date of `year`, `month` and `day`, if there is one. -/
def of? (year : Int) (month day : Nat) : Option Date :=
  if h : -262143 ≤ year ∧ year ≤ 262142 ∧ 1 ≤ month ∧ month ≤ 12 ∧ 1 ≤ day ∧
      day ≤ monthLength year month then
    some ⟨year, month, day, h.1, h.2.1, h.2.2.1, h.2.2.2.1, h.2.2.2.2.1, h.2.2.2.2.2⟩
  else none

/-- The date of a year, month and day that are known to make one. -/
def literal (year : Int) (month day : Nat)
    (h : (of? year month day).isSome = true := by exact Eq.refl true) : Date :=
  (of? year month day).get h

/-! ### Day numbers -/

/-- The days before the first of January of `year`, from that of the year 1. -/
def daysBeforeYear (year : Int) : Int :=
  365 * (year - 1) + (year - 1) / 4 - (year - 1) / 100 + (year - 1) / 400

/-- The days of a common year before the first of a month. -/
def commonDaysBefore : Nat → Nat
  | 1 => 0
  | 2 => 31
  | 3 => 59
  | 4 => 90
  | 5 => 120
  | 6 => 151
  | 7 => 181
  | 8 => 212
  | 9 => 243
  | 10 => 273
  | 11 => 304
  | _ => 334

/-- The days of `year` before the first of `month`. -/
def daysBeforeMonth (year : Int) (month : Nat) : Nat :=
  commonDaysBefore month + if 2 < month ∧ isLeapYear year then 1 else 0

/-- The number of the day `d`, counted from the first of January of the year 1, which is day 1. -/
def dayNumber (d : Date) : Int :=
  daysBeforeYear d.year + daysBeforeMonth d.year d.month + d.day

theorem daysBeforeMonth_le (year : Int) (month : Nat) : daysBeforeMonth year month ≤ 335 := by
  have : commonDaysBefore month ≤ 334 := by unfold commonDaysBefore; split <;> decide
  unfold daysBeforeMonth
  split <;> omega

theorem monthLength_le (year : Int) (month : Nat) : monthLength year month ≤ 31 := by
  unfold monthLength
  split
  · split <;> decide
  all_goals decide

/-- The calendar has fewer than a hundred million days on either side of day 0. -/
theorem dayNumber_natAbs_lt (d : Date) : d.dayNumber.natAbs < 100000000 := by
  have hm := daysBeforeMonth_le d.year d.month
  have hd := Nat.le_trans d.day_le (monthLength_le d.year d.month)
  have h1 := d.year_ge
  have h2 := d.year_le
  unfold dayNumber daysBeforeYear
  omega

instance : LT Date := ⟨fun a b => a.dayNumber < b.dayNumber⟩
instance : LE Date := ⟨fun a b => a.dayNumber ≤ b.dayNumber⟩
instance (a b : Date) : Decidable (a < b) := inferInstanceAs (Decidable (a.dayNumber < b.dayNumber))
instance (a b : Date) : Decidable (a ≤ b) := inferInstanceAs (Decidable (a.dayNumber ≤ b.dayNumber))

instance : Ord Date := ⟨compareOn dayNumber⟩

instance : Std.TransOrd Date := inferInstanceAs (Std.TransCmp (compareOn dayNumber))

/-- The month that holds the day of a year with this many days of the given months before it, and
its day in that month. -/
def monthAndDay (year : Int) : List Nat → Nat → Nat × Nat
  | [], before => (12, before + 1)
  | month :: months, before =>
    if before < monthLength year month then (month, before + 1)
    else monthAndDay year months (before - monthLength year month)

/-- The day whose `dayNumber` is `n`, if it is in the calendar: whole cycles of 400, 100, 4 years
and single years are taken off, then months. -/
def ofDayNumber? (n : Int) : Option Date :=
  let inCycle := (n - 1) % 146097
  let century := Min.min (inCycle / 36524) 3
  let inCentury := inCycle - 36524 * century
  let inFour := inCentury % 1461
  let single := Min.min (inFour / 365) 3
  let year := 400 * ((n - 1) / 146097) + 100 * century + 4 * (inCentury / 1461) + single + 1
  let (month, day) :=
    monthAndDay year [1, 2, 3, 4, 5, 6, 7, 8, 9, 10, 11, 12] (inFour - 365 * single).toNat
  of? year month day

/-! ### Steps -/

/-- The date `n` days after `d`. -/
def addDays (d : Date) (n : Nat) : Option Date := ofDayNumber? (d.dayNumber + n)

/-- The months from January of the year 0 to the month of `d`. -/
def monthIndex (d : Date) : Int := 12 * d.year + (d.month - 1)

/-- The date `n` months after `d`, on the last day of the month if that has no such day. -/
def addMonths (d : Date) (n : Nat) : Option Date :=
  let index := d.monthIndex + n
  let year := index / 12
  let month := (index % 12).toNat + 1
  of? year month (Min.min d.day (monthLength year month))

/-- The number of days from `a` to `b`, negative if `b` is the earlier. -/
def daysUntil (a b : Date) : Int := b.dayNumber - a.dayNumber

end Date
end Covenant
