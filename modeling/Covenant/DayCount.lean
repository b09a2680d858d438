/-
# Day-count conventions

A convention says how many days of interest run from one date to another,
`accrualDays`, and how many days make the year, `basis`. The two actual
conventions count calendar days; 30/360 counts months as thirty days, the start
day at most 30, the end day at most 30 if the start day is.

Key definitions: `DayCount`, `DayCount.accrualDays`, `DayCount.basis`.
Key theorem: `DayCount.accrualDays_natAbs_lt`.
-/
import Covenant.Calendar.Date
import Covenant.Currency

namespace Covenant

/-- A way of counting days of interest. -/
inductive DayCount where
  | act365 | act360 | thirty360
deriving DecidableEq

namespace DayCount

/-- The days of interest from `start` to `finish`; negative if `finish` is the earlier. -/
def accrualDays (convention : DayCount) (start finish : Date) : Int :=
  match convention with
  | act365 | act360 => start.daysUntil finish
  | thirty360 =>
    let d1 : Int := min start.day 30
    let d2 : Int := if d1 = 30 then min finish.day 30 else finish.day
    360 * (finish.year - start.year) + 30 * ((finish.month : Int) - start.month) + (d2 - d1)

/-- A count of days has at most eleven digits, so that it is a decimal. -/
theorem accrualDays_natAbs_lt (convention : DayCount) (start finish : Date) :
    (convention.accrualDays start finish).natAbs < 100000000000 := by
  have h1 := start.dayNumber_natAbs_lt
  have h2 := finish.dayNumber_natAbs_lt
  have hs := Nat.le_trans start.day_le (Date.monthLength_le start.year start.month)
  have hf := Nat.le_trans finish.day_le (Date.monthLength_le finish.year finish.month)
  have := start.year_ge
  have := start.year_le
  have := finish.year_ge
  have := finish.year_le
  have := start.month_le
  have := finish.month_le
  unfold accrualDays
  split
  · unfold Date.daysUntil; omega
  · unfold Date.daysUntil; omega
  · simp only
    split <;> omega

/-- The days of a year. -/
def basis : DayCount → Nat
  | act365 => 365
  | act360 | thirty360 => 360

/-- The usual name, such as `act/360`. -/
def name : DayCount → String
  | act365 => "act/365"
  | act360 => "act/360"
  | thirty360 => "30/360"

/-- Reads a convention's name, whatever its case and the white space around it. -/
def read (s : String) : Except UnknownWord DayCount :=
  match Text.lower (Text.trim s) with
  | "act/365" | "actual/365" => .ok act365
  | "act/360" | "actual/360" => .ok act360
  | "30/360" => .ok thirty360
  | word => .error ⟨"day count", word⟩

end DayCount
end Covenant
