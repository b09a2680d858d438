/-
# Schedules

A schedule cuts the range from `start` to `finish` into periods of one
`Frequency`. Each boundary is counted from the start, `boundary start n`, and
never from the boundary before it, so that a start at the end of a month does
not drift. The last period ends with the schedule.

Key definitions: `Frequency.boundary`, `Schedule`, `Schedule.period?`,
`Schedule.periods`, `Schedule.check`.
Key theorem: `Schedule.lt_of_period?_eq_some`.
-/
import Covenant.Amount.Basic
import Covenant.Construction

namespace Covenant

/-- How long a period is: a day, a week, or one, three or twelve months. -/
inductive Frequency where
  | daily | weekly | monthly | quarterly | annually
deriving DecidableEq

namespace Frequency

/-- The date `n` periods after `start`, if it is in the calendar. -/
def boundary (frequency : Frequency) (start : Date) (n : Nat) : Option Date :=
  match frequency with
  | daily => start.addDays n
  | weekly => start.addDays (7 * n)
  | monthly => start.addMonths n
  | quarterly => start.addMonths (3 * n)
  | annually => start.addMonths (12 * n)

/-- Reads a frequency's name, whatever its case and the white space around it. -/
def read (s : String) : Except UnknownWord Frequency :=
  match Text.lower (Text.trim s) with
  | "daily" => .ok daily
  | "weekly" => .ok weekly
  | "monthly" => .ok monthly
  | "quarterly" => .ok quarterly
  | "annually" | "annual" | "yearly" => .ok annually
  | word => .error ⟨"frequency", word⟩

end Frequency

/-- One period of a schedule: from `start` to the day before `finish`. -/
structure Period where
  index : Nat
  start : Date
  finish : Date
deriving DecidableEq

/-- The index of the period and its two dates. -/
def Period.toText (p : Period) : String :=
  "#" ++ Digits.text p.index ++ " [" ++ p.start.slashText ++ ", " ++ p.finish.slashText ++ ")"

/-- The range from `start` to `finish`, the length of its periods, and the `initial` values of state
variables. -/
structure Schedule where
  start : Date
  finish : Date
  frequency : Frequency
  initial : OrderedMap String Amount
deriving DecidableEq

namespace Schedule

/-- The period numbered `index`, if the schedule has so many: it starts at `boundary start index`.
-/
def period? (s : Schedule) (index : Nat) : Option Period :=
  match s.frequency.boundary s.start index with
  | none => none
  | some start =>
    if start < s.finish then
      some ⟨index, start,
        match s.frequency.boundary s.start (index + 1) with
        | some next => if next ≤ s.finish then next else s.finish
        | none => s.finish⟩
    else none

/-- The periods from `index` on, at most `most` of them. -/
def periodsFrom (s : Schedule) : (most : Nat) → (index : Nat) → List Period
  | 0, _ => []
  | most + 1, index =>
    match s.period? index with
    | some p => p :: s.periodsFrom most (index + 1)
    | none => []

/-- The periods in order; `span` is more than there can be. -/
def periods (s : Schedule) : List Period :=
  s.periodsFrom (s.start.daysUntil s.finish).toNat 0

/-- The number of periods. -/
def periodCount (s : Schedule) : Nat := s.periods.length

/-- Whether no period comes after the one numbered `index`. -/
def isFinal (s : Schedule) (index : Nat) : Bool := (s.period? (index + 1)).isNone

/-- The first variable whose `initial` value depends on state variables or on a period. -/
def openVariable? (s : Schedule) : Option String :=
  (s.initial.entries.find? fun e => !e.2.stateNames.isEmpty || e.2.ofPeriod).map (·.1)

/-- Whether the schedule can be rolled out: `finish` is after `start`, the first period's end is in
the calendar, and no variable is open. -/
def check (s : Schedule) : Except ConstructionError Unit :=
  if s.finish ≤ s.start then
    .error (.malformedSchedule (.endNotAfterStart s.finish s.start))
  else if (s.frequency.boundary s.start 1).isNone then
    .error (.malformedSchedule .firstPeriodOutOfRange)
  else
    match s.openVariable? with
    | some name => .error (.malformedSchedule (.initialValueNotClosed name))
    | none => .ok ()

/-! ### Schedules are finite -/

/-- More periods than any schedule has, `lt_of_period?_eq_some`. -/
def span : Nat := 300000000

theorem range_of_of?_eq_some {year : Int} {month day : Nat} {d : Date}
    (h : Date.of? year month day = some d) : -262143 ≤ year ∧ year ≤ 262142 := by
  unfold Date.of? at h
  split at h
  · rename_i h'
    exact ⟨h'.1, h'.2.1⟩
  · simp at h

theorem le_of_ofDayNumber?_eq_some {n : Int} {d : Date} (h : Date.ofDayNumber? n = some d) :
    n < 100000000 := by
  have hyear := (range_of_of?_eq_some h).2
  omega

theorem lt_of_addDays_eq_some {d e : Date} {n : Nat} (h : d.addDays n = some e) : n < span := by
  have h1 := le_of_ofDayNumber?_eq_some h
  have h2 := d.dayNumber_natAbs_lt
  unfold span
  omega

theorem lt_of_addMonths_eq_some {d e : Date} {n : Nat} (h : d.addMonths n = some e) :
    n < span := by
  have h1 := (range_of_of?_eq_some h).2
  have h2 := d.year_ge
  have h3 := d.month_pos
  unfold Date.monthIndex at h1
  unfold span
  omega

theorem lt_of_boundary_eq_some {f : Frequency} {start d : Date} {n : Nat}
    (h : f.boundary start n = some d) : n < span := by
  cases f
  · exact lt_of_addDays_eq_some h
  · have := lt_of_addDays_eq_some (n := 7 * n) h; omega
  · exact lt_of_addMonths_eq_some h
  · have := lt_of_addMonths_eq_some (n := 3 * n) h; omega
  · have := lt_of_addMonths_eq_some (n := 12 * n) h; omega

/-- **Schedules are finite.** No schedule has a period with an index of `span` or more. -/
theorem lt_of_period?_eq_some {s : Schedule} {index : Nat} {p : Period}
    (h : s.period? index = some p) : index < span := by
  unfold period? at h
  split at h
  · simp at h
  · rename_i start hstart
    exact lt_of_boundary_eq_some hstart

end Schedule
end Covenant
