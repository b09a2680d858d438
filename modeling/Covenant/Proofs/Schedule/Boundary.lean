/-
# Boundaries do not drift

Which date a boundary is, the calendar says alone: `f.boundary start n` is the
date so many days after the start, or the date in the month that is so many
months after the start's, on the start's day of the month as far as that month
has it. The boundaries before it do not enter into it, so that a start on the
31st comes back to the 31st after a short month. A boundary is missing only if
the calendar has no such date, in machine words as well, where no product wraps
around to a date.

Key definition: `Frequency.IsBoundary`.
Key theorems: `Frequency.boundary_eq_some_iff`, `Frequency.boundaries_never_drift`.
-/
import Covenant.Proofs.Schedule.Lookup

namespace Covenant

namespace Frequency

/-- `d` is the `n`-th boundary after the start, by the calendar. -/
def IsBoundary (frequency : Frequency) (start : Date) (n : Nat) (d : Date) : Prop :=
  match frequency with
  | daily => start.daysUntil d = n
  | weekly => start.daysUntil d = 7 * n
  | monthly => start.MonthsLater n d
  | quarterly => start.MonthsLater (3 * n) d
  | annually => start.MonthsLater (12 * n) d

/-- **A boundary is the date that the calendar says**: `boundary` has one if there is such a
date. -/
theorem boundary_eq_some_iff {f : Frequency} {start d : Date} {n : Nat} :
    f.boundary start n = some d ↔ f.IsBoundary start n d := by
  cases f with
  | daily => exact Date.addDays_eq_some_iff
  | weekly => exact Date.addDays_eq_some_iff (n := 7 * n)
  | monthly => exact Date.addMonths_eq_some_iff
  | quarterly => exact Date.addMonths_eq_some_iff
  | annually => exact Date.addMonths_eq_some_iff

/-- **Boundaries do not drift.** `f.boundary start 0` is the start; boundaries strictly increase,
and after a missing one all are missing; the `n`-th is the one date of which `IsBoundary` holds,
whatever the ones before it; and counted in machine words, by `boundary32`, they are the same. -/
theorem boundaries_never_drift (f : Frequency) (start : Date) :
    f.boundary start 0 = some start ∧
    (∀ n m a b, n < m → f.boundary start n = some a → f.boundary start m = some b → a < b) ∧
    (∀ n m, n ≤ m → f.boundary start n = none → f.boundary start m = none) ∧
    (∀ n d, f.boundary start n = some d ↔ f.IsBoundary start n d) ∧
    ∀ n : UInt32, f.boundary32 start n = f.boundary start n.toNat := by
  refine ⟨f.boundary_zero start, fun n m a b hlt ha hb => ?_, fun n m hle hn => ?_, fun n d => ?_,
    fun n => ?_⟩
  · exact boundary_lt hlt ha hb
  · rw [← Option.not_isSome_iff_eq_none] at hn ⊢
    exact fun hm => hn (isSome_boundary_of_le hle hm)
  · exact boundary_eq_some_iff
  · exact f.boundary32_eq start n

/-- From a leap day on, a year of twelve months is too short for the day three times and long enough
the fourth; `357913942` years, whose months would wrap around to eight, have no boundary. -/
theorem leapDay_never_drifts :
    annually.boundary (.literal 2016 2 29) 3 = some (.literal 2019 2 28) ∧
    annually.boundary (.literal 2016 2 29) 4 = some (.literal 2020 2 29) ∧
    Date.literal 2019 2 28 < .literal 2020 2 29 ∧
    (12 : UInt32) * 357913942 = 8 ∧
    annually.boundary32 (.literal 2016 2 29) 357913942 = none := by
  obtain ⟨-, hlt, hnone, hcalendar, hwords⟩ := annually.boundaries_never_drift (.literal 2016 2 29)
  have hthird : annually.boundary (.literal 2016 2 29) 3 = some (.literal 2019 2 28) :=
    (hcalendar 3 _).mpr (by decide : Date.MonthsLater _ _ _)
  have hfourth : annually.boundary (.literal 2016 2 29) 4 = some (.literal 2020 2 29) :=
    (hcalendar 4 _).mpr (by decide : Date.MonthsLater _ _ _)
  refine ⟨hthird, hfourth, hlt 3 4 _ _ (by decide) hthird hfourth, by decide, ?_⟩
  rw [hwords]
  exact hnone 300000 _ (by decide) (by decide)

end Frequency
end Covenant
