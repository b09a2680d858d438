/-
# Days of interest follow the calendar

From a date to itself there are no days of interest, a later end never takes any
away and a later start never adds any. So `c.accrualDays a b` never runs against
the dates. In `thirty360` the end day is capped only if the start day is: the
cap may take a day from the end of a month, but never more than the change of
the month has given. The actual conventions leave no day out and count none
twice, so that counts add up: over the periods of a schedule they come to the
count over its whole range.

Key theorems: `DayCount.accrualDays_mono`, `DayCount.accrualDays_anti`,
`DayCount.accrualDays_add`, `DayCount.accrualDays_follow_dates`.
-/
import Covenant.DayCount
import Covenant.Proofs.Schedule.Partition

namespace Covenant

namespace DayCount

variable {c : DayCount} {a a' b b' : Date}

/-! ### Two kinds of conventions -/

theorem accrualDays_actual (hc : c ≠ .thirty360) (a b : Date) :
    c.accrualDays a b = a.daysUntil b := by
  cases c with
  | act365 => rfl
  | act360 => rfl
  | thirty360 => exact absurd rfl hc

/-- In `thirty360` a month is thirty days, and the days of the month count on top. -/
theorem accrualDays_thirty360 (a b : Date) : thirty360.accrualDays a b =
    30 * (b.monthIndex - a.monthIndex) +
      ((if 30 ≤ a.day then min b.day 30 else b.day : Nat) - (min a.day 30 : Nat) : Int) := by
  unfold accrualDays Date.monthIndex
  dsimp only
  by_cases h : 30 ≤ a.day
  · rw [if_pos h, if_pos (by omega)]
    omega
  · rw [if_neg h, if_neg (by omega)]
    omega

/-! ### Order -/

theorem accrualDays_self (c : DayCount) (d : Date) : c.accrualDays d d = 0 := by
  by_cases hc : c = .thirty360
  · subst hc
    rw [accrualDays_thirty360]
    split <;> omega
  · rw [accrualDays_actual hc, Date.daysUntil, Int.sub_self]

/-- **A later end takes no days away.** -/
theorem accrualDays_mono (c : DayCount) (a : Date) (h : b ≤ b') :
    c.accrualDays a b ≤ c.accrualDays a b' := by
  by_cases hc : c = .thirty360
  · subst hc
    have hb := b.day_le_31
    have hb' := b'.day_pos
    rw [accrualDays_thirty360, accrualDays_thirty360]
    -- a new month gives thirty days, and the day falls from 31 to 1 at the most
    rcases Date.le_iff_monthIndex.mp h with hmonth | ⟨hmonth, hday⟩
    · split <;> omega
    · split <;> omega
  · rw [accrualDays_actual hc, accrualDays_actual hc]
    exact Int.sub_le_sub_right h _

/-- **A later start adds no days.** -/
theorem accrualDays_anti (c : DayCount) (b : Date) (h : a ≤ a') :
    c.accrualDays a' b ≤ c.accrualDays a b := by
  by_cases hc : c = .thirty360
  · subst hc
    have hb := b.day_le_31
    have ha := a.day_pos
    have ha' := a'.day_pos
    rw [accrualDays_thirty360, accrualDays_thirty360]
    -- the start day falls from 30 to 1 at the most, and with it the cap on the end day may go
    rcases Date.le_iff_monthIndex.mp h with hmonth | ⟨hmonth, hday⟩
    · split <;> split <;> omega
    · split <;> split <;> omega
  · rw [accrualDays_actual hc, accrualDays_actual hc]
    exact Int.sub_le_sub_left h _

theorem accrualDays_nonneg (c : DayCount) (h : a ≤ b) : 0 ≤ c.accrualDays a b := by
  rw [← c.accrualDays_self a]
  exact c.accrualDays_mono a h

theorem accrualDays_nonpos (c : DayCount) (h : b ≤ a) : c.accrualDays a b ≤ 0 := by
  rw [← c.accrualDays_self a]
  exact c.accrualDays_mono a h

/-! ### Sums -/

/-- **Actual days add up.** -/
theorem accrualDays_add (hc : c ≠ .thirty360) (a b d : Date) :
    c.accrualDays a d = c.accrualDays a b + c.accrualDays b d := by
  rw [accrualDays_actual hc, accrualDays_actual hc, accrualDays_actual hc]
  unfold Date.daysUntil
  omega

end DayCount

/-- **Days of interest follow the dates.** In every convention `accrualDays` is zero from a date to
itself, a later end takes none away and a later start adds none; so it is at least zero up to a
later date, and at most zero back to an earlier one. For `act365` and `act360` the days add up, from
date to date and so over `s.periods` of a schedule. -/
theorem DayCount.accrualDays_follow_dates :
    (∀ c : DayCount, (∀ d, c.accrualDays d d = 0) ∧
      (∀ a b b', b ≤ b' → c.accrualDays a b ≤ c.accrualDays a b') ∧
      (∀ a a' b, a ≤ a' → c.accrualDays a' b ≤ c.accrualDays a b) ∧
      (∀ a b, a ≤ b → 0 ≤ c.accrualDays a b) ∧ ∀ a b, b < a → c.accrualDays a b ≤ 0) ∧
    ∀ c : DayCount, c = .act365 ∨ c = .act360 →
      (∀ a b d, c.accrualDays a d = c.accrualDays a b + c.accrualDays b d) ∧
      ∀ s : Schedule, s.start < s.finish →
        (s.periods.map fun p => c.accrualDays p.start p.finish).sum =
          c.accrualDays s.start s.finish := by
  refine ⟨fun c => ⟨c.accrualDays_self, fun a _ _ => c.accrualDays_mono a,
    fun _ _ b => c.accrualDays_anti b, fun _ _ => c.accrualDays_nonneg,
    fun _ _ h => c.accrualDays_nonpos (Int.le_of_lt h)⟩, fun c hc => ?_⟩
  have hactual : c ≠ .thirty360 := by
    rcases hc with rfl | rfl <;> decide
  exact ⟨accrualDays_add hactual, fun s => Schedule.sum_periods (accrualDays_add hactual)⟩

/-- From the last of January to the middle of May the periods have 28, 31, 30 and 15 days in
`act365`; and in `thirty360` a start on the 31st of January adds no day to one on the 29th. -/
theorem endsOfMonths_days :
    endsOfMonths.start < endsOfMonths.finish ∧
    endsOfMonths.periods.map (fun p => DayCount.act365.accrualDays p.start p.finish) =
      [28, 31, 30, 15] ∧
    DayCount.act365.accrualDays endsOfMonths.start endsOfMonths.finish = 104 ∧
    DayCount.thirty360.accrualDays (.literal 2015 1 31) (.literal 2015 3 31) ≤
      DayCount.thirty360.accrualDays (.literal 2015 1 29) (.literal 2015 3 31) := by
  have hrange : endsOfMonths.start < endsOfMonths.finish := by decide
  have hdays : endsOfMonths.periods.map (fun p => DayCount.act365.accrualDays p.start p.finish) =
      [28, 31, 30, 15] := by decide
  obtain ⟨hconventions, hactual⟩ := DayCount.accrualDays_follow_dates
  have hsum := (hactual .act365 (.inl rfl)).2 endsOfMonths hrange
  rw [hdays] at hsum
  exact ⟨hrange, hdays, hsum.symm, (hconventions .thirty360).2.2.1 _ _ _ (by decide)⟩

/-- In 30/360 the days of the periods need not come to those of the whole: here to one more. -/
example : (endsOfMonths.periods.map fun p =>
      DayCount.thirty360.accrualDays p.start p.finish).sum = 106 ∧
    DayCount.thirty360.accrualDays endsOfMonths.start endsOfMonths.finish = 105 := by
  decide

end Covenant
