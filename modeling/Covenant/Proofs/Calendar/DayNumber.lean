/-
# The number of a day names the day

Every date is found again from its number, `ofDayNumber? d.dayNumber = some d`:
the whole cycles of 400, 100, 4 years and single years that are taken off are
those of its year, and what is left of the year falls into its month.

Key theorems: `Date.of?_self`, `Date.ofDayNumber?_dayNumber`.
-/
import Covenant.Calendar.Date

namespace Covenant
namespace Date

/-- The parts of a date make the date. -/
theorem of?_self (d : Date) : of? d.year d.month d.day = some d := by
  rw [of?, dif_pos ⟨d.year_ge, d.year_le, d.month_pos, d.month_le, d.day_pos, d.day_le⟩]

/-! ### Months -/

/-- The days in the given months of `year`. -/
def daysOf (year : Int) : List Nat → Nat
  | [] => 0
  | month :: rest => monthLength year month + daysOf year rest

theorem monthAndDay_append (year : Int) (month : Nat) (after : List Nat) {k : Nat}
    (hk : k < monthLength year month) : ∀ before : List Nat,
    monthAndDay year (before ++ month :: after) (daysOf year before + k) = (month, k + 1)
  | [] => by simp [monthAndDay, daysOf, hk]
  | m :: before => by
    have ih := monthAndDay_append year month after hk before
    rw [List.cons_append, monthAndDay, daysOf, if_neg (by omega)]
    rwa [show monthLength year m + daysOf year before + k - monthLength year m =
      daysOf year before + k by omega]

theorem daysBeforeMonth_eq_daysOf (year : Int) {month : Nat} (h1 : 1 ≤ month) (h2 : month ≤ 12) :
    daysBeforeMonth year month = daysOf year (List.range' 1 (month - 1)) := by
  have hcases : month = 1 ∨ month = 2 ∨ month = 3 ∨ month = 4 ∨ month = 5 ∨ month = 6 ∨ month = 7 ∨
      month = 8 ∨ month = 9 ∨ month = 10 ∨ month = 11 ∨ month = 12 := by omega
  rcases hcases with rfl | rfl | rfl | rfl | rfl | rfl | rfl | rfl | rfl | rfl | rfl | rfl <;>
    cases hleap : isLeapYear year <;>
    simp [daysBeforeMonth, commonDaysBefore, monthLength, hleap, List.range', daysOf]

theorem range'_eq_append {month : Nat} (h1 : 1 ≤ month) (h2 : month ≤ 12) :
    [1, 2, 3, 4, 5, 6, 7, 8, 9, 10, 11, 12] =
      List.range' 1 (month - 1) ++ month :: List.range' (month + 1) (12 - month) := by
  have hall : [1, 2, 3, 4, 5, 6, 7, 8, 9, 10, 11, 12] = List.range' 1 12 := rfl
  have hsplit := @List.range'_append 1 (month - 1) (12 - month + 1) 1
  rw [hall, show 12 = month - 1 + (12 - month + 1) by omega, ← hsplit, List.range'_succ]
  simp only [Nat.one_mul]
  rw [show 1 + (month - 1) = month by omega]
  congr 3
  omega

/-- The day that is `daysBeforeMonth` and `d.day - 1` days after the first of January is in the
month it was counted from. -/
theorem monthAndDay_daysBeforeMonth (d : Date) :
    monthAndDay d.year [1, 2, 3, 4, 5, 6, 7, 8, 9, 10, 11, 12]
      (daysBeforeMonth d.year d.month + (d.day - 1)) = (d.month, d.day) := by
  have hday := d.day_pos
  have hlength := d.day_le
  rw [range'_eq_append d.month_pos d.month_le,
    daysBeforeMonth_eq_daysOf d.year d.month_pos d.month_le,
    monthAndDay_append d.year d.month _ (by omega)]
  rw [show d.day - 1 + 1 = d.day by omega]

theorem monthLength_add_daysBeforeMonth_le (year : Int) {month : Nat} (h1 : 1 ≤ month)
    (h2 : month ≤ 12) :
    daysBeforeMonth year month + monthLength year month ≤ if isLeapYear year then 366 else 365 := by
  have hcases : month = 1 ∨ month = 2 ∨ month = 3 ∨ month = 4 ∨ month = 5 ∨ month = 6 ∨ month = 7 ∨
      month = 8 ∨ month = 9 ∨ month = 10 ∨ month = 11 ∨ month = 12 := by omega
  rcases hcases with rfl | rfl | rfl | rfl | rfl | rfl | rfl | rfl | rfl | rfl | rfl | rfl <;>
    cases hleap : isLeapYear year <;>
    simp [daysBeforeMonth, commonDaysBefore, monthLength, hleap]

/-! ### Years -/

theorem isLeapYear_iff {year : Int} :
    isLeapYear year = true ↔
      (year - 1) % 4 = 3 ∧ ((year - 1) % 100 ≠ 99 ∨ (year - 1) % 400 = 399) := by
  simp only [isLeapYear, Bool.and_eq_true, Bool.or_eq_true, beq_iff_eq, bne_iff_ne]
  omega

theorem daysBeforeYear_eq (year : Int) : daysBeforeYear year =
    146097 * ((year - 1) / 400) + 36524 * ((year - 1) % 400 / 100) +
      1461 * ((year - 1) % 100 / 4) + 365 * ((year - 1) % 4) := by
  unfold daysBeforeYear
  omega

/-- Whole cycles `a`, `b`, `c` and `e` are taken off a day number `m` in the way that its year is
made of them: only the last day of a leap year could seem to belong to one more. -/
theorem cycles_of_days {a b c e k m : Int} (hb : 0 ≤ b ∧ b ≤ 3) (hc : 0 ≤ c ∧ c ≤ 24)
    (he : 0 ≤ e ∧ e ≤ 3) (hk : 0 ≤ k ∧ k ≤ 365) (hlast : k = 365 → e = 3 ∧ (c ≠ 24 ∨ b = 3))
    (hm : m = 146097 * a + 36524 * b + 1461 * c + 365 * e + k) :
    m / 146097 = a ∧ Min.min (m % 146097 / 36524) 3 = b ∧
      (m % 146097 - 36524 * b) / 1461 = c ∧
      Min.min ((m % 146097 - 36524 * b) % 1461 / 365) 3 = e ∧
      (m % 146097 - 36524 * b) % 1461 - 365 * e = k := by
  have h1 : m / 146097 = a := by omega
  have h2 : m % 146097 = 36524 * b + 1461 * c + 365 * e + k := by omega
  rw [h2]
  have h3 : Min.min ((36524 * b + 1461 * c + 365 * e + k) / 36524) 3 = b := by omega
  have h4 : 36524 * b + 1461 * c + 365 * e + k - 36524 * b = 1461 * c + 365 * e + k := by omega
  rw [h4]
  have h5 : (1461 * c + 365 * e + k) / 1461 = c := by omega
  have h6 : (1461 * c + 365 * e + k) % 1461 = 365 * e + k := by omega
  rw [h6]
  exact ⟨h1, h3, h5, by omega, by omega⟩

/-- **A day is found from its number**: `ofDayNumber?` undoes `dayNumber`. -/
theorem ofDayNumber?_dayNumber (d : Date) : ofDayNumber? d.dayNumber = some d := by
  have hlength := monthLength_add_daysBeforeMonth_le d.year d.month_pos d.month_le
  have hday := d.day_pos
  have hle := d.day_le
  have hleap := @isLeapYear_iff d.year
  obtain ⟨h1, h2, h3, h4, h5⟩ := cycles_of_days (a := (d.year - 1) / 400)
    (b := (d.year - 1) % 400 / 100) (c := (d.year - 1) % 100 / 4) (e := (d.year - 1) % 4)
    (k := daysBeforeMonth d.year d.month + (d.day - 1)) (m := d.dayNumber - 1)
    (by omega) (by omega) (by omega) (by split at hlength <;> omega)
    (fun h => by
      have hyear : isLeapYear d.year = true := by
        cases hl : isLeapYear d.year
        · rw [hl] at hlength
          simp only [Bool.false_eq_true, ↓reduceIte] at hlength
          omega
        · rfl
      have := hleap.mp hyear
      omega)
    (by rw [dayNumber, daysBeforeYear_eq]; omega)
  have hyear : 400 * ((d.year - 1) / 400) + 100 * ((d.year - 1) % 400 / 100) +
      4 * ((d.year - 1) % 100 / 4) + (d.year - 1) % 4 + 1 = d.year := by omega
  have hk : (daysBeforeMonth d.year d.month + ((d.day : Int) - 1)).toNat =
      daysBeforeMonth d.year d.month + (d.day - 1) := by omega
  unfold ofDayNumber?
  simp only [h1, h2, h3, h4, h5, hyear, hk, monthAndDay_daysBeforeMonth]
  exact of?_self d

end Date
end Covenant
