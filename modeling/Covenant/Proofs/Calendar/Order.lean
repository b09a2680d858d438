/-
# The order of days and months

Years, months and days follow one another without a gap: each month starts where
the month before it ends, and every number between those of two dates is that of
a date. So a date of a later month is a later date, and a step by days or by
months leads out of the calendar only beyond its last day: `d.addDays n = some e`
says `d.daysUntil e = n` and no more, and `d.addMonths n = some e` says
`d.MonthsLater n e`.

Key definitions: `Date.daysBefore`, `Date.lengthOf`, `Date.MonthsLater`.
Key theorems: `Date.daysBefore_succ`, `Date.lt_of_monthIndex_lt`,
`Date.le_iff_monthIndex`, `Date.isSome_addMonths`, `Date.isSome_addDays_of_le`,
`Date.addDays_eq_some_iff`, `Date.addMonths_eq_some_iff`.
-/
import Covenant.Proofs.Calendar.DayNumber

namespace Covenant
namespace Date

theorem lt_iff {a b : Date} : a < b ↔ a.dayNumber < b.dayNumber := Iff.rfl

theorem le_iff {a b : Date} : a ≤ b ↔ a.dayNumber ≤ b.dayNumber := Iff.rfl

theorem eq_of_dayNumber_eq {a b : Date} (h : a.dayNumber = b.dayNumber) : a = b := by
  have ha := ofDayNumber?_dayNumber a
  rw [h, ofDayNumber?_dayNumber b] at ha
  exact (Option.some.inj ha).symm

/-! ### Years -/

/-- The number of days in `year`. -/
def yearLength (year : Int) : Nat := if isLeapYear year then 366 else 365

theorem daysBeforeYear_succ (year : Int) :
    daysBeforeYear (year + 1) = daysBeforeYear year + yearLength year := by
  have hleap := @isLeapYear_iff year
  unfold daysBeforeYear yearLength
  split
  · rename_i h
    have := hleap.mp h
    omega
  · rename_i h
    have := mt hleap.mpr h
    omega

theorem daysBeforeYear_mono {a b : Int} (h : a ≤ b) : daysBeforeYear a ≤ daysBeforeYear b := by
  unfold daysBeforeYear
  omega

/-! ### Months -/

theorem monthLength_pos (year : Int) (month : Nat) : 1 ≤ monthLength year month := by
  unfold monthLength
  split
  · split <;> decide
  all_goals decide

theorem day_le_31 (d : Date) : d.day ≤ 31 := Nat.le_trans d.day_le (monthLength_le _ _)

/-- The days of a year before a month and those of the month are the days before the next. -/
theorem daysBeforeMonth_succ (year : Int) {month : Nat} (h1 : 1 ≤ month) (h2 : month ≤ 11) :
    daysBeforeMonth year (month + 1) = daysBeforeMonth year month + monthLength year month := by
  have hcases : month = 1 ∨ month = 2 ∨ month = 3 ∨ month = 4 ∨ month = 5 ∨ month = 6 ∨ month = 7 ∨
      month = 8 ∨ month = 9 ∨ month = 10 ∨ month = 11 := by omega
  rcases hcases with rfl | rfl | rfl | rfl | rfl | rfl | rfl | rfl | rfl | rfl | rfl <;>
    cases hleap : isLeapYear year <;>
    simp [daysBeforeMonth, commonDaysBefore, monthLength, hleap]

theorem daysBeforeMonth_december (year : Int) :
    daysBeforeMonth year 12 + monthLength year 12 = yearLength year := by
  cases hleap : isLeapYear year <;>
    simp [daysBeforeMonth, commonDaysBefore, monthLength, yearLength, hleap]

/-- The days before the first of the month `index`, from the first of January of the year 1; months
are counted from January of the year 0. -/
def daysBefore (index : Int) : Int :=
  daysBeforeYear (index / 12) + daysBeforeMonth (index / 12) ((index % 12).toNat + 1)

/-- The number of days in the month `index`, counted from January of the year 0. -/
def lengthOf (index : Int) : Nat := monthLength (index / 12) ((index % 12).toNat + 1)

/-- **A month starts where the one before it ends.** -/
theorem daysBefore_succ (index : Int) :
    daysBefore (index + 1) = daysBefore index + lengthOf index := by
  unfold daysBefore lengthOf
  by_cases h : index % 12 < 11
  · have hmonth : ((index + 1) % 12).toNat + 1 = (index % 12).toNat + 1 + 1 := by omega
    rw [show (index + 1) / 12 = index / 12 by omega, hmonth,
      daysBeforeMonth_succ _ (by omega) (by omega)]
    omega
  · have hdecember := daysBeforeMonth_december (index / 12)
    have hjanuary : daysBeforeMonth (index / 12 + 1) 1 = 0 := by
      simp [daysBeforeMonth, commonDaysBefore]
    rw [show (index + 1) / 12 = index / 12 + 1 by omega,
      show ((index + 1) % 12).toNat + 1 = 1 by omega,
      show (index % 12).toNat + 1 = 12 by omega, daysBeforeYear_succ, hjanuary]
    omega

theorem daysBefore_add_lengthOf_le {a b : Int} (h : a < b) :
    daysBefore a + lengthOf a ≤ daysBefore b := by
  obtain ⟨n, rfl⟩ : ∃ n : Nat, b = a + 1 + n := ⟨(b - a - 1).toNat, by omega⟩
  rw [← daysBefore_succ]
  clear h
  induction n with
  | zero => simp
  | succ n ih =>
    have hnext := daysBefore_succ (a + 1 + n)
    rw [show a + 1 + ((n + 1 : Nat) : Int) = a + 1 + n + 1 by omega]
    omega

section

variable (d : Date)

theorem monthIndex_div : d.monthIndex / 12 = d.year := by
  have h1 := d.month_pos
  have h2 := d.month_le
  unfold monthIndex
  omega

theorem monthIndex_mod : (d.monthIndex % 12).toNat + 1 = d.month := by
  have h1 := d.month_pos
  have h2 := d.month_le
  unfold monthIndex
  omega

theorem dayNumber_eq : d.dayNumber = daysBefore d.monthIndex + d.day := by
  rw [daysBefore, monthIndex_div, monthIndex_mod]
  rfl

theorem day_le_lengthOf : d.day ≤ lengthOf d.monthIndex := by
  rw [lengthOf, monthIndex_div, monthIndex_mod]
  exact d.day_le

end

/-- **A date of a later month is later**: `<` on `monthIndex` is `<` on dates. -/
theorem lt_of_monthIndex_lt {a b : Date} (h : a.monthIndex < b.monthIndex) : a < b := by
  have hmonths := daysBefore_add_lengthOf_le h
  have ha := a.day_le_lengthOf
  have hb := b.day_pos
  rw [lt_iff, dayNumber_eq, dayNumber_eq]
  omega

/-- **Dates are in the order of their months**, `monthIndex`, and within a month in that of their
days. -/
theorem le_iff_monthIndex {a b : Date} : a ≤ b ↔
    a.monthIndex < b.monthIndex ∨ a.monthIndex = b.monthIndex ∧ a.day ≤ b.day := by
  rcases Int.lt_trichotomy a.monthIndex b.monthIndex with hlt | heq | hgt
  · exact iff_of_true (Int.le_of_lt (lt_of_monthIndex_lt hlt)) (.inl hlt)
  · rw [le_iff, dayNumber_eq, dayNumber_eq, heq]
    omega
  · have hlater := lt_of_monthIndex_lt hgt
    exact iff_of_false (Int.not_le.mpr hlater) (by omega)

/-! ### Steps by months -/

theorem of?_eq_some {year : Int} {month day : Nat} {d : Date} (h : of? year month day = some d) :
    d.year = year ∧ d.month = month ∧ d.day = day := by
  unfold of? at h
  split at h
  · cases h
    exact ⟨rfl, rfl, rfl⟩
  · cases h

/-- A step by `n` months leads to that month, and to the same day of it or to its last. -/
theorem addMonths_eq_some {d e : Date} {n : Nat} (h : d.addMonths n = some e) :
    e.monthIndex = d.monthIndex + n ∧ e.day = Min.min d.day (monthLength e.year e.month) := by
  obtain ⟨hyear, hmonth, hday⟩ := of?_eq_some h
  refine ⟨?_, by rw [hyear, hmonth, hday]⟩
  rw [monthIndex, hyear, hmonth]
  omega

/-- A step by months fails only beyond the last year, 262142. -/
theorem isSome_addMonths {d : Date} {n : Nat} :
    (d.addMonths n).isSome ↔ (d.monthIndex + n) / 12 ≤ 262142 := by
  have hyear := d.year_ge
  have hdiv := d.monthIndex_div
  have hday := d.day_pos
  have hlength := monthLength_pos ((d.monthIndex + n) / 12) (((d.monthIndex + n) % 12).toNat + 1)
  unfold addMonths of?
  dsimp only
  split
  · rename_i h
    exact iff_of_true rfl h.2.1
  · rename_i h
    refine iff_of_false (by simp) fun hle => h ⟨by omega, hle, by omega, by omega, ?_, ?_⟩
    · omega
    · exact Nat.min_le_right _ _

theorem isSome_addMonths_of_le {d : Date} {n m : Nat} (h : n ≤ m) (hm : (d.addMonths m).isSome) :
    (d.addMonths n).isSome := by
  rw [isSome_addMonths] at hm ⊢
  omega

theorem addMonths_lt {d a b : Date} {n m : Nat} (h : n < m) (ha : d.addMonths n = some a)
    (hb : d.addMonths m = some b) : a < b := by
  have ha := (addMonths_eq_some ha).1
  have hb := (addMonths_eq_some hb).1
  exact lt_of_monthIndex_lt (by omega)

/-! ### Steps by days -/

/-- The month among `months` that the day `k` falls into, and the day within it. -/
theorem monthAndDay_eq (year : Int) : ∀ {months : List Nat} {k : Nat}, k < daysOf year months →
    ∃ before month after j, months = before ++ month :: after ∧ k = daysOf year before + j ∧
      j < monthLength year month ∧ monthAndDay year months k = (month, j + 1)
  | [], k, h => absurd h (Nat.not_lt_zero k)
  | m :: rest, k, h => by
    unfold daysOf at h
    by_cases hk : k < monthLength year m
    · exact ⟨[], m, rest, k, rfl, (Nat.zero_add k).symm, hk, if_pos hk⟩
    · obtain ⟨before, month, after, j, rfl, hj, hlt, heq⟩ :=
        @monthAndDay_eq year rest (k - monthLength year m) (by omega)
      refine ⟨m :: before, month, after, j, rfl, ?_, hlt, ?_⟩
      · rw [daysOf]
        omega
      · rw [monthAndDay, if_neg hk, heq]

theorem daysOf_year (year : Int) :
    daysOf year [1, 2, 3, 4, 5, 6, 7, 8, 9, 10, 11, 12] = yearLength year := by
  cases hleap : isLeapYear year <;> simp [daysOf, monthLength, yearLength, hleap]

/-- Any day `k` of a year is a day of one of its months. -/
theorem exists_monthAndDay {year : Int} {k : Nat} (hk : k < yearLength year) :
    ∃ month day, monthAndDay year [1, 2, 3, 4, 5, 6, 7, 8, 9, 10, 11, 12] k = (month, day) ∧
      1 ≤ month ∧ month ≤ 12 ∧ 1 ≤ day ∧ day ≤ monthLength year month ∧
      daysBeforeMonth year month + day = k + 1 := by
  rw [← daysOf_year] at hk
  obtain ⟨before, month, after, j, hmonths, hj, hlt, heq⟩ := monthAndDay_eq year hk
  have hrange : List.range' 1 12 = before ++ month :: after := hmonths
  obtain ⟨i, hi, rfl, hafter⟩ := List.range'_eq_append_iff.mp hrange
  have hmonth : month = 1 + i ∧ i < 12 := by
    cases hrest : 12 - i with
    | zero => simp [hrest] at hafter
    | succ n =>
      rw [hrest, List.range'_succ] at hafter
      injection hafter with hhead
      omega
  obtain ⟨rfl, hi⟩ := hmonth
  have hdays := daysBeforeMonth_eq_daysOf year (show 1 ≤ 1 + i by omega) (by omega)
  rw [Nat.add_sub_cancel_left] at hdays
  exact ⟨1 + i, j + 1, heq, by omega, by omega, by omega, by omega, by omega⟩

/-- The cycles `a`, `b`, `c` and `e` taken off a number of days `m` and the days `k` left make up
the number, and `k` is as long as a leap year only at the end of one. -/
theorem days_of_cycles {m a b c f e k : Int} (ha : a = m / 146097)
    (hb : b = Min.min (m % 146097 / 36524) 3) (hc : c = (m % 146097 - 36524 * b) / 1461)
    (hf : f = (m % 146097 - 36524 * b) % 1461) (he : e = Min.min (f / 365) 3)
    (hk : k = f - 365 * e) :
    m = 146097 * a + 36524 * b + 1461 * c + 365 * e + k ∧ (0 ≤ b ∧ b ≤ 3) ∧ (0 ≤ c ∧ c ≤ 24) ∧
      (0 ≤ e ∧ e ≤ 3) ∧ (0 ≤ k ∧ k ≤ 365) ∧ (k = 365 → e = 3 ∧ (c ≠ 24 ∨ b = 3)) := by
  have hcycle : 0 ≤ m % 146097 - 36524 * b ∧ m % 146097 - 36524 * b ≤ 36524 ∧
      (m % 146097 - 36524 * b = 36524 → b = 3) := by omega
  have hfour : 0 ≤ f ∧ f ≤ 1460 := by omega
  have hleft : 0 ≤ k ∧ k ≤ 365 ∧ (k = 365 → e = 3 ∧ f = 1460) := by omega
  refine ⟨by omega, by omega, by omega, by omega, by omega, fun h => ?_⟩
  omega

/-- Whole cycles are taken off a day number until less than a year is left. -/
theorem exists_year (n : Int) : ∃ (year : Int) (k : Nat), k < yearLength year ∧
    n = daysBeforeYear year + k + 1 ∧ ofDayNumber? n =
      of? year (monthAndDay year [1, 2, 3, 4, 5, 6, 7, 8, 9, 10, 11, 12] k).1
        (monthAndDay year [1, 2, 3, 4, 5, 6, 7, 8, 9, 10, 11, 12] k).2 := by
  obtain ⟨hm, hb, hc, he, hk, hlast⟩ :=
    days_of_cycles (m := n - 1) rfl rfl rfl rfl rfl rfl
  refine ⟨_, _, ?_, ?_, rfl⟩ <;>
    generalize (n - 1) / 146097 = a at * <;>
    generalize Min.min ((n - 1) % 146097 / 36524) 3 = b at * <;>
    generalize ((n - 1) % 146097 - 36524 * b) / 1461 = c at * <;>
    generalize ((n - 1) % 146097 - 36524 * b) % 1461 = f at * <;>
    generalize Min.min (f / 365) 3 = e at *
  · have hleap := @isLeapYear_iff (400 * a + 100 * b + 4 * c + e + 1)
    unfold yearLength
    split
    · omega
    · rename_i h
      have := mt hleap.mpr h
      omega
  · rw [daysBeforeYear_eq]
    omega

/-- A day number `n` has a year, and its parts make a date if the year is in the calendar. -/
theorem exists_parts (n : Int) : ∃ (year : Int) (month day : Nat),
    ofDayNumber? n = of? year month day ∧
      n = daysBeforeYear year + daysBeforeMonth year month + day ∧
      daysBeforeYear year < n ∧ n ≤ daysBeforeYear (year + 1) ∧
      1 ≤ month ∧ month ≤ 12 ∧ 1 ≤ day ∧ day ≤ monthLength year month := by
  obtain ⟨year, k, hk, hn, heq⟩ := exists_year n
  obtain ⟨month, day, hparts, h1, h2, h3, h4, hday⟩ := exists_monthAndDay hk
  rw [hparts] at heq
  have hnext := daysBeforeYear_succ year
  exact ⟨year, month, day, heq, by omega, by omega, by omega, h1, h2, h3, h4⟩

/-- **A number is found from its day**: `dayNumber` undoes `ofDayNumber?`. -/
theorem dayNumber_of_ofDayNumber? {n : Int} {d : Date} (h : ofDayNumber? n = some d) :
    d.dayNumber = n := by
  obtain ⟨year, month, day, heq, hn, -⟩ := exists_parts n
  obtain ⟨hyear, hmonth, hday⟩ := of?_eq_some (heq ▸ h)
  rw [dayNumber, hyear, hmonth, hday, hn]

/-- **Every number between those of two dates is that of a date.** -/
theorem isSome_ofDayNumber? {a b : Date} {n : Int} (ha : a.dayNumber ≤ n) (hb : n ≤ b.dayNumber) :
    (ofDayNumber? n).isSome := by
  have hyears : ∀ d : Date, daysBeforeYear d.year < d.dayNumber ∧
      d.dayNumber ≤ daysBeforeYear (d.year + 1) := fun d => by
    have hlength := monthLength_add_daysBeforeMonth_le d.year d.month_pos d.month_le
    have hnext := daysBeforeYear_succ d.year
    have h1 := d.day_pos
    have h2 := d.day_le
    unfold yearLength at hnext
    unfold dayNumber
    omega
  obtain ⟨year, month, day, heq, hn, hlt, hle, h1, h2, h3, h4⟩ := exists_parts n
  have hfirst : a.year ≤ year := Int.not_lt.mp fun h => by
    have hmono := daysBeforeYear_mono (show year + 1 ≤ a.year by omega)
    have hstart := hyears a
    omega
  have hlast : year ≤ b.year := Int.not_lt.mp fun h => by
    have hmono := daysBeforeYear_mono (show b.year + 1 ≤ year by omega)
    have hend := hyears b
    omega
  have hge := a.year_ge
  have hmax := b.year_le
  rw [heq, of?, dif_pos ⟨by omega, by omega, h1, h2, h3, h4⟩]
  rfl

/-- A step by `n` days leads that many days further. -/
theorem addDays_eq_some {d e : Date} {n : Nat} (h : d.addDays n = some e) :
    e.dayNumber = d.dayNumber + n :=
  dayNumber_of_ofDayNumber? h

theorem isSome_addDays_of_le {d : Date} {n m : Nat} (h : n ≤ m) (hm : (d.addDays m).isSome) :
    (d.addDays n).isSome := by
  obtain ⟨e, he⟩ := Option.isSome_iff_exists.mp hm
  have := addDays_eq_some he
  exact isSome_ofDayNumber? (a := d) (b := e) (by omega) (by omega)

theorem addDays_lt {d a b : Date} {n m : Nat} (h : n < m) (ha : d.addDays n = some a)
    (hb : d.addDays m = some b) : a < b := by
  have ha := addDays_eq_some ha
  have hb := addDays_eq_some hb
  rw [lt_iff]
  omega

/-! ### Steps from a date -/

/-- The date `e` is in the month that is `n` months after that of `d`, on the same day of the month
or, if that month is too short, on its last. -/
def MonthsLater (d : Date) (n : Nat) (e : Date) : Prop :=
  12 * e.year + e.month = 12 * d.year + d.month + n ∧
    e.day = min d.day (monthLength e.year e.month)

instance (d : Date) (n : Nat) (e : Date) : Decidable (d.MonthsLater n e) :=
  inferInstanceAs (Decidable (_ ∧ _))

variable {d e : Date} {n : Nat}

/-- **A step by days** leads to the date `n` days later, if the calendar has it. -/
theorem addDays_eq_some_iff : d.addDays n = some e ↔ d.daysUntil e = n := by
  unfold daysUntil
  constructor
  · intro h
    have := addDays_eq_some h
    omega
  · intro h
    have hnumber : d.dayNumber + n = e.dayNumber := by omega
    rw [addDays, hnumber]
    exact ofDayNumber?_dayNumber e

/-- **A step by months** leads to the date `n` months later, if the calendar has it. -/
theorem addMonths_eq_some_iff : d.addMonths n = some e ↔ d.MonthsLater n e := by
  constructor
  · intro h
    obtain ⟨hmonth, hday⟩ := addMonths_eq_some h
    unfold monthIndex at hmonth
    exact ⟨by omega, hday⟩
  · rintro ⟨hmonth, hday⟩
    have hindex : d.monthIndex + n = e.monthIndex := by
      unfold monthIndex
      omega
    unfold addMonths
    simp only [hindex, monthIndex_div, monthIndex_mod]
    rw [← hday]
    exact of?_self e

theorem addDays_zero (d : Date) : d.addDays 0 = some d :=
  addDays_eq_some_iff.mpr (Int.sub_self _)

theorem addMonths_zero (d : Date) : d.addMonths 0 = some d :=
  addMonths_eq_some_iff.mpr ⟨(Int.add_zero _).symm, (Nat.min_eq_left d.day_le).symm⟩

/-! ### Lists of dates -/

/-- In increasing dates the last one is the latest. -/
theorem le_of_getLast?_eq_some {dates : List Date} (hdates : dates.Pairwise (· < ·)) {last : Date}
    (hlast : dates.getLast? = some last) : ∀ d ∈ dates, d ≤ last := by
  obtain ⟨front, rfl⟩ := List.getLast?_eq_some_iff.mp hlast
  obtain ⟨-, -, hbefore⟩ := List.pairwise_append.mp hdates
  intro d hd
  rcases List.mem_append.mp hd with hd | hd
  · exact Int.le_of_lt (hbefore d hd last List.mem_cons_self)
  · rw [List.mem_singleton.mp hd]
    exact Int.le_refl _

end Date
end Covenant
