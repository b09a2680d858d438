/-
# Periods partition the range of a schedule

Boundaries stand in strictly increasing order, and none is missing before one
that is in the calendar. So a period ends where the next one starts,
`p.finish = q.start`, the last one ends with the schedule, and no period is left
out of the list: every date from the start to the day before the end is in
exactly one of them. At the end of the calendar, where the next boundary does
not exist, the period that is open there is the last.

Key definitions: `Frequency.months?`.
Key theorems: `Frequency.boundary_lt`, `Frequency.isSome_boundary_of_le`,
`Schedule.finish_eq_start`, `Schedule.finish_eq_of_last`,
`Schedule.getElem?_periods`, `Schedule.periods_partition`.
-/
import Covenant.Proofs.Arrangement.Validity
import Covenant.Proofs.Calendar.Order
import Mathlib.Algebra.Ring.Int.Defs
import Mathlib.Logic.ExistsUnique

namespace Covenant

open Date (lt_iff le_iff)

/-! ### Boundaries -/

namespace Frequency

/-- The number of months from one boundary to the next, or `none` if they are days apart. -/
def months? : Frequency → Option Nat
  | daily | weekly => none
  | monthly => some 1
  | quarterly => some 3
  | annually => some 12

theorem boundary_zero (f : Frequency) (start : Date) : f.boundary start 0 = some start := by
  cases f with
  | daily => exact start.addDays_zero
  | weekly => exact start.addDays_zero
  | monthly => exact start.addMonths_zero
  | quarterly => exact start.addMonths_zero
  | annually => exact start.addMonths_zero

/-- Boundaries are `k` days or `k` months apart, counted from the start. -/
theorem boundary_steps (f : Frequency) :
    (∃ k, 0 < k ∧ f.months? = none ∧ ∀ start n, f.boundary start n = start.addDays (k * n)) ∨
      ∃ k, 0 < k ∧ f.months? = some k ∧
        ∀ start n, f.boundary start n = start.addMonths (k * n) := by
  cases f with
  | daily => exact .inl ⟨1, by decide, rfl, fun start n => by rw [Nat.one_mul]; rfl⟩
  | weekly => exact .inl ⟨7, by decide, rfl, fun _ _ => rfl⟩
  | monthly => exact .inr ⟨1, by decide, rfl, fun start n => by rw [Nat.one_mul]; rfl⟩
  | quarterly => exact .inr ⟨3, by decide, rfl, fun _ _ => rfl⟩
  | annually => exact .inr ⟨12, by decide, rfl, fun _ _ => rfl⟩

variable {f : Frequency} {start : Date}

/-- **Boundaries increase**: `a < b`. -/
theorem boundary_lt {a b : Date} {n m : Nat} (h : n < m) (ha : f.boundary start n = some a)
    (hb : f.boundary start m = some b) : a < b := by
  obtain ⟨k, hk, -, hsteps⟩ | ⟨k, hk, -, hsteps⟩ := f.boundary_steps
  · rw [hsteps] at ha hb
    exact Date.addDays_lt (Nat.mul_lt_mul_of_pos_left h hk) ha hb
  · rw [hsteps] at ha hb
    exact Date.addMonths_lt (Nat.mul_lt_mul_of_pos_left h hk) ha hb

theorem boundary_le {a b : Date} {n m : Nat} (h : n ≤ m) (ha : f.boundary start n = some a)
    (hb : f.boundary start m = some b) : a ≤ b := by
  rcases Nat.lt_or_eq_of_le h with hlt | rfl
  · exact Int.le_of_lt (boundary_lt hlt ha hb)
  · cases ha.symm.trans hb
    exact Int.le_refl _

/-- **No boundary is missing** before one that is in the calendar. -/
theorem isSome_boundary_of_le {n m : Nat} (h : n ≤ m) (hm : (f.boundary start m).isSome) :
    (f.boundary start n).isSome := by
  obtain ⟨k, -, -, hsteps⟩ | ⟨k, -, -, hsteps⟩ := f.boundary_steps
  · rw [hsteps] at hm ⊢
    exact Date.isSome_addDays_of_le (Nat.mul_le_mul_left k h) hm
  · rw [hsteps] at hm ⊢
    exact Date.isSome_addMonths_of_le (Nat.mul_le_mul_left k h) hm

/-- A boundary in months is in the month that it is counted to, on `start.day` or, if that month is
too short, on its last day. -/
theorem boundary_month {d : Date} {k n : Nat} (hk : f.months? = some k)
    (h : f.boundary start n = some d) : d.monthIndex = start.monthIndex + (k * n : Nat) ∧
      d.day = min start.day (monthLength d.year d.month) := by
  obtain ⟨_, -, hnone, -⟩ | ⟨k', -, hsome, hsteps⟩ := f.boundary_steps
  · rw [hk] at hnone
    cases hnone
  · cases hk.symm.trans hsome
    rw [hsteps] at h
    exact Date.addMonths_eq_some h

end Frequency

namespace Schedule

variable {s : Schedule} {i j : Nat} {p q : Period}

/-! ### One period -/

theorem isSome_period? : (s.period? i).isSome ↔
    ∃ d, s.frequency.boundary s.start i = some d ∧ d < s.finish := by
  unfold period?
  cases s.frequency.boundary s.start i with
  | none => simp
  | some d => by_cases h : d < s.finish <;> simp [h]

/-- A period starts at its boundary, before `s.finish`. -/
theorem period?_eq_some (h : s.period? i = some p) :
    p.index = i ∧ s.frequency.boundary s.start i = some p.start ∧ p.start < s.finish := by
  unfold period? at h
  split at h
  · cases h
  · rename_i d hd
    split at h
    · rename_i hlt
      cases h
      exact ⟨rfl, hd, hlt⟩
    · cases h

/-- A period ends at the next boundary, or with the schedule if there is none up to `s.finish`. -/
theorem finish_eq (h : s.period? i = some p) :
    (∃ next, s.frequency.boundary s.start (i + 1) = some next ∧ next ≤ s.finish ∧
      p.finish = next) ∨
    (∀ next, s.frequency.boundary s.start (i + 1) = some next → s.finish < next) ∧
      p.finish = s.finish := by
  obtain ⟨-, hboundary, hlt⟩ := period?_eq_some h
  unfold period? at h
  rw [hboundary] at h
  dsimp only at h
  rw [if_pos hlt] at h
  have hfinish := congrArg Period.finish (Option.some.inj h)
  cases hnext : s.frequency.boundary s.start (i + 1) with
  | none =>
    rw [hnext] at hfinish
    exact .inr ⟨fun d hd => (nomatch hd), hfinish.symm⟩
  | some next =>
    rw [hnext] at hfinish
    dsimp only at hfinish
    by_cases hle : next ≤ s.finish
    · rw [if_pos hle] at hfinish
      exact .inl ⟨next, rfl, hle, hfinish.symm⟩
    · rw [if_neg hle] at hfinish
      refine .inr ⟨fun d hd => ?_, hfinish.symm⟩
      cases hd
      exact Int.not_le.mp hle

theorem start_lt_finish (h : s.period? i = some p) : p.start < p.finish := by
  obtain ⟨-, hboundary, hlt⟩ := period?_eq_some h
  obtain ⟨next, hnext, -, hfinish⟩ | ⟨-, hfinish⟩ := finish_eq h
  · rw [hfinish]
    exact Frequency.boundary_lt (Nat.lt_succ_self i) hboundary hnext
  · rw [hfinish]
    exact hlt

/-- No period ends after the schedule. -/
theorem finish_le_finish (h : s.period? i = some p) : p.finish ≤ s.finish := by
  obtain ⟨_, -, hle, hfinish⟩ | ⟨-, hfinish⟩ := finish_eq h
  · rw [hfinish]
    exact hle
  · rw [hfinish]
    exact Int.le_refl _

/-- **A period ends where the next one starts**: `p.finish = q.start`. -/
theorem finish_eq_start (hp : s.period? i = some p) (hq : s.period? (i + 1) = some q) :
    p.finish = q.start := by
  obtain ⟨-, hboundary, hlt⟩ := period?_eq_some hq
  obtain ⟨next, hnext, -, hfinish⟩ | ⟨hpast, -⟩ := finish_eq hp
  · exact hfinish.trans (Option.some.inj (hnext.symm.trans hboundary))
  · have hgt := hpast _ hboundary
    rw [lt_iff] at hlt hgt
    omega

/-- **The last period ends with the schedule**: `p.finish = s.finish`. -/
theorem finish_eq_of_last (hp : s.period? i = some p) (hlast : s.period? (i + 1) = none) :
    p.finish = s.finish := by
  obtain ⟨next, hnext, hle, hfinish⟩ | ⟨-, hfinish⟩ := finish_eq hp
  · have hend : ¬next < s.finish := fun hlt => by
      have hsome := isSome_period?.mpr ⟨next, hnext, hlt⟩
      rw [hlast] at hsome
      cases hsome
    have heq : next.dayNumber = s.finish.dayNumber := by
      rw [lt_iff] at hend
      rw [le_iff] at hle
      omega
    rw [hfinish]
    exact Date.eq_of_dayNumber_eq heq
  · exact hfinish

/-- No period is missing before one that there is. -/
theorem isSome_period?_of_le (h : i ≤ j) (hj : (s.period? j).isSome) : (s.period? i).isSome := by
  obtain ⟨d, hd, hlt⟩ := isSome_period?.mp hj
  obtain ⟨e, he⟩ := Option.isSome_iff_exists.mp
    (Frequency.isSome_boundary_of_le h (Option.isSome_iff_exists.mpr ⟨d, hd⟩))
  have hle := Frequency.boundary_le h he hd
  exact isSome_period?.mpr ⟨e, he, Int.lt_of_le_of_lt hle hlt⟩

theorem period?_eq_none_of_le (h : i ≤ j) (hi : s.period? i = none) : s.period? j = none := by
  rw [← Option.not_isSome_iff_eq_none] at hi ⊢
  exact fun hj => hi (isSome_period?_of_le h hj)

/-- A period ends before any later one starts. -/
theorem finish_le_start (h : i < j) (hp : s.period? i = some p) (hq : s.period? j = some q) :
    p.finish ≤ q.start := by
  obtain ⟨r, hr⟩ := Option.isSome_iff_exists.mp
    (isSome_period?_of_le h (Option.isSome_iff_exists.mpr ⟨q, hq⟩))
  rw [finish_eq_start hp hr]
  exact Frequency.boundary_le h (period?_eq_some hr).2.1 (period?_eq_some hq).2.1

/-- A schedule that passes `check` has a first period. -/
theorem period?_zero (h : s.check = .ok ()) : (s.period? 0).isSome := by
  unfold period?
  rw [Frequency.boundary_zero]
  dsimp only
  rw [if_pos (check_eq_ok.mp h).1]
  rfl

/-! ### All periods -/

theorem start_of_first (h : s.period? 0 = some p) : p.start = s.start := by
  have hboundary := (period?_eq_some h).2.1
  rw [Frequency.boundary_zero] at hboundary
  exact (Option.some.inj hboundary).symm

/-- Periods have a day each, so there are no more of them than days. -/
theorem start_add_le : ∀ {i : Nat} {p : Period}, s.period? i = some p →
    s.start.dayNumber + i ≤ p.start.dayNumber
  | 0, p, h => by
    rw [start_of_first h]
    exact Int.le_of_eq (Int.add_zero _)
  | i + 1, p, h => by
    obtain ⟨q, hq⟩ := Option.isSome_iff_exists.mp
      (isSome_period?_of_le (Nat.le_succ i) (Option.isSome_iff_exists.mpr ⟨p, h⟩))
    have hbefore := start_add_le hq
    have hlt := start_lt_finish hq
    rw [finish_eq_start hq h, lt_iff] at hlt
    omega

theorem getElem?_periodsFrom (s : Schedule) : ∀ most index i : Nat,
    (s.periodsFrom most index)[i]? = if i < most then s.period? (index + i) else none
  | 0, index, i => by simp [periodsFrom]
  | most + 1, index, i => by
    unfold periodsFrom
    cases h : s.period? index with
    | none => simp [period?_eq_none_of_le (Nat.le_add_right index i) h]
    | some p =>
      cases i with
      | zero => simp [h]
      | succ i =>
        rw [List.getElem?_cons_succ, getElem?_periodsFrom s most (index + 1) i,
          Nat.add_right_comm index 1 i]
        simp only [Nat.add_lt_add_iff_right, Nat.add_assoc]

/-- **The list of periods leaves none out** and has each at its place: `s.periods[i]?` is
`s.period? i`. -/
theorem getElem?_periods (s : Schedule) (i : Nat) : s.periods[i]? = s.period? i := by
  rw [periods, getElem?_periodsFrom, Nat.zero_add, ite_eq_left_iff]
  intro hfew
  cases h : s.period? i with
  | none => rfl
  | some p =>
    have hstart := start_add_le h
    have hlt := (period?_eq_some h).2.2
    rw [lt_iff] at hlt
    unfold Date.daysUntil at hfew
    omega

/-- The schedule has `periodCount` periods. -/
theorem isSome_period?_iff_lt : (s.period? i).isSome ↔ i < s.periodCount := by
  rw [← getElem?_periods, isSome_getElem?]
  rfl

theorem mem_periods : p ∈ s.periods ↔ ∃ i, s.period? i = some p := by
  rw [List.mem_iff_getElem?]
  simp only [getElem?_periods]

theorem periodCount_le_span (s : Schedule) : s.periodCount ≤ span :=
  Nat.le_of_not_lt fun hlt => by
    obtain ⟨p, hp⟩ := Option.isSome_iff_exists.mp (isSome_period?_iff_lt.mpr hlt)
    exact Nat.lt_irrefl _ (lt_of_period?_eq_some hp)

/-- What holds past the last period, and of every period of which it holds of the next, holds of
all. -/
theorem induction_from_end {motive : Nat → Prop} (past : ∀ i, s.period? i = none → motive i)
    (period : ∀ i p, s.period? i = some p → motive (i + 1) → motive i) (i : Nat) : motive i := by
  induction hleft : s.periodCount - i generalizing i with
  | zero =>
    refine past i (Option.not_isSome_iff_eq_none.mp ?_)
    rw [isSome_period?_iff_lt]
    omega
  | succ left ih =>
    obtain ⟨p, hp⟩ := Option.isSome_iff_exists.mp
      (isSome_period?_iff_lt.mpr (show i < s.periodCount by omega))
    exact period i p hp (ih (i + 1) (by omega))

theorem map_index_periods (s : Schedule) :
    s.periods.map Period.index = List.range s.periodCount := by
  refine List.ext_getElem? fun i => ?_
  rw [List.getElem?_map, getElem?_periods]
  have hlt := @isSome_period?_iff_lt s i
  cases h : s.period? i with
  | none =>
    rw [h] at hlt
    rw [Option.map_none, List.getElem?_eq_none]
    simpa using hlt
  | some p =>
    rw [h] at hlt
    rw [Option.map_some, (period?_eq_some h).1, List.getElem?_range (hlt.mp rfl)]

/-- A date that is not before a period but before the end is in that period or in a later one. -/
theorem exists_period {d : Date} (hd : d < s.finish) {i : Nat} {p : Period}
    (h : s.period? i = some p) (hstart : p.start ≤ d) :
    ∃ j q, s.period? j = some q ∧ q.start ≤ d ∧ d < q.finish := by
  have hspan := lt_of_period?_eq_some h
  by_cases hfinish : d < p.finish
  · exact ⟨i, p, h, hstart, hfinish⟩
  · cases hnext : s.period? (i + 1) with
    | none =>
      rw [finish_eq_of_last h hnext] at hfinish
      exact absurd hd hfinish
    | some q =>
      rw [finish_eq_start h hnext] at hfinish
      exact exists_period hd hnext (Int.not_lt.mp hfinish)
termination_by span - i

theorem index_eq_of_mem {d : Date} (hp : s.period? i = some p) (hq : s.period? j = some q)
    (hpd : p.start ≤ d ∧ d < p.finish) (hqd : q.start ≤ d ∧ d < q.finish) : i = j := by
  simp only [lt_iff, le_iff] at hpd hqd
  rcases Nat.lt_trichotomy i j with hlt | heq | hgt
  · have hbefore := finish_le_start hlt hp hq
    rw [le_iff] at hbefore
    omega
  · exact heq
  · have hbefore := finish_le_start hgt hq hp
    rw [le_iff] at hbefore
    omega

/-- What adds up, `f`, comes from a period on to what it is from the start of that period to the end
of the schedule. -/
theorem sum_periods_drop {f : Date → Date → Int} (hadd : ∀ a b d, f a d = f a b + f b d) (i : Nat) :
    ∀ p, s.period? i = some p →
      ((s.periods.drop i).map fun p => f p.start p.finish).sum = f p.start s.finish := by
  induction i using induction_from_end (s := s) with
  | past i hnone =>
    intro p hp
    rw [hnone] at hp
    cases hp
  | period i q hq ih =>
    intro p hp
    cases hq.symm.trans hp
    have hlt : i < s.periods.length := isSome_period?_iff_lt.mp (by rw [hq]; rfl)
    have hhead : s.periods[i] = q :=
      Option.some.inj ((List.getElem?_eq_getElem hlt).symm.trans
        ((getElem?_periods s i).trans hq))
    rw [List.drop_eq_getElem_cons hlt, hhead, List.map_cons, List.sum_cons]
    cases hnext : s.period? (i + 1) with
    | some r =>
      rw [ih r hnext, finish_eq_start hq hnext, ← hadd]
    | none =>
      have hend : s.periods.length ≤ i + 1 :=
        List.getElem?_eq_none_iff.mp ((getElem?_periods s (i + 1)).trans hnext)
      rw [List.drop_eq_nil_of_le hend, finish_eq_of_last hq hnext]
      exact Int.add_zero _

/-- **What adds up comes over the periods** to what it is over the whole range,
`f s.start s.finish`. -/
theorem sum_periods {f : Date → Date → Int}
    (hadd : ∀ a b d, f a d = f a b + f b d) (h : s.start < s.finish) :
    (s.periods.map fun p => f p.start p.finish).sum = f s.start s.finish := by
  obtain ⟨p, hp⟩ := Option.isSome_iff_exists.mp
    (isSome_period?.mpr ⟨s.start, Frequency.boundary_zero _ _, h⟩)
  have hsum := sum_periods_drop hadd 0 p hp
  rwa [List.drop_zero, start_of_first hp] at hsum

/-- **Periods partition the range of a schedule.** If `s.start < s.finish` there is a first of
`s.periods`, which starts with the schedule, and a last, which ends with it; each is at the place of
its `index`, none is empty, and one starts where the one before it ends. So every date of the range
is in exactly one of them. If boundaries are `k` months apart, a period starts in the month that is
`k` times its index after the first, on `s.start.day` or, if that month is too short, on its last
day. -/
theorem periods_partition (s : Schedule) (h : s.start < s.finish) :
    s.periods ≠ [] ∧ s.period? s.periods.length = none ∧
      (∀ (i : Nat) (p : Period), s.periods[i]? = some p → p.index = i) ∧
      s.periods.head?.map Period.start = some s.start ∧
      s.periods.getLast?.map Period.finish = some s.finish ∧
      (∀ p ∈ s.periods, p.start < p.finish) ∧
      (∀ i p q, s.periods[i]? = some p → s.periods[i + 1]? = some q → p.finish = q.start) ∧
      (∀ d, s.start ≤ d → d < s.finish →
        ∃! p, p ∈ s.periods ∧ p.start ≤ d ∧ d < p.finish) ∧
      ∀ k, s.frequency.months? = some k → ∀ p ∈ s.periods,
        p.start.monthIndex = s.start.monthIndex + (k * p.index : Nat) ∧
          p.start.day = min s.start.day (monthLength p.start.year p.start.month) := by
  obtain ⟨first, hfirst⟩ := Option.isSome_iff_exists.mp
    (isSome_period?.mpr ⟨s.start, s.frequency.boundary_zero s.start, h⟩)
  have hcount : 0 < s.periods.length := isSome_period?_iff_lt.mp (hfirst ▸ rfl)
  have hend : s.period? s.periods.length = none := by
    rw [← getElem?_periods]
    exact List.getElem?_eq_none (Nat.le_refl _)
  obtain ⟨last, hlast⟩ : ∃ p, s.period? (s.periods.length - 1) = some p :=
    Option.isSome_iff_exists.mp (isSome_period?_iff_lt.mpr (Nat.sub_lt hcount Nat.one_pos))
  have hnone : s.period? (s.periods.length - 1 + 1) = none := by
    rw [Nat.sub_add_cancel hcount]
    exact hend
  refine ⟨List.ne_nil_of_length_pos hcount, hend, fun i p hp => ?_, ?_, ?_, fun p hp => ?_,
    fun i p q hp hq => ?_, fun d hstart hfinish => ?_, fun k hk p hp => ?_⟩
  · rw [getElem?_periods] at hp
    exact (period?_eq_some hp).1
  · rw [List.head?_eq_getElem?, getElem?_periods, hfirst, Option.map_some, start_of_first hfirst]
  · rw [List.getLast?_eq_getElem?, getElem?_periods, hlast, Option.map_some,
      finish_eq_of_last hlast hnone]
  · obtain ⟨i, hp⟩ := mem_periods.mp hp
    exact start_lt_finish hp
  · rw [getElem?_periods] at hp hq
    exact finish_eq_start hp hq
  · rw [← start_of_first hfirst] at hstart
    obtain ⟨i, q, hq, hqd⟩ := exists_period hfinish hfirst hstart
    refine ⟨q, ⟨mem_periods.mpr ⟨i, hq⟩, hqd⟩, fun r hr => ?_⟩
    obtain ⟨hmem, hrd⟩ := hr
    obtain ⟨j, hr⟩ := mem_periods.mp hmem
    cases index_eq_of_mem hq hr hqd hrd
    exact Option.some.inj (hr.symm.trans hq)
  · obtain ⟨i, hp⟩ := mem_periods.mp hp
    obtain ⟨rfl, hboundary, -⟩ := period?_eq_some hp
    exact Frequency.boundary_month hk hboundary

end Schedule

/-- From the last of January to the middle of May, month by month. -/
def endsOfMonths : Schedule := ⟨.literal 2015 1 31, .literal 2015 5 15, .monthly, .empty⟩

theorem endsOfMonths_partition : endsOfMonths.start < endsOfMonths.finish ∧
    endsOfMonths.periods =
      [⟨0, .literal 2015 1 31, .literal 2015 2 28⟩, ⟨1, .literal 2015 2 28, .literal 2015 3 31⟩,
        ⟨2, .literal 2015 3 31, .literal 2015 4 30⟩, ⟨3, .literal 2015 4 30, .literal 2015 5 15⟩] ∧
    ∃! p, p ∈ endsOfMonths.periods ∧ p.start ≤ .literal 2015 2 28 ∧
      .literal 2015 2 28 < p.finish := by
  have hrange : endsOfMonths.start < endsOfMonths.finish := by decide
  obtain ⟨-, -, -, -, -, -, -, hdates, -⟩ := endsOfMonths.periods_partition hrange
  exact ⟨hrange, by decide, hdates (.literal 2015 2 28) (by decide) (by decide)⟩

/-- The calendar ends in December, so the period from its 30th on is the last. -/
example : (Schedule.periods ⟨.literal 262142 10 30, .literal 262142 12 31, .monthly, .empty⟩).map
    Period.start = [.literal 262142 10 30, .literal 262142 11 30, .literal 262142 12 30] := by
  decide

end Covenant
