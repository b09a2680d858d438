/-
# Looking periods up

A period is found by its index alone, `s.period? i`, without a look at the ones
before it. The periods are enumerated by going on until there is none, they are
counted in the same way, and the last one is found by asking for the one after
it. All of these agree, since no period is missing before another.

They agree in machine words as well. An index that does not fit 32 bits has no
period, nor has one whose months do not fit, and none is lost by that: the
calendar ends long before, at `Schedule.span`.

Key definitions: `Schedule.period64?`, `Schedule.isFinal64`,
`Schedule.periodsOnward`, `Schedule.countOnward`.
Key theorems: `Schedule.period64?_eq`, `Schedule.getElem?_periodsOnward`,
`Schedule.isFinal_iff`, `Rollout.step_of_final`, `Rollout.step_of_not_final`,
`periods_looked_up`.
-/
import Covenant.Proofs.Arrangement.Settling
import Covenant.Proofs.Run
import Covenant.Proofs.Schedule.Partition

namespace Covenant

/-! ### Machine words -/

/-- The number in 32 bits, if it fits. -/
def word32? (n : Nat) : Option UInt32 :=
  if n < UInt32.size then some (UInt32.ofNat n) else none

theorem toNat_of_word32?_eq_some {n : Nat} {w : UInt32} (h : word32? n = some w) :
    w.toNat = n := by
  unfold word32? at h
  split at h
  · rename_i hlt
    cases h
    exact UInt32.toNat_ofNat_of_lt' hlt
  · cases h

/-- If `f` has no value beyond 32 bits it loses none in 32 bits. -/
theorem word32?_bind {α : Type} {f : Nat → Option α} (hf : ∀ n, UInt32.size ≤ n → f n = none)
    (n : Nat) : (word32? n).bind (fun w => f w.toNat) = f n := by
  unfold word32?
  by_cases h : n < UInt32.size
  · rw [if_pos h, Option.bind_some, UInt32.toNat_ofNat_of_lt' h]
  · rw [if_neg h, Option.bind_none, hf n (Nat.le_of_not_lt h)]

/-- What is beyond `Schedule.span` is beyond 32 bits. -/
theorem eq_none_of_size_le {α : Type} {f : Nat → Option α}
    (hf : ∀ {n a}, f n = some a → n < Schedule.span) (n : Nat) (h : UInt32.size ≤ n) :
    f n = none := by
  cases hsome : f n with
  | none => rfl
  | some a => exact absurd (Nat.lt_of_lt_of_le (hf hsome) (by decide)) (Nat.not_lt.mpr h)

namespace Frequency

/-- The date `n` periods after a start, in machine words. There is none if the months do not fit 32
bits; days are counted in 64. -/
def boundary32 (frequency : Frequency) (start : Date) (n : UInt32) : Option Date :=
  match frequency with
  | daily => start.addDays n.toUInt64.toNat
  | weekly => start.addDays (7 * n.toUInt64).toNat
  | monthly => start.addMonths n.toNat
  | quarterly => (word32? (3 * n.toNat)).bind fun months => start.addMonths months.toNat
  | annually => (word32? (12 * n.toNat)).bind fun months => start.addMonths months.toNat

/-- **No boundary is lost in machine words**: `boundary32` is `boundary`. -/
theorem boundary32_eq (f : Frequency) (start : Date) (n : UInt32) :
    f.boundary32 start n = f.boundary start n.toNat := by
  have hmonths := eq_none_of_size_le (f := start.addMonths) Schedule.lt_of_addMonths_eq_some
  cases f with
  | daily => exact congrArg start.addDays (UInt32.toNat_toUInt64 n)
  | weekly =>
    have hdays : (7 * n.toUInt64).toNat = 7 * n.toNat := by
      have hlt := n.toNat_lt
      rw [UInt64.toNat_mul, UInt32.toNat_toUInt64]
      exact Nat.mod_eq_of_lt (show 7 * n.toNat < 2 ^ 64 by omega)
    exact congrArg start.addDays hdays
  | monthly => rfl
  | quarterly => exact word32?_bind hmonths (3 * n.toNat)
  | annually => exact word32?_bind hmonths (12 * n.toNat)

end Frequency

namespace Schedule

variable {s : Schedule} {i : Nat}

/-- The period with an index, in machine words: `Schedule.period?` as it is computed. -/
def period64? (s : Schedule) (index : UInt64) : Option Period :=
  (word32? index.toNat).bind fun n =>
    (s.frequency.boundary32 s.start n).bind fun start =>
      if s.finish ≤ start then none
      else
        let next := (word32? (n.toNat + 1)).bind (s.frequency.boundary32 s.start)
        some ⟨index.toNat, start, next.elim s.finish fun d => if d ≤ s.finish then d else s.finish⟩

/-- Whether nothing comes after the period with an index, in machine words. -/
def isFinal64 (s : Schedule) (index : UInt64) : Bool :=
  if index.toNat + 1 < UInt64.size then (s.period64? (index + 1)).isNone else true

/-- **No period is lost in machine words**: `period64?` is `period?`. -/
theorem period64?_eq (s : Schedule) (index : UInt64) :
    s.period64? index = s.period? index.toNat := by
  have hnext : ∀ n : UInt32, (word32? (n.toNat + 1)).bind (s.frequency.boundary32 s.start) =
      s.frequency.boundary s.start (n.toNat + 1) := fun n => by
    rw [funext (s.frequency.boundary32_eq s.start)]
    exact word32?_bind (eq_none_of_size_le lt_of_boundary_eq_some) _
  have hlater : ∀ d : Date, s.finish ≤ d ↔ ¬d < s.finish := fun _ => Int.not_lt.symm
  refine Eq.trans ?_ (word32?_bind (eq_none_of_size_le lt_of_period?_eq_some) index.toNat)
  unfold period64?
  cases hword : word32? index.toNat with
  | none => rfl
  | some n =>
    have hn := toNat_of_word32?_eq_some hword
    simp only [Option.bind_some, hnext]
    simp only [period?, Frequency.boundary32_eq, hlater, hn]
    cases s.frequency.boundary s.start index.toNat with
    | none => rfl
    | some start =>
      by_cases hlt : start < s.finish
      · simp only [Option.bind_some, hlt, not_true_eq_false, ↓reduceIte]
        cases s.frequency.boundary s.start (index.toNat + 1) <;> rfl
      · simp only [Option.bind_some, hlt, not_false_eq_true, ↓reduceIte]

theorem isFinal64_eq (s : Schedule) (index : UInt64) :
    s.isFinal64 index = s.isFinal index.toNat := by
  unfold isFinal64 isFinal
  by_cases hlt : index.toNat + 1 < UInt64.size
  · have hnext : (index + 1).toNat = index.toNat + 1 :=
      (UInt64.toNat_add index 1).trans (Nat.mod_eq_of_lt hlt)
    rw [if_pos hlt, period64?_eq, hnext]
  · have hsize : UInt32.size ≤ index.toNat + 1 :=
      Nat.le_trans (by decide) (Nat.le_of_not_lt hlt)
    rw [if_neg hlt, eq_none_of_size_le lt_of_period?_eq_some _ hsize]
    rfl

/-! ### One period after the other -/

/-- The periods from an index on, until `period?` has none. -/
def periodsOnward (s : Schedule) (index : Nat) : List Period :=
  match _h : s.period? index with
  | some p => p :: s.periodsOnward (index + 1)
  | none => []
termination_by span - index
decreasing_by
  have := lt_of_period?_eq_some _h
  omega

/-- The number of periods from an index on, counted until `period?` has none. -/
def countOnward (s : Schedule) (index : Nat) : Nat :=
  match _h : s.period? index with
  | some _ => s.countOnward (index + 1) + 1
  | none => 0
termination_by span - index
decreasing_by
  have := lt_of_period?_eq_some _h
  omega

theorem periodsOnward_of_some {p : Period} (h : s.period? i = some p) :
    s.periodsOnward i = p :: s.periodsOnward (i + 1) := by
  rw [periodsOnward]
  split
  · rename_i hq
    cases h.symm.trans hq
    rfl
  · rename_i hnone
    cases h.symm.trans hnone

theorem periodsOnward_of_none (h : s.period? i = none) : s.periodsOnward i = [] := by
  rw [periodsOnward]
  split
  · rename_i hq
    cases h.symm.trans hq
  · rfl

/-- What `periodsOnward` enumerates is found by the indices from there on. -/
theorem getElem?_periodsOnward (s : Schedule) (index : Nat) :
    ∀ i, (s.periodsOnward index)[i]? = s.period? (index + i) := by
  induction index using periodsOnward.induct s with
  | case1 index p h ih =>
    intro i
    rw [periodsOnward_of_some h]
    cases i with
    | zero => exact h.symm
    | succ i =>
      rw [List.getElem?_cons_succ, ih, Nat.add_assoc, Nat.add_comm 1]
  | case2 index h =>
    intro i
    rw [periodsOnward_of_none h, period?_eq_none_of_le (Nat.le_add_right index i) h]
    rfl

/-- **The periods are those that are met one after the other**, until there is none: `s.periods`. -/
theorem periodsOnward_zero (s : Schedule) : s.periodsOnward 0 = s.periods :=
  List.ext_getElem? fun i => by
    rw [getElem?_periodsOnward, getElem?_periods, Nat.zero_add]

theorem countOnward_eq (s : Schedule) (index : Nat) :
    s.countOnward index = (s.periodsOnward index).length := by
  induction index using periodsOnward.induct s with
  | case1 index p h ih =>
    rw [periodsOnward_of_some h, List.length_cons, ← ih, countOnward]
    split
    · rfl
    · rename_i hnone
      cases h.symm.trans hnone
  | case2 index h =>
    rw [periodsOnward_of_none h, countOnward]
    split
    · rename_i hq
      cases h.symm.trans hq
    · rfl

/-- **The number of periods is found by counting them**, until there is none. -/
theorem countOnward_zero (s : Schedule) : s.countOnward 0 = s.periods.length := by
  rw [countOnward_eq, periodsOnward_zero]

/-- `period?` looks a period up in the list. -/
theorem period?_eq_dite (s : Schedule) (i : Nat) :
    s.period? i = if h : i < s.periodCount then some (s.periods.get ⟨i, h⟩) else none := by
  rw [← getElem?_periods]
  split
  · rename_i h
    exact List.getElem?_eq_getElem h
  · rename_i h
    exact List.getElem?_eq_none (Nat.le_of_not_lt h)

/-- Nothing comes after a period exactly if `i + 1` is no longer an index of one. -/
theorem isFinal_iff : s.isFinal i = true ↔ s.periodCount ≤ i + 1 := by
  unfold isFinal
  rw [Option.isNone_iff_eq_none, ← Option.not_isSome_iff_eq_none, isSome_period?_iff_lt, Nat.not_lt]

end Schedule

/-! ### Going on to the next period -/

namespace Rollout

variable {env : Environment} {r : Rollout Arrangement} {rebinds : List Rebind}

/-- After the last period `Resume.step` comes to `zero`, and no rebind is valued. -/
theorem step_of_final (h : r.isFinal = true) : Resume.step env ⟨r, rebinds⟩ = .ok .zero :=
  Resume.step_of_last (Option.isNone_iff_eq_none.mp h)

/-- Before the last period a rebind has no value, or the body starts again in the period that comes
next in the list. -/
theorem step_of_not_final (h : r.isFinal = false) :
    (∃ x ∈ rebinds, ∃ cause, x.value.value env = .error cause ∧
      Resume.step env ⟨r, rebinds⟩ = .error cause) ∨
    ∃ p vars, r.schedule.periods[r.period + 1]? = some p ∧
      rebindAll env r.vars rebinds = .ok vars ∧
      Resume.step env ⟨r, rebinds⟩ = .ok (r.body.bind (r.following vars) p) := by
  have hsome : ¬(r.schedule.period? (r.period + 1)).isNone = true := Bool.not_eq_true _ ▸ h
  obtain ⟨p, hp⟩ := Option.ne_none_iff_exists'.mp (mt Option.isNone_iff_eq_none.mpr hsome)
  cases hvars : rebindAll env r.vars rebinds with
  | error cause =>
    obtain ⟨x, hx, hvalue⟩ := rebindAll_eq_error hvars
    have hstep := Resume.step_eq_error.mpr ⟨by rw [hp]; rfl, hvars⟩
    exact .inl ⟨x, hx, cause, hvalue, hstep⟩
  | ok vars =>
    have hstep := Resume.step_eq_ok.mpr (.inr ⟨p, vars, hp, hvars, rfl⟩)
    exact .inr ⟨p, vars, (Schedule.getElem?_periods _ _).trans hp, rfl, hstep⟩

end Rollout

/-- **Looking up agrees with enumerating.** In machine words, `period64?`, as in numbers without
bound, `period?`, an index has the period that stands at its place in `s.periods`, if there are so
many, and none otherwise; no period comes after a missing one, and going on and counting until there
is none come to the list and to its length, `s.periodCount`. A rollout `r` is at its last period,
`isFinal`, exactly if the next index is not below that number. Then `Resume.step` comes to `zero`,
whatever the rebinds, which are not valued; otherwise a rebind has no value, or the body starts
again in just the next period of the list. -/
theorem periods_looked_up :
    (∀ (s : Schedule),
      (∀ i : UInt64, s.period64? i =
        if h : i.toNat < s.periodCount then some (s.periods.get ⟨i.toNat, h⟩) else none) ∧
      (∀ i, s.period? i = if h : i < s.periodCount then some (s.periods.get ⟨i, h⟩) else none) ∧
      (∀ i j, i ≤ j → s.period? i = none → s.period? j = none) ∧
      s.periodsOnward 0 = s.periods ∧ s.countOnward 0 = s.periodCount ∧
      s.periodCount = s.periods.length) ∧
    ∀ (r : Rollout Arrangement),
      (r.isFinal = true ↔ r.schedule.periodCount ≤ r.period + 1) ∧
      (∀ i : UInt64, i.toNat = r.period → r.schedule.isFinal64 i = r.isFinal) ∧
      ∀ rebinds env,
        (r.isFinal = true → Resume.step env ⟨r, rebinds⟩ = .ok .zero) ∧
        (r.isFinal = false →
          (∃ x ∈ rebinds, ∃ cause, x.value.value env = .error cause ∧
            Resume.step env ⟨r, rebinds⟩ = .error cause) ∨
          ∃ p vars, r.schedule.periods[r.period + 1]? = some p ∧
            rebindAll env r.vars rebinds = .ok vars ∧
            Resume.step env ⟨r, rebinds⟩ = .ok (r.body.bind (r.following vars) p)) := by
  refine ⟨fun s => ⟨fun i => ?_, s.period?_eq_dite, fun i j => Schedule.period?_eq_none_of_le,
    s.periodsOnward_zero, s.countOnward_zero, rfl⟩, fun r => ⟨Schedule.isFinal_iff, ?_, ?_⟩⟩
  · rw [s.period64?_eq, s.period?_eq_dite]
  · intro i hi
    rw [Schedule.isFinal64_eq, hi]
    rfl
  · intro rebinds env
    exact ⟨Rollout.step_of_final, Rollout.step_of_not_final⟩

/-- The second of `twoMonths` is the last, so that its rebinds do not matter, although a value for
`cap` is missing; in the first month it is wanted. -/
theorem twoMonths_looked_up :
    twoMonths.periodsOnward 0 = [⟨0, .literal 2015 1 1, .literal 2015 2 1⟩,
      ⟨1, .literal 2015 2 1, .literal 2015 3 1⟩] ∧
    twoMonths.period64? 1 = some ⟨1, .literal 2015 2 1, .literal 2015 3 1⟩ ∧
    twoMonths.period64? 2 = none ∧
    Resume.step ⟨.empty, .empty⟩ ⟨⟨twoMonths, payEachMonth, 0, twoMonths.initial⟩,
      [⟨"cap", .var "unknown"⟩]⟩ = .error (.unboundVariable "unknown") ∧
    Resume.step ⟨.empty, .empty⟩ ⟨⟨twoMonths, payEachMonth, 1, twoMonths.initial⟩,
      [⟨"cap", .var "unknown"⟩]⟩ = .ok .zero := by
  obtain ⟨hlookup, -, -, hlist, -⟩ := periods_looked_up.1 twoMonths
  have hfinal : (⟨twoMonths, payEachMonth, 1, twoMonths.initial⟩ : Rollout Arrangement).isFinal =
      true := rfl
  refine ⟨hlist.trans rfl, (hlookup 1).trans rfl, (hlookup 2).trans rfl, ?_, ?_⟩
  · rfl
  · exact ((periods_looked_up.2 _).2.2 _ _).1 hfinal

end Covenant
