/-
# The numbers that decimals denote

A decimal `d` denotes the number `d.toRat` that its mantissa and scale give. The
sum of two decimals is exact whenever some decimal denotes the sum of the
numbers, and it is an overflow exactly if that is `TooLarge` even when rounded
to a whole number. In between it is rounded, by a half at most: digits behind
the point are given up before a sum is.

Key definitions: `Decimal.toRat`, `Decimal.IsDecimal`, `Decimal.TooLarge`.
Key theorems: `Decimal.fit_exact`, `Decimal.fit_eq_none_iff`,
`Decimal.fit_nearest`, `Decimal.add_exact`, `Decimal.add_nearest`,
`Decimal.add_eq_none_iff`.
-/
import Covenant.Decimal.Arithmetic
import Mathlib.Algebra.Order.Field.Rat
import Mathlib.Data.Rat.Cast.Defs
import Mathlib.Tactic.Linarith
import Mathlib.Tactic.Positivity
import Mathlib.Tactic.Ring

namespace Covenant
namespace Decimal

/-! ### Rounding a quotient -/

theorem roundDiv_mul {d : Nat} (hd : 0 < d) (q : Nat) : roundDiv (q * d) d = q := by
  unfold roundDiv
  dsimp only
  rw [Nat.mul_div_cancel q hd, Nat.mul_mod_left, if_pos (by omega)]

theorem le_roundDiv (n d : Nat) : n / d ≤ roundDiv n d := by
  unfold roundDiv
  dsimp only
  split
  · omega
  split <;> omega

theorem roundDiv_le (n d : Nat) : roundDiv n d ≤ n / d + 1 := by
  unfold roundDiv
  dsimp only
  split
  · omega
  split <;> omega

/-- The quotient `roundDiv n d` is rounded by at most a half. -/
theorem roundDiv_nearest {d : Nat} (hd : 0 < d) (n : Nat) :
    2 * (roundDiv n d * d) ≤ 2 * n + d ∧ 2 * n ≤ 2 * (roundDiv n d * d) + d := by
  have hn : n / d * d + n % d = n := Nat.div_add_mod' n d
  have hr := Nat.mod_lt n hd
  have hmul : (n / d + 1) * d = n / d * d + d := Nat.succ_mul _ d
  unfold roundDiv
  dsimp only
  split
  · omega
  split
  · omega
  · rcases Nat.mod_two_eq_zero_or_one (n / d) with heven | hodd
    · rw [heven, Nat.add_zero]
      omega
    · rw [hodd]
      omega

/-- A quotient is rounded to less than an even number `L` exactly if it is nearer to the number
before, which is odd. -/
theorem roundDiv_lt_iff {n d L : Nat} (hd : 0 < d) (hL : L % 2 = 0) :
    roundDiv n d < L ↔ 2 * n + d < 2 * (L * d) := by
  have hn : n / d * d + n % d = n := Nat.div_add_mod' n d
  have hr := Nat.mod_lt n hd
  rcases Nat.lt_trichotomy (n / d + 1) L with hlt | heq | hgt
  · have hround := roundDiv_le n d
    have hmul : (n / d + 2) * d ≤ L * d := Nat.mul_le_mul_right d hlt
    rw [Nat.add_mul] at hmul
    exact iff_of_true (by omega) (by omega)
  · -- only here a half is decided, and it goes up
    have hodd : n / d % 2 = 1 := by omega
    have hmul : (n / d + 1) * d = n / d * d + d := Nat.succ_mul _ d
    rw [← heq, hmul]
    unfold roundDiv
    dsimp only
    split
    · exact iff_of_true (by omega) (by omega)
    split
    · exact iff_of_false (by omega) (by omega)
    · exact iff_of_false (by omega) (by omega)
  · have hround := le_roundDiv n d
    have hmul : L * d ≤ n / d * d := Nat.mul_le_mul_right d (by omega)
    exact iff_of_false (by omega) (by omega)

/-! ### Bringing a number into range -/

theorem tenTo_add (a b : Nat) : tenTo (a + b) = tenTo a * tenTo b := Nat.pow_add 10 a b

theorem tenTo_le_tenTo {a b : Nat} (h : a ≤ b) : tenTo a ≤ tenTo b :=
  Nat.pow_le_pow_right (by decide) h

theorem limit_even : limit % 2 = 0 := by decide

theorem le_leastDropped (m k : Nat) : k ≤ leastDropped m k := by
  induction k using leastDropped.induct m with
  | case1 k h =>
    rw [leastDropped, if_pos h]
  | case2 k h ih =>
    rw [leastDropped, if_neg h]
    omega

theorem div_leastDropped_lt (m k : Nat) : m / tenTo (leastDropped m k) < limit := by
  induction k using leastDropped.induct m with
  | case1 k h =>
    rw [leastDropped, if_pos h]
    exact h
  | case2 k h ih =>
    rw [leastDropped, if_neg h]
    exact ih

theorem leastDropped_le {m k j : Nat} (hk : k ≤ j) (hj : m / tenTo j < limit) :
    leastDropped m k ≤ j := by
  induction k using leastDropped.induct m with
  | case1 k h =>
    rw [leastDropped, if_pos h]
    exact hk
  | case2 k h ih =>
    have hne : k ≠ j := by
      rintro rfl
      exact h hj
    rw [leastDropped, if_neg h]
    exact ih (by omega)

/-- What `fit` brings into range is in range. -/
theorem fit_range {m s m' s' : Nat} (h : fit m s = some (m', s')) : m' < limit ∧ s' ≤ 28 := by
  have hdropped := le_leastDropped m (s - 28)
  have hdiv := div_leastDropped_lt m (s - 28)
  have hround := roundDiv_le m (tenTo (leastDropped m (s - 28)))
  unfold fit at h
  dsimp only at h
  split at h
  · cases h
  split at h
  · rename_i hlt
    cases h
    exact ⟨hlt, by omega⟩
  split at h
  · cases h
    have htenth := roundDiv_le (roundDiv m (tenTo (leastDropped m (s - 28)))) 10
    unfold limit at *
    exact ⟨by omega, by omega⟩
  · cases h

/-- What `fit` brings into range is rounded by at most half a unit of the last place kept. -/
theorem fit_nearest {m s m' s' : Nat} (h : fit m s = some (m', s')) :
    2 * (m' * tenTo s) ≤ 2 * (m * tenTo s') + tenTo s ∧
      2 * (m * tenTo s') ≤ 2 * (m' * tenTo s) + tenTo s := by
  -- the unit of the last place kept, in units of the last place there was
  have hunit : ∃ u, tenTo s = u * tenTo s' ∧ 2 * (m' * u) ≤ 2 * m + u ∧
      2 * m ≤ 2 * (m' * u) + u := by
    have hdiv := div_leastDropped_lt m (s - 28)
    unfold fit at h
    dsimp only at h
    generalize leastDropped m (s - 28) = dropped at *
    have hround := roundDiv_le m (tenTo dropped)
    have hnearest := roundDiv_nearest (tenTo_pos dropped) m
    split at h
    · cases h
    rename_i hle
    split at h
    · cases h
      refine ⟨tenTo dropped, ?_, hnearest⟩
      rw [← tenTo_add, Nat.add_sub_cancel' (Nat.not_lt.mp hle)]
    rename_i hge
    split at h
    · rename_i hless
      cases h
      -- one digit more than fits is only ever produced by rounding up to the limit
      have hlimit : roundDiv m (tenTo dropped) = limit := by omega
      have htenth : roundDiv limit 10 * 10 = limit + 4 := by decide
      refine ⟨tenTo (dropped + 1), ?_, ?_⟩
      · rw [← tenTo_add]
        congr 1
        omega
      · rw [hlimit] at hnearest ⊢
        have hmul : roundDiv limit 10 * tenTo (dropped + 1) =
            limit * tenTo dropped + 4 * tenTo dropped := by
          rw [tenTo_succ, Nat.mul_comm (tenTo dropped), ← Nat.mul_assoc, htenth, Nat.add_mul]
        rw [hmul, tenTo_succ]
        omega
    · cases h
  obtain ⟨u, hu, hup, hdown⟩ := hunit
  have hup' := Nat.mul_le_mul_right (tenTo s') hup
  have hdown' := Nat.mul_le_mul_right (tenTo s') hdown
  simp only [Nat.add_mul, Nat.mul_assoc] at hup' hdown'
  rw [hu]
  exact ⟨hup', hdown'⟩

/-- A number that can be written in range is brought into range exactly by `fit`. -/
theorem fit_exact {m s m₀ s₀ : Nat} (hm : m₀ < limit) (hs : s₀ ≤ 28)
    (h : m * tenTo s₀ = m₀ * tenTo s) :
    ∃ m' s', fit m s = some (m', s') ∧ m' * tenTo s = m * tenTo s' := by
  -- as many digits as the other form has fewer places are zeros
  have hzeros : ∃ q, m = q * tenTo (s - s₀) ∧ q < limit := by
    rcases Nat.le_total s₀ s with hle | hle
    · refine ⟨m₀, ?_, hm⟩
      have hsplit : tenTo s = tenTo (s - s₀) * tenTo s₀ := by
        rw [← tenTo_add, Nat.sub_add_cancel hle]
      rw [hsplit, ← Nat.mul_assoc] at h
      exact Nat.eq_of_mul_eq_mul_right (tenTo_pos s₀) h
    · have hsplit : tenTo s₀ = tenTo (s₀ - s) * tenTo s := by
        rw [← tenTo_add, Nat.sub_add_cancel hle]
      rw [hsplit, ← Nat.mul_assoc] at h
      have hm₀ : m * tenTo (s₀ - s) = m₀ := Nat.eq_of_mul_eq_mul_right (tenTo_pos s) h
      have hle' : m ≤ m * tenTo (s₀ - s) := Nat.le_mul_of_pos_right m (tenTo_pos _)
      refine ⟨m, ?_, by omega⟩
      rw [Nat.sub_eq_zero_of_le hle]
      exact (Nat.mul_one m).symm
  obtain ⟨q, rfl, hq⟩ := hzeros
  have hdiv : q * tenTo (s - s₀) / tenTo (s - s₀) < limit := by
    rwa [Nat.mul_div_cancel q (tenTo_pos _)]
  have hdropped := leastDropped_le (show s - 28 ≤ s - s₀ by omega) hdiv
  have hlt := div_leastDropped_lt (q * tenTo (s - s₀)) (s - 28)
  have hsplit : tenTo (s - s₀) = tenTo (s - s₀ - leastDropped (q * tenTo (s - s₀)) (s - 28)) *
      tenTo (leastDropped (q * tenTo (s - s₀)) (s - 28)) := by
    rw [← tenTo_add, Nat.sub_add_cancel hdropped]
  unfold fit
  dsimp only
  generalize leastDropped (q * tenTo (s - s₀)) (s - 28) = dropped at *
  rw [hsplit, ← Nat.mul_assoc, Nat.mul_div_cancel _ (tenTo_pos _)] at hlt
  rw [if_neg (by omega), hsplit, ← Nat.mul_assoc, roundDiv_mul (tenTo_pos _), if_pos hlt]
  refine ⟨_, _, rfl, ?_⟩
  have hscale : tenTo s = tenTo dropped * tenTo (s - dropped) := by
    rw [← tenTo_add]
    congr 1
    omega
  rw [hscale, ← Nat.mul_assoc]

/-- A number has no place in range exactly if it is too large when rounded to a whole one. -/
theorem fit_eq_none_iff {m s : Nat} :
    fit m s = none ↔ 2 * (limit * tenTo s) ≤ 2 * m + tenTo s := by
  have hdropped := le_leastDropped m (s - 28)
  have hdiv := div_leastDropped_lt m (s - 28)
  have hleast : m / tenTo s < limit → leastDropped m (s - 28) ≤ s :=
    leastDropped_le (Nat.sub_le s 28)
  unfold fit
  dsimp only
  generalize leastDropped m (s - 28) = dropped at *
  have hround := @roundDiv_lt_iff m (tenTo dropped) limit (tenTo_pos _) limit_even
  by_cases hs : s < dropped
  · have hge : limit * tenTo s ≤ m := by
      by_contra hlt
      have := hleast ((Nat.div_lt_iff_lt_mul (tenTo_pos s)).mpr (by omega))
      omega
    rw [if_pos hs]
    exact iff_of_true rfl (by omega)
  rw [if_neg hs]
  have hle : tenTo dropped ≤ tenTo s := tenTo_le_tenTo (by omega)
  by_cases hlt : roundDiv m (tenTo dropped) < limit
  · have hm := hround.mp hlt
    rw [if_pos hlt]
    refine iff_of_false (by simp) ?_
    unfold limit at *
    omega
  rw [if_neg hlt]
  by_cases hless : dropped < s
  · have hten : tenTo dropped * 10 ≤ tenTo s := by
      rw [← tenTo_succ]
      exact tenTo_le_tenTo hless
    have hm : m < limit * tenTo dropped := (Nat.div_lt_iff_lt_mul (tenTo_pos _)).mp hdiv
    have hpos := tenTo_pos dropped
    rw [if_pos hless]
    refine iff_of_false (by simp) ?_
    unfold limit at *
    omega
  · have heq : dropped = s := by omega
    subst heq
    rw [if_neg hless]
    exact iff_of_true rfl (by omega)

/-! ### The numbers denoted -/

/-- The number that the decimal `d` denotes. -/
def toRat (d : Decimal) : ℚ := d.unscaled / tenTo d.scale

/-- Some decimal denotes the number `x`. -/
def IsDecimal (x : ℚ) : Prop := ∃ d : Decimal, d.toRat = x

/-- The number `x` does not fit even when it is rounded to a whole one. -/
def TooLarge (x : ℚ) : Prop := limit ≤ |x| + 1 / 2

theorem cast_tenTo_ne_zero (k : Nat) : (tenTo k : ℚ) ≠ 0 :=
  Nat.cast_ne_zero.mpr (tenTo_pos k).ne'

theorem cast_tenTo_pos (k : Nat) : (0 : ℚ) < tenTo k := Nat.cast_pos.mpr (tenTo_pos k)

theorem natAbs_unscaled (d : Decimal) : d.unscaled.natAbs = d.mantissa := by
  unfold unscaled
  split <;> omega

@[simp] theorem toRat_neg (d : Decimal) : d.neg.toRat = -d.toRat := by
  have hunscaled : d.neg.unscaled = -d.unscaled := by
    unfold unscaled neg
    cases d.negative <;> simp
  rw [toRat, toRat, hunscaled, Int.cast_neg, neg_div]
  rfl

theorem toRat_of_isZero {d : Decimal} (h : d.isZero = true) : d.toRat = 0 := by
  have hmantissa : d.mantissa = 0 := beq_iff_eq.mp h
  simp [toRat, unscaled, hmantissa]

@[simp] theorem toRat_zero : zero.toRat = 0 := toRat_of_isZero rfl

/-- A whole number `k` of units of a place is a decimal if there are fewer than `limit`. -/
theorem isDecimal_of_mul_tenTo {x : ℚ} {k : Int} {s : Nat} (hk : x * tenTo s = k)
    (hlt : |x| * tenTo s < limit) (hs : s ≤ 28) : IsDecimal x := by
  have hmantissa : k.natAbs < limit := by
    rw [← abs_of_pos (cast_tenTo_pos s), ← abs_mul, hk, ← Int.cast_abs, Int.abs_eq_natAbs] at hlt
    exact_mod_cast hlt
  have hunscaled : unscaled ⟨decide (k < 0), k.natAbs, s, hmantissa, hs⟩ = k := by
    unfold unscaled
    by_cases hneg : k < 0
    · simp only [hneg, decide_true, ↓reduceIte]
      omega
    · simp only [hneg, decide_false, Bool.false_eq_true, ↓reduceIte]
      omega
  refine ⟨⟨decide (k < 0), k.natAbs, s, hmantissa, hs⟩, ?_⟩
  rw [toRat, hunscaled, ← hk, mul_div_cancel_right₀ _ (cast_tenTo_ne_zero s)]

/-- A decimal is a whole number of units of every place from its last on. -/
theorem toRat_mul_tenTo {d : Decimal} {s : Nat} (h : d.scale ≤ s) :
    d.toRat * tenTo s = (d.unscaled * tenTo (s - d.scale) : Int) := by
  have hsplit : tenTo s = tenTo (s - d.scale) * tenTo d.scale := by
    rw [← tenTo_add, Nat.sub_add_cancel h]
  rw [toRat, hsplit, Nat.cast_mul, div_mul_eq_mul_div, mul_div_assoc,
    mul_div_cancel_right₀ _ (cast_tenTo_ne_zero _)]
  push_cast
  rfl

theorem abs_toRat (d : Decimal) : |d.toRat| = d.mantissa / tenTo d.scale := by
  rw [toRat, abs_div, ← Int.cast_abs, Int.abs_eq_natAbs, natAbs_unscaled,
    abs_of_pos (cast_tenTo_pos _)]
  rfl

/-- A decimal is below the limit, and so not too large. -/
theorem not_tooLarge_toRat (d : Decimal) : ¬TooLarge d.toRat := by
  have habs : |d.toRat| ≤ d.mantissa := by
    have hone : (1 : ℚ) ≤ tenTo d.scale := Nat.one_le_cast.mpr (tenTo_pos d.scale)
    rw [abs_toRat]
    exact div_le_self (Nat.cast_nonneg _) hone
  have hlt : (d.mantissa : ℚ) + 1 ≤ limit := by exact_mod_cast d.mantissa_lt
  unfold TooLarge
  linarith

/-! ### Sums -/

section

variable (a b : Decimal)

/-- The sum of `a` and `b` in units of the last place of either. -/
def exactSum : Int :=
  a.unscaled * tenTo (Max.max a.scale b.scale - a.scale) +
    b.unscaled * tenTo (Max.max a.scale b.scale - b.scale)

/-- The sign with which the sum of `a` and `b` is written. -/
def sumSign : ℚ := if exactSum a b < 0 then -1 else 1

theorem abs_sumSign : |sumSign a b| = 1 := by
  unfold sumSign
  split <;> simp

theorem sumSign_mul_natAbs : sumSign a b * (exactSum a b).natAbs = exactSum a b := by
  unfold sumSign
  split
  · rename_i hneg
    rw [Nat.cast_natAbs, abs_of_neg hneg, Int.cast_neg, neg_one_mul, neg_neg]
  · rename_i hnonneg
    rw [Nat.cast_natAbs, abs_of_nonneg (not_lt.mp hnonneg), one_mul]

/-- The sum of the numbers as sign, mantissa and scale before they are brought into range. -/
theorem toRat_add_toRat :
    a.toRat + b.toRat =
      sumSign a b * ((exactSum a b).natAbs / tenTo (Max.max a.scale b.scale)) := by
  rw [← mul_div_assoc, sumSign_mul_natAbs, eq_div_iff (cast_tenTo_ne_zero _), add_mul,
    toRat_mul_tenTo (Nat.le_max_left a.scale b.scale),
    toRat_mul_tenTo (Nat.le_max_right a.scale b.scale), exactSum, Int.cast_add]

theorem abs_toRat_add_toRat :
    |a.toRat + b.toRat| = (exactSum a b).natAbs / tenTo (Max.max a.scale b.scale) := by
  rw [toRat_add_toRat, abs_mul, abs_sumSign, one_mul, abs_div, Nat.abs_cast,
    abs_of_pos (cast_tenTo_pos _)]

theorem addNonzero_eq : addNonzero a b =
    match fit (exactSum a b).natAbs (Max.max a.scale b.scale) with
    | some (m, s) => of? (decide (exactSum a b < 0)) m s
    | none => none := rfl

end

variable {a b : Decimal}

/-- A sum has the mantissa and the scale that its size is brought into range with. -/
theorem addNonzero_of_fit {m s : Nat}
    (h : fit (exactSum a b).natAbs (Max.max a.scale b.scale) = some (m, s)) :
    ∃ c, addNonzero a b = some c ∧ c.scale = s ∧ c.toRat = sumSign a b * (m / tenTo s) := by
  have hrange := fit_range h
  have hc : addNonzero a b = some ⟨decide (exactSum a b < 0), m, s, hrange.1, hrange.2⟩ := by
    rw [addNonzero_eq, h]
    exact dif_pos hrange
  refine ⟨_, hc, rfl, ?_⟩
  unfold toRat unscaled sumSign
  by_cases hneg : exactSum a b < 0
  · simp [hneg, neg_div]
  · simp [hneg]

theorem addNonzero_eq_none_iff :
    addNonzero a b = none ↔ TooLarge (a.toRat + b.toRat) := by
  have hpos := cast_tenTo_pos (Max.max a.scale b.scale)
  have hlarge : TooLarge (a.toRat + b.toRat) ↔
      fit (exactSum a b).natAbs (Max.max a.scale b.scale) = none := by
    rw [fit_eq_none_iff, TooLarge, abs_toRat_add_toRat, div_add_div _ _ hpos.ne' two_ne_zero,
      le_div_iff₀ (by positivity), ← @Nat.cast_le ℚ]
    push_cast
    constructor <;> intro h <;> linarith
  rw [hlarge]
  cases hfit : fit (exactSum a b).natAbs (Max.max a.scale b.scale) with
  | none => simp [addNonzero_eq, hfit]
  | some r =>
    obtain ⟨c, hc, -⟩ := addNonzero_of_fit hfit
    simp [hc]

theorem addNonzero_exact (h : IsDecimal (a.toRat + b.toRat)) :
    (addNonzero a b).map toRat = some (a.toRat + b.toRat) := by
  obtain ⟨d, hd⟩ := h
  have hcross : (exactSum a b).natAbs * tenTo d.scale =
      d.mantissa * tenTo (Max.max a.scale b.scale) := by
    have habs := congrArg abs hd
    rw [abs_toRat_add_toRat, abs_toRat,
      div_eq_div_iff (cast_tenTo_ne_zero _) (cast_tenTo_ne_zero _)] at habs
    exact_mod_cast habs.symm
  obtain ⟨m, s, hfit, hm⟩ := fit_exact d.mantissa_lt d.scale_le hcross
  obtain ⟨c, hc, -, hvalue⟩ := addNonzero_of_fit hfit
  have hsame : (m / tenTo s : ℚ) =
      (exactSum a b).natAbs / tenTo (Max.max a.scale b.scale) := by
    rw [div_eq_div_iff (cast_tenTo_ne_zero _) (cast_tenTo_ne_zero _)]
    exact_mod_cast hm
  rw [hc, Option.map_some, hvalue, hsame, ← toRat_add_toRat]

/-- A sum is rounded by at most half a unit of its last place. -/
theorem addNonzero_nearest {c : Decimal} (h : addNonzero a b = some c) :
    |c.toRat - (a.toRat + b.toRat)| ≤ 1 / (2 * tenTo c.scale) := by
  cases hfit : fit (exactSum a b).natAbs (Max.max a.scale b.scale) with
  | none => simp [addNonzero_eq, hfit] at h
  | some r =>
    obtain ⟨m, s⟩ := r
    obtain ⟨c', hc', rfl, hvalue⟩ := addNonzero_of_fit hfit
    rw [h] at hc'
    cases hc'
    have hs := cast_tenTo_pos c.scale
    have hmax := cast_tenTo_pos (Max.max a.scale b.scale)
    obtain ⟨hup, hdown⟩ := fit_nearest hfit
    rw [← @Nat.cast_le ℚ] at hup hdown
    push_cast at hup hdown
    have hhalf : |(m * tenTo (Max.max a.scale b.scale) : ℚ) -
        tenTo c.scale * (exactSum a b).natAbs| ≤ tenTo (Max.max a.scale b.scale) / 2 :=
      abs_le.mpr ⟨by linarith, by linarith⟩
    rw [toRat_add_toRat, hvalue, ← mul_sub, abs_mul, abs_sumSign, one_mul,
      div_sub_div _ _ hs.ne' hmax.ne', abs_div, abs_of_pos (mul_pos hs hmax),
      div_le_div_iff₀ (mul_pos hs hmax) (by positivity)]
    calc _ ≤ (tenTo (Max.max a.scale b.scale) / 2 : ℚ) * (2 * tenTo c.scale) :=
          mul_le_mul_of_nonneg_right hhalf (by positivity)
      _ = 1 * (tenTo c.scale * tenTo (Max.max a.scale b.scale)) := by ring

/-- **A sum is exact** if some decimal denotes it: then `a.add b` does. -/
theorem add_exact (h : IsDecimal (a.toRat + b.toRat)) :
    (a.add b).map toRat = some (a.toRat + b.toRat) := by
  unfold add
  by_cases ha : a.isZero = true
  · rw [if_pos ha, Option.map_some, toRat_of_isZero ha, zero_add]
  by_cases hb : b.isZero = true
  · rw [if_neg ha, if_pos hb, Option.map_some, toRat_of_isZero hb, add_zero]
  rw [if_neg ha, if_neg hb]
  exact addNonzero_exact h

/-- **A sum is rounded** by at most a half. -/
theorem add_nearest {c : Decimal} (h : a.add b = some c) :
    |c.toRat - (a.toRat + b.toRat)| ≤ 1 / 2 := by
  unfold add at h
  by_cases ha : a.isZero = true
  · rw [if_pos ha] at h
    cases h
    rw [toRat_of_isZero ha, zero_add, sub_self, abs_zero]
    positivity
  by_cases hb : b.isZero = true
  · rw [if_neg ha, if_pos hb] at h
    cases h
    rw [toRat_of_isZero hb, add_zero, sub_self, abs_zero]
    positivity
  rw [if_neg ha, if_neg hb] at h
  have hone : (1 : ℚ) ≤ tenTo c.scale := Nat.one_le_cast.mpr (tenTo_pos c.scale)
  exact (addNonzero_nearest h).trans (one_div_le_one_div_of_le two_pos (by linarith))

/-- **A sum is an overflow**, `a.add b = none`, exactly if it is too large. -/
theorem add_eq_none_iff : a.add b = none ↔ TooLarge (a.toRat + b.toRat) := by
  unfold add
  by_cases ha : a.isZero = true
  · rw [if_pos ha, toRat_of_isZero ha, zero_add]
    exact iff_of_false (by simp) b.not_tooLarge_toRat
  by_cases hb : b.isZero = true
  · rw [if_neg ha, if_pos hb, toRat_of_isZero hb, add_zero]
    exact iff_of_false (by simp) a.not_tooLarge_toRat
  rw [if_neg ha, if_neg hb]
  exact addNonzero_eq_none_iff

/-- The difference `a.sub b` denotes what the sum with the opposite does. -/
theorem map_toRat_sub (a b : Decimal) : (a.sub b).map toRat = (a.add b.neg).map toRat := by
  have hzero : b.neg.isZero = b.isZero := rfl
  unfold sub add
  rw [hzero]
  by_cases ha : a.isZero = true
  · rw [if_pos ha, if_pos ha]
    split
    · rename_i hb
      simp [toRat_of_isZero hb]
    · rfl
  · rw [if_neg ha, if_neg ha]

theorem exists_add_of_sub {c : Decimal} (h : a.sub b = some c) :
    ∃ d, a.add b.neg = some d ∧ d.toRat = c.toRat := by
  have hmap := map_toRat_sub a b
  rw [h, Option.map_some] at hmap
  exact Option.map_eq_some_iff.mp hmap.symm

theorem sub_exact (h : IsDecimal (a.toRat - b.toRat)) :
    (a.sub b).map toRat = some (a.toRat - b.toRat) := by
  have hsum : a.toRat + b.neg.toRat = a.toRat - b.toRat := by rw [toRat_neg, sub_eq_add_neg]
  rw [map_toRat_sub, ← hsum]
  exact add_exact (hsum ▸ h)

theorem sub_nearest {c : Decimal} (h : a.sub b = some c) :
    |c.toRat - (a.toRat - b.toRat)| ≤ 1 / 2 := by
  have hsum : a.toRat + b.neg.toRat = a.toRat - b.toRat := by rw [toRat_neg, sub_eq_add_neg]
  obtain ⟨d, hd, hvalue⟩ := exists_add_of_sub h
  rw [← hvalue, ← hsum]
  exact add_nearest hd

theorem sub_eq_none_iff : a.sub b = none ↔ TooLarge (a.toRat - b.toRat) := by
  have hsum : a.toRat + b.neg.toRat = a.toRat - b.toRat := by rw [toRat_neg, sub_eq_add_neg]
  rw [← hsum, ← add_eq_none_iff, ← Option.map_eq_none_iff (f := toRat), map_toRat_sub,
    Option.map_eq_none_iff]

end Decimal
end Covenant
