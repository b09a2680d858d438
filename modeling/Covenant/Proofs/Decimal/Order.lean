/-
# Order and rounding

Decimals are compared as the numbers they denote are. A difference that is not
negative is rounded to a number that is not negative, and it is never rounded by
more than the `10 ^ 28`th part of itself: digits are given up only when the rest
still has 28 of them.

Key theorems: `Decimal.compare_eq_lt_iff`, `Decimal.toRat_max`,
`Decimal.toRat_min`, `Decimal.toRat_nonneg_of_sub`, `Decimal.sub_relative`.
-/
import Covenant.Proofs.Decimal.Rational

namespace Covenant
namespace Decimal

/-! ### Order -/

variable {a b c : Decimal}

theorem compare_eq_lt_iff : a.compare b = .lt ↔ a.toRat < b.toRat := by
  rw [compare, compare_lt_iff_lt, toRat, toRat,
    div_lt_div_iff₀ (cast_tenTo_pos _) (cast_tenTo_pos _)]
  exact_mod_cast Iff.rfl

theorem compare_eq_gt_iff : a.compare b = .gt ↔ b.toRat < a.toRat := by
  rw [compare, compare_gt_iff_gt, toRat, toRat,
    div_lt_div_iff₀ (cast_tenTo_pos _) (cast_tenTo_pos _)]
  exact_mod_cast Iff.rfl

theorem toRat_max (a b : Decimal) : (a.max b).toRat = Max.max a.toRat b.toRat := by
  unfold max
  split
  · rename_i h
    exact (max_eq_right (compare_eq_lt_iff.mp h).le).symm
  · rename_i h
    exact (max_eq_left (not_lt.mp (mt compare_eq_lt_iff.mpr h))).symm

theorem toRat_min (a b : Decimal) : (a.min b).toRat = Min.min a.toRat b.toRat := by
  unfold min
  split
  · rename_i h
    exact (min_eq_right (compare_eq_gt_iff.mp h).le).symm
  · rename_i h
    exact (min_eq_left (not_lt.mp (mt compare_eq_gt_iff.mpr h))).symm

/-! ### Literals -/

theorem toRat_literal {m s : Nat} (h : (of? false m s).isSome = true) :
    (literal m s h).toRat = m / tenTo s := by
  have hrange : m < limit ∧ s ≤ 28 := by
    by_contra hout
    rw [of?, dif_neg hout] at h
    cases h
  simp [literal, of?, hrange, toRat, unscaled]

@[simp] theorem toRat_ofInt {i : Int} (h : i.natAbs < limit) : (ofInt i h).toRat = i := by
  have hunscaled : (ofInt i h).unscaled = i := by
    unfold ofInt unscaled
    dsimp only
    by_cases hneg : i < 0
    · rw [decide_eq_true hneg, if_pos rfl]
      omega
    · rw [decide_eq_false hneg, if_neg Bool.false_ne_true]
      omega
  rw [toRat, hunscaled]
  exact div_one _

@[simp] theorem toRat_ofNat {n : Nat} (h : n < limit) : (ofNat n h).toRat = n := by
  rw [toRat]
  exact div_one _

@[simp] theorem toRat_one : one.toRat = 1 := by
  rw [one, toRat_ofNat, Nat.cast_one]

theorem isDecimal_intCast {i : Int} (h : i.natAbs < limit) : IsDecimal i :=
  ⟨ofInt i h, toRat_ofInt h⟩

/-! ### Rounding -/

/-- Either nothing is given up, or what `fit` keeps has so many digits that a unit of the last is no
more than twice the `10 ^ 28`th part of the number. -/
theorem fit_tight {m s m' s' : Nat} (hs : s ≤ 28) (h : fit m s = some (m', s')) :
    (m' = m ∧ s' = s) ∨ tenTo s * tenTo 28 ≤ 2 * (m * tenTo s') := by
  -- the unit of the last place kept, in units of the last place there was
  have hunit : ∀ k, k ≤ s → tenTo k * tenTo 28 ≤ 2 * m →
      tenTo s * tenTo 28 ≤ 2 * (m * tenTo (s - k)) := fun k hk hm => by
    calc tenTo s * tenTo 28 = tenTo k * tenTo 28 * tenTo (s - k) := by
          rw [Nat.mul_right_comm (tenTo k), ← tenTo_add k, Nat.add_sub_cancel' hk]
      _ ≤ 2 * m * tenTo (s - k) := Nat.mul_le_mul_right _ hm
      _ = 2 * (m * tenTo (s - k)) := Nat.mul_assoc _ _ _
  have hleast : ∀ j, m / tenTo j < limit → leastDropped m (s - 28) ≤ j := fun j hj =>
    leastDropped_le (by omega) hj
  have hten : tenTo 28 = 10000000000000000000000000000 := rfl
  unfold fit at h
  dsimp only at h
  generalize leastDropped m (s - 28) = dropped at *
  have hround := roundDiv_le m (tenTo dropped)
  split at h
  · cases h
  rename_i hle
  split at h
  · cases h
    cases dropped with
    | zero =>
      have hexact := roundDiv_mul Nat.one_pos m
      rw [Nat.mul_one] at hexact
      exact .inl ⟨hexact, rfl⟩
    | succ k =>
      -- with one digit less given up the number would not have fitted
      have hmany : limit ≤ m / tenTo k := by
        by_contra hfits
        have := hleast k (by omega)
        omega
      have hm := (Nat.le_div_iff_mul_le (tenTo_pos k)).mp hmany
      refine .inr (hunit (k + 1) (by omega) ?_)
      rw [tenTo_succ, hten]
      unfold limit at hm
      omega
  rename_i hge
  split at h
  · rename_i hless
    cases h
    unfold limit at hge
    have hm := (Nat.le_div_iff_mul_le (tenTo_pos dropped)).mp
      (show 79228162514264337593543950335 ≤ m / tenTo dropped by omega)
    refine .inr (hunit (dropped + 1) hless ?_)
    rw [tenTo_succ, hten]
    omega
  · cases h

theorem toRat_add_toRat_eq (a b : Decimal) :
    a.toRat + b.toRat = exactSum a b / tenTo (Max.max a.scale b.scale) := by
  rw [toRat_add_toRat, ← mul_div_assoc, sumSign_mul_natAbs]

/-- A sum that is not negative is not rounded to a negative number. -/
theorem toRat_nonneg_of_add (h : a.add b = some c) (hsum : 0 ≤ a.toRat + b.toRat) :
    0 ≤ c.toRat := by
  unfold add at h
  by_cases ha : a.isZero = true
  · rw [if_pos ha] at h
    cases h
    rwa [toRat_of_isZero ha, zero_add] at hsum
  by_cases hb : b.isZero = true
  · rw [if_neg ha, if_pos hb] at h
    cases h
    rwa [toRat_of_isZero hb, add_zero] at hsum
  rw [if_neg ha, if_neg hb] at h
  cases hfit : fit (exactSum a b).natAbs (Max.max a.scale b.scale) with
  | none => simp [addNonzero_eq, hfit] at h
  | some r =>
    obtain ⟨d, hd, -, hvalue⟩ := addNonzero_of_fit hfit
    cases h.symm.trans hd
    have hsign : ¬exactSum a b < 0 := by
      rw [toRat_add_toRat_eq, le_div_iff₀ (cast_tenTo_pos _), zero_mul] at hsum
      exact not_lt.mpr (by exact_mod_cast hsum)
    rw [hvalue, sumSign, if_neg hsign]
    positivity

/-- **A sum is rounded** by at most the `10 ^ 28`th part of itself. -/
theorem add_relative (h : a.add b = some c) :
    |c.toRat - (a.toRat + b.toRat)| ≤ |a.toRat + b.toRat| / 10 ^ 28 := by
  have hexact : ∀ {x y : ℚ}, x = y → |x - y| ≤ |y| / 10 ^ 28 := fun {x y} heq => by
    rw [heq, sub_self, abs_zero]
    positivity
  unfold add at h
  by_cases ha : a.isZero = true
  · rw [if_pos ha] at h
    cases h
    exact hexact (by rw [toRat_of_isZero ha, zero_add])
  by_cases hb : b.isZero = true
  · rw [if_neg ha, if_pos hb] at h
    cases h
    exact hexact (by rw [toRat_of_isZero hb, add_zero])
  rw [if_neg ha, if_neg hb] at h
  cases hfit : fit (exactSum a b).natAbs (Max.max a.scale b.scale) with
  | none => simp [addNonzero_eq, hfit] at h
  | some r =>
    obtain ⟨m, s⟩ := r
    obtain ⟨d, hd, rfl, hvalue⟩ := addNonzero_of_fit hfit
    cases h.symm.trans hd
    rcases fit_tight (Nat.max_le.mpr ⟨a.scale_le, b.scale_le⟩) hfit with ⟨hm, hs⟩ | htight
    · refine hexact ?_
      rw [hvalue, toRat_add_toRat, hm, hs]
    · have hs := cast_tenTo_pos c.scale
      have hmax := cast_tenTo_pos (Max.max a.scale b.scale)
      have htight : (tenTo (Max.max a.scale b.scale) * tenTo 28 : ℚ) ≤
          2 * ((exactSum a b).natAbs * tenTo c.scale) := by exact_mod_cast htight
      have hten : (tenTo 28 : ℚ) = 10 ^ 28 := by norm_num [tenTo]
      refine (addNonzero_nearest h).trans ?_
      rw [abs_toRat_add_toRat, div_div, div_le_div_iff₀ (by positivity) (by positivity), ← hten]
      linarith

/-- A difference that is not negative is not rounded to a negative number. -/
theorem toRat_nonneg_of_sub (h : a.sub b = some c) (hle : b.toRat ≤ a.toRat) : 0 ≤ c.toRat := by
  obtain ⟨d, hd, hvalue⟩ := exists_add_of_sub h
  rw [← hvalue]
  refine toRat_nonneg_of_add hd ?_
  rw [toRat_neg]
  linarith

/-- **A difference is rounded** by at most the `10 ^ 28`th part of itself. -/
theorem sub_relative (h : a.sub b = some c) :
    |c.toRat - (a.toRat - b.toRat)| ≤ |a.toRat - b.toRat| / 10 ^ 28 := by
  obtain ⟨d, hd, hvalue⟩ := exists_add_of_sub h
  have hadd := add_relative hd
  rwa [toRat_neg, ← sub_eq_add_neg, hvalue] at hadd

end Decimal
end Covenant
