/-
# Rounding to what can be written

The number `round? x` that stands for another one, `x`, if that cannot be
written: with as many places as there is room for, 28 at most, the nearest, and
of two as near the even one. It is a number for a number: in which form
something is written does not matter. Sums, differences and products are rounded
in this way, all of them.

Key definitions: `Decimal.Fits`, `Decimal.nearest?`, `Decimal.round?`.
Key theorems: `Decimal.map_fit`, `Decimal.round?_toRat`, `Decimal.map_toRat_add`,
`Decimal.map_toRat_sub_eq`, `Decimal.map_toRat_mul`, `Decimal.mul_exact`.
-/
import Covenant.Proofs.Decimal.Order

namespace Covenant
namespace Decimal

/-! ### Quotients in other terms -/

theorem roundDiv_mul_right {k : Nat} (hk : 0 < k) (n d : Nat) :
    roundDiv (n * k) (d * k) = roundDiv n d := by
  unfold roundDiv
  dsimp only
  rw [Nat.mul_div_mul_right n d hk, Nat.mul_mod_mul_right, ← Nat.mul_assoc]
  simp only [Nat.mul_lt_mul_right hk]

/-- Equal quotients are rounded alike. -/
theorem roundDiv_congr {n d n' d' : Nat} (hd : 0 < d) (hd' : 0 < d') (h : n * d' = n' * d) :
    roundDiv n d = roundDiv n' d' := by
  rw [← roundDiv_mul_right hd' n d, h, Nat.mul_comm d d', roundDiv_mul_right hd]

/-! ### The nearest number in range -/

/-- The quotient `n / d` is in range when it is rounded to `s` places. -/
def Fits (n d s : Nat) : Prop := roundDiv (n * tenTo s) d < limit

instance (n d s : Nat) : Decidable (Fits n d s) := Nat.decLt _ _

/-- The quotient `n / d`, rounded to `s` places. -/
def placed (n d s : Nat) : ℚ := roundDiv (n * tenTo s) d / tenTo s

/-- The quotient `n / d`, rounded to as many places as fit, and to no more than so many. -/
def nearest? (n d : Nat) : Nat → Option ℚ
  | 0 => if Fits n d 0 then some (placed n d 0) else none
  | s + 1 => if Fits n d (s + 1) then some (placed n d (s + 1)) else nearest? n d s

section

variable {n d n' d' : Nat}

theorem roundDiv_mul_tenTo_congr (hd : 0 < d) (hd' : 0 < d') (h : n * d' = n' * d) (s : Nat) :
    roundDiv (n * tenTo s) d = roundDiv (n' * tenTo s) d' := by
  refine roundDiv_congr hd hd' ?_
  rw [Nat.mul_right_comm, h, Nat.mul_right_comm]

/-- Only the quotient matters: equal ones have the same `nearest?`. -/
theorem nearest?_congr (hd : 0 < d) (hd' : 0 < d') (h : n * d' = n' * d) :
    ∀ k, nearest? n d k = nearest? n' d' k
  | 0 => by
    simp only [nearest?, Fits, placed, roundDiv_mul_tenTo_congr hd hd' h]
  | k + 1 => by
    simp only [nearest?, Fits, placed, roundDiv_mul_tenTo_congr hd hd' h,
      nearest?_congr hd hd' h k]

theorem fits_of_succ (hd : 0 < d) {s : Nat} (h : Fits n d (s + 1)) : Fits n d s := by
  have hten : n * tenTo (s + 1) = n * tenTo s * 10 := (Nat.mul_assoc n _ 10).symm
  unfold Fits at *
  rw [hten, roundDiv_lt_iff hd limit_even] at h
  rw [roundDiv_lt_iff hd limit_even]
  omega

/-- What does not fit does not fit with more places. -/
theorem not_fits_of_le (hd : 0 < d) {s j : Nat} (hsj : s ≤ j) (h : ¬Fits n d s) :
    ¬Fits n d j := by
  induction hsj with
  | refl => exact h
  | step _ ih => exact fun hfits => ih (fits_of_succ hd hfits)

theorem not_fits_of_le_div {s : Nat} (h : limit ≤ n * tenTo s / d) : ¬Fits n d s :=
  Nat.not_lt.mpr (Nat.le_trans h (le_roundDiv _ _))

/-- The most places that fit are those that are taken. -/
theorem nearest?_of_last (hd : 0 < d) {s : Nat} (hfits : Fits n d s) : ∀ {k}, s ≤ k →
    s = k ∨ ¬Fits n d (s + 1) → nearest? n d k = some (placed n d s)
  | 0, hs, _ => by
    cases Nat.le_zero.mp hs
    rw [nearest?, if_pos hfits]
  | k + 1, hs, hlast => by
    rcases Nat.eq_or_lt_of_le hs with rfl | hlt
    · rw [nearest?, if_pos hfits]
    · have hnext : ¬Fits n d (s + 1) := hlast.resolve_left (Nat.ne_of_lt hlt)
      rw [nearest?, if_neg (not_fits_of_le hd hlt hnext)]
      exact nearest?_of_last hd hfits (Nat.le_of_lt_succ hlt) (.inr hnext)

/-- What is too large as a whole number has no place in range. -/
theorem nearest?_eq_none (hd : 0 < d) (h : ¬Fits n d 0) : ∀ k, nearest? n d k = none
  | 0 => by rw [nearest?, if_neg h]
  | k + 1 => by
    rw [nearest?, if_neg (not_fits_of_le hd (Nat.zero_le _) h), nearest?_eq_none hd h k]

/-- A number that can be written is its own `nearest?` one. -/
theorem nearest?_exact (hd : 0 < d) {m s : Nat} (hm : m < limit) (h : n * tenTo s = m * d) :
    ∀ {k}, s ≤ k → nearest? n d k = some (m / tenTo s : ℚ)
  | 0, hs => by
    cases Nat.le_zero.mp hs
    have hround : roundDiv (n * tenTo 0) d = m := by rw [h, roundDiv_mul hd]
    rw [nearest?, if_pos (by rwa [Fits, hround]), placed, hround]
  | k + 1, hs => by
    have hsplit : tenTo (k + 1) = tenTo s * tenTo (k + 1 - s) := by
      rw [← tenTo_add, Nat.add_sub_cancel' hs]
    have hround : roundDiv (n * tenTo (k + 1)) d = m * tenTo (k + 1 - s) := by
      rw [hsplit, ← Nat.mul_assoc, h, Nat.mul_right_comm, roundDiv_mul hd]
    rw [nearest?]
    split
    · rw [placed, hround, hsplit, Nat.cast_mul, Nat.cast_mul,
        mul_div_mul_right _ _ (cast_tenTo_ne_zero _)]
    · rename_i hnot
      rcases Nat.eq_or_lt_of_le hs with rfl | hlt
      · refine absurd ?_ hnot
        rw [Fits, hround, Nat.sub_self]
        exact (Nat.mul_one m).symm ▸ hm
      · exact nearest?_exact hd hm h (Nat.le_of_lt_succ hlt)

end

/-! ### Bringing a number into range -/

/-- Digits that are rounded up to `limit` are rounded to its tenth if one more is given up. -/
theorem roundDiv_tenTo_succ {m k : Nat} (hround : roundDiv m (tenTo k) = limit)
    (hdigits : m / tenTo k + 1 = limit) : roundDiv m (tenTo (k + 1)) = roundDiv limit 10 := by
  have hpos := tenTo_pos k
  have hhalf : tenTo k ≤ 2 * (m % tenTo k) := by
    have hnearest := (roundDiv_nearest hpos m).1
    have hm := Nat.div_add_mod' m (tenTo k)
    have hmul : (m / tenTo k + 1) * tenTo k = m / tenTo k * tenTo k + tenTo k := Nat.succ_mul _ _
    rw [hround, ← hdigits, hmul] at hnearest
    omega
  have hdiv : m / tenTo (k + 1) = m / tenTo k / 10 := by
    rw [tenTo_succ, Nat.div_div_eq_div_mul]
  have hmod : m % tenTo (k + 1) = m % tenTo k + tenTo k * 5 := by
    have hfive : m / tenTo k % 10 = 5 := by
      unfold limit at hdigits
      omega
    rw [tenTo_succ, Nat.mod_mul, hfive]
  have hlimit : roundDiv limit 10 = 7922816251426433759354395034 := by decide
  rw [hlimit]
  unfold roundDiv
  dsimp only
  rw [hdiv, hmod, tenTo_succ, if_neg (by omega), if_pos (by omega)]
  unfold limit at hdigits
  omega

/-- At a place that is kept, as many digits are given up as there are places less. -/
theorem roundDiv_place {m s j k : Nat} (h : j + k = s) :
    roundDiv (m * tenTo j) (tenTo s) = roundDiv m (tenTo k) :=
  roundDiv_congr (tenTo_pos s) (tenTo_pos k) (by rw [Nat.mul_assoc, ← tenTo_add, h])

theorem fits_iff {m s j k : Nat} (h : j + k = s) :
    Fits m (tenTo s) j ↔ roundDiv m (tenTo k) < limit := by
  rw [Fits, roundDiv_place h]

/-- No digit is given up without need: with one more, the number would have too many. -/
theorem not_fits_of_leastDropped {m s k : Nat} (hk : leastDropped m (s - 28) = k + 1)
    (hless : s - 28 < k + 1) (hs : k + 1 ≤ s) : ¬Fits m (tenTo s) (s - (k + 1) + 1) := by
  have hmany : limit ≤ m / tenTo k := by
    by_contra hfew
    have := leastDropped_le (Nat.le_of_lt_succ hless) (Nat.not_le.mp hfew)
    omega
  rw [fits_iff (by omega : s - (k + 1) + 1 + k = s)]
  exact Nat.not_lt.mpr (Nat.le_trans hmany (le_roundDiv _ _))

/-- Digits in range are rounded out of it only to `limit`. -/
theorem roundDiv_eq_limit {m d : Nat} (hdiv : m / d < limit) (h : ¬roundDiv m d < limit) :
    roundDiv m d = limit ∧ m / d + 1 = limit := by
  have hle := roundDiv_le m d
  omega

/-- Digits that are in range when they are rounded are the nearest number. -/
theorem nearest?_eq_rounded {m s : Nat} (hs : leastDropped m (s - 28) ≤ s)
    (hlt : roundDiv m (tenTo (leastDropped m (s - 28))) < limit) :
    nearest? m (tenTo s) 28 = some (roundDiv m (tenTo (leastDropped m (s - 28))) /
      tenTo (s - leastDropped m (s - 28)) : ℚ) := by
  have hdropped := le_leastDropped m (s - 28)
  generalize hk : leastDropped m (s - 28) = dropped at *
  have hplace : s - dropped + dropped = s := Nat.sub_add_cancel hs
  have hfits : Fits m (tenTo s) (s - dropped) := (fits_iff hplace).mpr hlt
  rw [← roundDiv_place hplace]
  rcases Nat.eq_or_lt_of_le hdropped with heq | hmore
  · rcases Nat.eq_zero_or_pos dropped with rfl | hpos
    · -- nothing is given up
      have hm : roundDiv (m * tenTo s) (tenTo s) = m := roundDiv_mul (tenTo_pos s) m
      have hsmall : m < limit := by rwa [← roundDiv_place hplace, Nat.sub_zero, hm] at hlt
      rw [Nat.sub_zero, hm, nearest?_exact (tenTo_pos s) hsmall rfl (by omega)]
    · exact nearest?_of_last (tenTo_pos s) hfits (by omega) (.inl (by omega))
  · obtain ⟨k, rfl⟩ : ∃ k, dropped = k + 1 := ⟨dropped - 1, by omega⟩
    have hlast := not_fits_of_leastDropped hk hmore hs
    exact nearest?_of_last (tenTo_pos s) hfits (by omega) (.inr hlast)

/-- Digits that are rounded up to the limit leave one more digit to be given up. -/
theorem nearest?_eq_tenth {m s k : Nat} (hk : k < s) (hplaces : s - 28 ≤ k)
    (hround : roundDiv m (tenTo k) = limit) (hdigits : m / tenTo k + 1 = limit) :
    nearest? m (tenTo s) 28 = some (roundDiv limit 10 / tenTo (s - k - 1) : ℚ) := by
  have hplace : s - k - 1 + (k + 1) = s := by omega
  have htenth := roundDiv_tenTo_succ hround hdigits
  have hfits : Fits m (tenTo s) (s - k - 1) := by
    rw [fits_iff hplace, htenth]
    decide
  have hlast : ¬Fits m (tenTo s) (s - k - 1 + 1) := by
    rw [fits_iff (by omega : s - k - 1 + 1 + k = s), hround]
    exact Nat.lt_irrefl limit
  rw [nearest?_of_last (tenTo_pos s) hfits (by omega) (.inr hlast), placed, roundDiv_place hplace,
    htenth]

/-- What `fit` brings into range is the nearest number in range. -/
theorem map_fit (m s : Nat) :
    (fit m s).map (fun r => (r.1 / tenTo r.2 : ℚ)) = nearest? m (tenTo s) 28 := by
  have hdropped := le_leastDropped m (s - 28)
  have hdiv := div_leastDropped_lt m (s - 28)
  unfold fit
  dsimp only
  by_cases hs : s < leastDropped m (s - 28)
  · -- not even the whole part fits
    have hge : limit ≤ m * tenTo 0 / tenTo s := by
      by_contra hfew
      have hfits : m / tenTo s < limit := by
        rw [← Nat.mul_one m]
        exact Nat.not_le.mp hfew
      exact absurd (leastDropped_le (Nat.sub_le s 28) hfits) (Nat.not_le.mpr hs)
    rw [if_pos hs, nearest?_eq_none (tenTo_pos s) (not_fits_of_le_div hge), Option.map_none]
  rw [if_neg hs]
  by_cases hlt : roundDiv m (tenTo (leastDropped m (s - 28))) < limit
  · rw [if_pos hlt, Option.map_some, nearest?_eq_rounded (Nat.not_lt.mp hs) hlt]
  obtain ⟨hround, hdigits⟩ := roundDiv_eq_limit hdiv hlt
  rw [if_neg hlt]
  by_cases hless : leastDropped m (s - 28) < s
  · rw [if_pos hless, Option.map_some, nearest?_eq_tenth hless hdropped hround hdigits, hround]
  · have hwhole : 0 + leastDropped m (s - 28) = s := by omega
    rw [if_neg hless, nearest?_eq_none (tenTo_pos s) (mt (fits_iff hwhole).mp hlt),
      Option.map_none]

/-! ### Rounding a number -/

/-- The number that stands for `x`: the nearest in range, with its sign. -/
def round? (x : ℚ) : Option ℚ :=
  (nearest? x.num.natAbs x.den 28).map fun y => if x < 0 then -y else y

theorem round?_eq {x : ℚ} {n d : Nat} (hd : 0 < d) (hx : |x| = n / d) :
    round? x = (nearest? n d 28).map fun y => if x < 0 then -y else y := by
  have hden : (0 : ℚ) < x.den := Nat.cast_pos.mpr x.den_pos
  have hnum : |x| = x.num.natAbs / x.den := by
    conv_lhs => rw [← Rat.num_div_den x]
    rw [abs_div, abs_of_pos hden, ← Int.cast_abs, Int.abs_eq_natAbs]
    rfl
  have hcross : x.num.natAbs * d = n * x.den := by
    rw [hnum, div_eq_div_iff hden.ne' (Nat.cast_pos.mpr hd).ne'] at hx
    exact_mod_cast hx
  rw [round?, nearest?_congr x.den_pos hd hcross]

/-- What a decimal denotes stands for itself, so `round?` leaves it as it is. -/
theorem round?_toRat (d : Decimal) : round? d.toRat = some d.toRat := by
  rw [round?_eq (tenTo_pos d.scale) (abs_toRat d),
    nearest?_exact (tenTo_pos _) d.mantissa_lt rfl d.scale_le, ← abs_toRat, Option.map_some]
  by_cases hneg : d.toRat < 0
  · rw [if_pos hneg, abs_of_neg hneg, neg_neg]
  · rw [if_neg hneg, abs_of_nonneg (not_lt.mp hneg)]

theorem IsDecimal.round?_eq {x : ℚ} (h : IsDecimal x) : round? x = some x := by
  obtain ⟨d, rfl⟩ := h
  exact round?_toRat d

theorem toRat_eq_zero_iff {a : Decimal} : a.toRat = 0 ↔ a.isZero = true := by
  refine ⟨fun h => ?_, toRat_of_isZero⟩
  have habs := a.abs_toRat
  rw [h, abs_zero, eq_comm, div_eq_zero_iff, or_iff_left (cast_tenTo_ne_zero _)] at habs
  simpa [isZero] using habs

theorem map_toRat_of? {negative : Bool} {m s : Nat} (hm : m < limit) (hs : s ≤ 28) :
    (of? negative m s).map toRat = some (if negative then -(m / tenTo s : ℚ) else m / tenTo s) := by
  rw [of?, dif_pos ⟨hm, hs⟩, Option.map_some]
  unfold toRat unscaled
  cases negative <;> simp [neg_div]

variable (a b : Decimal)

theorem map_toRat_addNonzero : (addNonzero a b).map toRat = round? (a.toRat + b.toRat) := by
  rw [round?_eq (tenTo_pos _) (abs_toRat_add_toRat a b), ← map_fit, addNonzero_eq]
  have hsign : a.toRat + b.toRat < 0 ↔ exactSum a b < 0 := by
    rw [toRat_add_toRat_eq, div_lt_iff₀ (cast_tenTo_pos _), zero_mul]
    exact_mod_cast Iff.rfl
  cases hfit : fit (exactSum a b).natAbs (Max.max a.scale b.scale) with
  | none => rfl
  | some r =>
    have hrange := fit_range hfit
    dsimp only
    rw [map_toRat_of? hrange.1 hrange.2, Option.map_some, Option.map_some]
    simp only [hsign, decide_eq_true_eq]

/-- **A sum is rounded** to the number that stands for it: `a.add b` denotes `round?` of the sum. -/
theorem map_toRat_add : (a.add b).map toRat = round? (a.toRat + b.toRat) := by
  unfold add
  by_cases ha : a.isZero = true
  · rw [if_pos ha, Option.map_some, toRat_of_isZero ha, zero_add, round?_toRat]
  by_cases hb : b.isZero = true
  · rw [if_neg ha, if_pos hb, Option.map_some, toRat_of_isZero hb, add_zero, round?_toRat]
  rw [if_neg ha, if_neg hb, map_toRat_addNonzero]

/-- **A difference is rounded** to the number that stands for it, as `a.sub b`. -/
theorem map_toRat_sub_eq : (a.sub b).map toRat = round? (a.toRat - b.toRat) := by
  rw [map_toRat_sub, map_toRat_add, toRat_neg, sub_eq_add_neg]

/-- A number less itself is a zero. -/
theorem exists_sub_self : ∃ d, a.sub a = some d ∧ d.isZero = true := by
  have hexact := sub_exact (a := a) (b := a) (by rw [sub_self]; exact ⟨.zero, toRat_zero⟩)
  obtain ⟨d, hd, hzero⟩ := Option.map_eq_some_iff.mp hexact
  rw [sub_self] at hzero
  exact ⟨d, hd, toRat_eq_zero_iff.mp hzero⟩

theorem exists_sub_zero : ∃ d, a.sub zero = some d := by
  have hexact := sub_exact (a := a) (b := zero) (by rw [toRat_zero, sub_zero]; exact ⟨a, rfl⟩)
  obtain ⟨d, hd, -⟩ := Option.map_eq_some_iff.mp hexact
  exact ⟨d, hd⟩

theorem exists_sub_zero_min : ∃ d, a.sub (zero.min a) = some d := by
  unfold min
  split
  · obtain ⟨d, hd, -⟩ := a.exists_sub_self
    exact ⟨d, hd⟩
  · exact a.exists_sub_zero

/-! ### Products -/

theorem abs_toRat_mul_toRat :
    |a.toRat * b.toRat| = (a.mantissa * b.mantissa : Nat) / tenTo (a.scale + b.scale) := by
  rw [abs_mul, abs_toRat, abs_toRat, div_mul_div_comm, tenTo_add, Nat.cast_mul, Nat.cast_mul]

variable {a b}

theorem toRat_neg_iff (ha : a.isZero = false) : a.toRat < 0 ↔ a.negative = true := by
  have hmantissa : a.mantissa ≠ 0 := by simpa [isZero] using ha
  rw [toRat, div_lt_iff₀ (cast_tenTo_pos _), zero_mul, Int.cast_lt_zero, unscaled]
  split
  · rename_i hneg
    exact iff_of_true (by omega) hneg
  · rename_i hneg
    exact iff_of_false (by omega) hneg

theorem toRat_pos_iff (ha : a.isZero = false) : 0 < a.toRat ↔ a.negative = false := by
  have hne : a.toRat ≠ 0 := mt toRat_eq_zero_iff.mp (by simp [ha])
  rw [← not_le, hne.le_iff_lt, toRat_neg_iff ha, Bool.not_eq_true]

/-- The sign of a product or a quotient of two numbers other than zero. -/
theorem negative_bne_iff (ha : a.isZero = false) (hb : b.isZero = false) :
    (a.negative != b.negative) = true ↔ a.toRat * b.toRat < 0 := by
  rw [mul_neg_iff, toRat_pos_iff ha, toRat_pos_iff hb, toRat_neg_iff ha, toRat_neg_iff hb]
  cases a.negative <;> cases b.negative <;> simp

/-- A product of few digits that starts beyond the 47th place is rounded to zero. -/
theorem round?_mul_of_narrow (ha : a.mantissa < UInt32.size) (hb : b.mantissa < UInt32.size)
    (hscale : 47 < a.scale + b.scale) : round? (a.toRat * b.toRat) = some 0 := by
  have hsmall : 2 * (a.mantissa * b.mantissa * tenTo 28) < tenTo (a.scale + b.scale) := by
    have hproduct : a.mantissa * b.mantissa ≤ UInt32.size * UInt32.size :=
      Nat.mul_le_mul (Nat.le_of_lt ha) (Nat.le_of_lt hb)
    calc 2 * (a.mantissa * b.mantissa * tenTo 28)
        ≤ 2 * (UInt32.size * UInt32.size * tenTo 28) :=
          Nat.mul_le_mul_left 2 (Nat.mul_le_mul_right _ hproduct)
      _ < tenTo 48 := by decide
      _ ≤ tenTo (a.scale + b.scale) := tenTo_le_tenTo hscale
  have hround : roundDiv (a.mantissa * b.mantissa * tenTo 28) (tenTo (a.scale + b.scale)) = 0 := by
    have hlt : a.mantissa * b.mantissa * tenTo 28 < tenTo (a.scale + b.scale) := by omega
    unfold roundDiv
    dsimp only
    rw [Nat.div_eq_of_lt hlt, Nat.mod_eq_of_lt hlt, if_pos hsmall]
  have hfits : Fits (a.mantissa * b.mantissa) (tenTo (a.scale + b.scale)) 28 := by
    rw [Fits, hround]
    decide
  rw [round?_eq (tenTo_pos _) (abs_toRat_mul_toRat a b), nearest?, if_pos hfits, placed, hround]
  simp

variable (a b)

/-- **A product is rounded** to the number that stands for it, as `a.mul b`. -/
theorem map_toRat_mul : (a.mul b).map toRat = round? (a.toRat * b.toRat) := by
  have hzero : round? 0 = some 0 := by simpa using round?_toRat zero
  unfold mul
  dsimp only
  by_cases hab : (a.isZero || b.isZero) = true
  · have hproduct : a.toRat * b.toRat = 0 := by
      rcases Bool.or_eq_true_iff.mp hab with ha | hb
      · rw [toRat_of_isZero ha, zero_mul]
      · rw [toRat_of_isZero hb, mul_zero]
    rw [if_pos hab, hproduct, hzero, Option.map_some, toRat_zero]
  rw [if_neg hab]
  simp only [Bool.or_eq_true, not_or, Bool.not_eq_true] at hab
  split
  · rename_i hnarrow
    simp only [Bool.and_eq_true, decide_eq_true_eq] at hnarrow
    obtain ⟨⟨ha, hb⟩, hscale⟩ := hnarrow
    rw [round?_mul_of_narrow ha hb hscale, Option.map_some, toRat_zero]
  · rw [round?_eq (tenTo_pos _) (abs_toRat_mul_toRat a b), ← map_fit]
    cases hfit : fit (a.mantissa * b.mantissa) (a.scale + b.scale) with
    | none => rfl
    | some r =>
      have hrange := fit_range hfit
      dsimp only
      rw [map_toRat_of? hrange.1 hrange.2, Option.map_some, Option.map_some]
      rcases Nat.eq_zero_or_pos r.1 with hm | hm
      · simp [hm]
      · have hsign := negative_bne_iff hab.1 hab.2
        simp [hm.ne', ← hsign]

/-- **A product is exact** if it is a decimal. -/
theorem mul_exact {a b : Decimal} (h : IsDecimal (a.toRat * b.toRat)) :
    (a.mul b).map toRat = some (a.toRat * b.toRat) := by
  rw [map_toRat_mul, h.round?_eq]

end Decimal
end Covenant
