/-
# Interest

Interest multiplies twice before it divides: `principal * rate * days / basis`,
from the left. So it is rounded once only, at the end, as long as the two
products can be written, and it is exact if the quotient can be. Over `k` whole
years it always can: the days are `k * basis`, and nothing is left of the
division.

Key definitions: `Decimal.IsDecimalAt`.
Key theorems: `DayCount.interest_rounded_once`, `DayCount.interest_exact`,
`Amount.value_interest_exact`.
-/
import Covenant.Proofs.Amount.Normal
import Covenant.Proofs.Decimal.Division

namespace Covenant

/-! ### Interest between calendar dates -/

namespace Amount

variable {env : Environment} {principal rate : Amount} {dayCount : DayCount} {start finish : Date}
  {x : Decimal}

/-- When interest between calendar dates has a value: `p` and `r` have, and `dayCount.interest` of
them. -/
theorem value_interest_eq_ok :
    (interest principal rate dayCount (.fixed start) (.fixed finish)).value env = .ok x ↔
      ∃ p r, principal.value env = .ok p ∧ rate.value env = .ok r ∧
        dayCount.interest p r start finish = .ok x := by
  constructor
  · intro h
    obtain ⟨p, hp, h⟩ := bind_eq_ok.mp h
    obtain ⟨r, hr, h⟩ := bind_eq_ok.mp h
    exact ⟨p, r, hp, hr, h⟩
  · rintro ⟨p, r, hp, hr, h⟩
    exact bind_eq_ok.mpr ⟨p, hp, bind_eq_ok.mpr ⟨r, hr, h⟩⟩

/-- The rate of a floating leg is the fixing of the index over the same dates. -/
theorem value_floating_eq_ok {index : String} :
    (floating principal dayCount index (.fixed start) (.fixed finish)).value env = .ok x ↔
      ∃ p fixing, principal.value env = .ok p ∧
        env.observe (.fixing index start finish) = .ok fixing ∧
        dayCount.interest p fixing start finish = .ok x :=
  value_interest_eq_ok

end Amount

/-! ### What is rounded -/

namespace DayCount

open Decimal

variable {convention : DayCount} {principal rate : Decimal} {start finish : Date}

/-- A divisor of 360 or 365 is so short that the quotient is rounded as `round?` says. -/
theorem apply_div_basis (a : Decimal) (h : convention.basis < limit) :
    (Operator.div.apply a (.ofNat convention.basis h)).toOption.map toRat =
      round? (a.toRat / convention.basis) := by
  have hzero : (Decimal.ofNat convention.basis h).isZero = false := by
    cases convention <;> rfl
  have hnarrow : convention.basis < UInt64.size := by
    cases convention <;> decide
  have hdiv := evenlyDivided_of_narrow (a := a) hzero hnarrow
  rw [EvenlyDivided, toRat_ofNat] at hdiv
  rw [← hdiv, Operator.apply_eq fun _ => hzero, Operator.result?]
  cases a.div (.ofNat convention.basis h) <;> rfl

/-- What is divided by `convention.basis` is the product of principal, rate and `accrualDays`. -/
theorem interest_eq_div {product accrual : Decimal} (hproduct : principal.mul rate = some product)
    (hdays : (convention.accrualDays start finish).natAbs < limit)
    (haccrual : product.mul (.ofInt (convention.accrualDays start finish) hdays) = some accrual)
    (hbasis : convention.basis < limit) :
    convention.interest principal rate start finish =
      Operator.div.apply accrual (.ofNat convention.basis hbasis) := by
  have hfirst := Operator.mul_eq_ok.mpr hproduct
  have hsecond := Operator.mul_eq_ok.mpr haccrual
  unfold interest
  dsimp only
  rw [hfirst]
  show (Operator.mul.apply product (.ofInt _ hdays) >>= fun a =>
    Operator.div.apply a (.ofNat convention.basis hbasis)) = _
  rw [hsecond]
  rfl

/-- **Interest is rounded once**, after the division, if the products before it can be written. -/
theorem interest_rounded_once (hproduct : IsDecimal (principal.toRat * rate.toRat))
    (haccrual : IsDecimal
      (principal.toRat * rate.toRat * convention.accrualDays start finish)) :
    (convention.interest principal rate start finish).toOption.map toRat =
      round? (principal.toRat * rate.toRat * convention.accrualDays start finish /
        convention.basis) := by
  have hdays : (convention.accrualDays start finish).natAbs < limit :=
    Nat.lt_trans (convention.accrualDays_natAbs_lt start finish) (by decide)
  have hbasis : convention.basis < limit := by cases convention <;> decide
  obtain ⟨product, hmul, hvalue⟩ := Option.map_eq_some_iff.mp (mul_exact hproduct)
  rw [← hvalue, ← toRat_ofInt hdays] at haccrual ⊢
  obtain ⟨accrual, hmul', hvalue'⟩ := Option.map_eq_some_iff.mp (mul_exact haccrual)
  rw [interest_eq_div hmul hdays hmul' hbasis, apply_div_basis, hvalue']

/-- **Interest is exact** if it is a decimal, and the products before the division are. -/
theorem interest_exact (hproduct : IsDecimal (principal.toRat * rate.toRat))
    (haccrual : IsDecimal (principal.toRat * rate.toRat * convention.accrualDays start finish))
    (hquotient : IsDecimal (principal.toRat * rate.toRat * convention.accrualDays start finish /
      convention.basis)) :
    ∃ x, convention.interest principal rate start finish = .ok x ∧
      x.toRat = principal.toRat * rate.toRat * convention.accrualDays start finish /
        convention.basis := by
  have hround := interest_rounded_once hproduct haccrual
  rw [hquotient.round?_eq] at hround
  cases hinterest : convention.interest principal rate start finish with
  | ok x =>
    rw [hinterest] at hround
    exact ⟨x, rfl, Option.some.inj hround⟩
  | error e =>
    rw [hinterest] at hround
    cases hround

theorem basis_pos (convention : DayCount) : 0 < convention.basis := by
  cases convention <;> decide

/-- Interest on nothing, or at no rate, is nothing. -/
theorem interest_of_isZero (convention : DayCount) {principal rate : Decimal}
    (h : (principal.isZero || rate.isZero) = true) (start finish : Date) :
    convention.interest principal rate start finish = .ok .zero := by
  refine bind_eq_ok.mpr ⟨.zero, Operator.mul_of_isZero h, ?_⟩
  refine bind_eq_ok.mpr ⟨.zero, Operator.mul_of_isZero rfl, ?_⟩
  cases convention <;> rfl

end DayCount

/-! ### Whole years -/

namespace Decimal

/-- `x` is written by a decimal with just `s` places. -/
def IsDecimalAt (s : Nat) (x : ℚ) : Prop := ∃ d : Decimal, d.scale = s ∧ d.toRat = x

variable {s : Nat} {x : ℚ}

theorem IsDecimalAt.isDecimal (h : IsDecimalAt s x) : IsDecimal x := by
  obtain ⟨d, -, hd⟩ := h
  exact ⟨d, hd⟩

/-- If `x` and `x * (k * n)` can be written with `s` places, `x * k` is a decimal. -/
theorem IsDecimalAt.isDecimal_mul {k : Int} {n : Nat} (hn : 0 < n) (h : IsDecimalAt s x)
    (hmultiple : IsDecimalAt s (x * (k * n : Int))) : IsDecimal (x * k) := by
  obtain ⟨d, rfl, rfl⟩ := h
  obtain ⟨d', hscale, hd'⟩ := hmultiple
  have hunits : d.toRat * k * tenTo d.scale = (d.unscaled * k : Int) := by
    rw [mul_right_comm, toRat_mul_tenTo (Nat.le_refl d.scale), Nat.sub_self]
    push_cast [tenTo]
    ring
  have hsmaller : |d.toRat * k| ≤ |d'.toRat| := by
    have hone : (1 : ℚ) ≤ n := by exact_mod_cast hn
    rw [hd', Int.cast_mul, Int.cast_natCast, ← mul_assoc, abs_mul _ (n : ℚ), Nat.abs_cast]
    exact le_mul_of_one_le_right (abs_nonneg _) hone
  have hfew : |d.toRat * k| * tenTo d.scale < limit := calc
    |d.toRat * k| * tenTo d.scale ≤ |d'.toRat| * tenTo d.scale :=
      mul_le_mul_of_nonneg_right hsmaller (cast_tenTo_pos _).le
    _ = d'.mantissa := by
      rw [abs_toRat, hscale, div_mul_cancel₀ _ (cast_tenTo_ne_zero _)]
    _ < limit := by exact_mod_cast d'.mantissa_lt
  exact isDecimal_of_mul_tenTo hunits hfew d.scale_le

end Decimal

namespace Amount

open Decimal

/-- The value of `interest` is exact if it is a decimal, and the products before the division
are. -/
theorem exists_value_interest {env : Environment} {principal rate : Amount} {p r : Decimal}
    {dayCount : DayCount} {start finish : Date}
    (hprincipal : principal.value env = .ok p) (hrate : rate.value env = .ok r)
    (hproduct : IsDecimal (p.toRat * r.toRat))
    (haccrual : IsDecimal (p.toRat * r.toRat * dayCount.accrualDays start finish))
    (hquotient : IsDecimal
      (p.toRat * r.toRat * dayCount.accrualDays start finish / dayCount.basis)) :
    ∃ x, (interest principal rate dayCount (.fixed start) (.fixed finish)).value env = .ok x ∧
      x.toRat = p.toRat * r.toRat * dayCount.accrualDays start finish / dayCount.basis := by
  obtain ⟨x, hx, hvalue⟩ := DayCount.interest_exact hproduct haccrual hquotient
  exact ⟨x, value_interest_eq_ok.mpr ⟨p, r, hprincipal, hrate, hx⟩, hvalue⟩

/-- **Interest is exact whenever it can be.** Let principal and rate have the values `p` and `r`,
and let `p * r`, and that times the accrual days, be written with the places of both,
`IsDecimalAt (p.scale + r.scale)`. Then `interest` is the exact quotient by `dayCount.basis`,
provided some decimal denotes it. Over `k * basis` days, which are `k` whole years forward or back,
one always does: interest is `p * r * k`. -/
theorem value_interest_exact {env : Environment} {principal rate : Amount} {p r : Decimal}
    (hprincipal : principal.value env = .ok p) (hrate : rate.value env = .ok r)
    (dayCount : DayCount) (start finish : Date)
    (hproduct : IsDecimalAt (p.scale + r.scale) (p.toRat * r.toRat))
    (haccrual : IsDecimalAt (p.scale + r.scale)
      (p.toRat * r.toRat * dayCount.accrualDays start finish)) :
    (IsDecimal (p.toRat * r.toRat * dayCount.accrualDays start finish / dayCount.basis) →
      ∃ x, (interest principal rate dayCount (.fixed start) (.fixed finish)).value env = .ok x ∧
        x.toRat = p.toRat * r.toRat * dayCount.accrualDays start finish / dayCount.basis) ∧
    ∀ k : Int, dayCount.accrualDays start finish = k * dayCount.basis →
      ∃ x, (interest principal rate dayCount (.fixed start) (.fixed finish)).value env = .ok x ∧
        x.toRat = p.toRat * r.toRat * k := by
  have hexact := exists_value_interest hprincipal hrate hproduct.isDecimal haccrual.isDecimal
  refine ⟨hexact, fun k hk => ?_⟩
  have hyears : p.toRat * r.toRat * dayCount.accrualDays start finish / dayCount.basis =
      p.toRat * r.toRat * k := by
    have hbasis : (dayCount.basis : ℚ) ≠ 0 := Nat.cast_ne_zero.mpr dayCount.basis_pos.ne'
    rw [hk, Int.cast_mul, Int.cast_natCast, ← mul_assoc, mul_div_cancel_right₀ _ hbasis]
  rw [hk] at haccrual
  rw [← hyears]
  exact hexact (hyears ▸ hproduct.isDecimal_mul dayCount.basis_pos haccrual)

/-- A year of interest back, `2016-01-01` to `2015-01-01`, on ten million at one and a half
percent. -/
theorem value_interest_year_back :
    ∃ x, (interest (const (.literal 10000000 0)) (const (.literal 15 3)) .act365
        (.fixed (.literal 2016 1 1)) (.fixed (.literal 2015 1 1))).value ⟨.empty, .empty⟩ =
        .ok x ∧
      x.toRat = -150000 := by
  have hprincipal : (Decimal.literal 10000000 0).toRat = 10000000 :=
    (toRat_literal _).trans (by norm_num [tenTo])
  have hrate : (Decimal.literal 15 3).toRat = 15 / 1000 :=
    (toRat_literal _).trans (by norm_num [tenTo])
  have hyear : (Decimal.literal 150000000 3).toRat = 150000 :=
    (toRat_literal _).trans (by norm_num [tenTo])
  have hdaily : (Decimal.literal 54750000000 3).toRat = 54750000 :=
    (toRat_literal _).trans (by norm_num [tenTo])
  have hdays : DayCount.act365.accrualDays (.literal 2016 1 1) (.literal 2015 1 1) =
      -1 * DayCount.act365.basis := by decide
  have hexact := @value_interest_exact ⟨.empty, .empty⟩ (const (.literal 10000000 0))
    (const (.literal 15 3)) _ _ rfl rfl .act365 (.literal 2016 1 1) (.literal 2015 1 1)
    ⟨.literal 150000000 3, rfl, by rw [hyear, hprincipal, hrate]; norm_num⟩
    ⟨(Decimal.literal 54750000000 3).neg, rfl, by
      rw [toRat_neg, hdaily, hprincipal, hrate, hdays]
      norm_num [DayCount.basis]⟩
  obtain ⟨x, hx, hvalue⟩ := hexact.2 (-1) hdays
  refine ⟨x, hx, ?_⟩
  rw [hvalue, hprincipal, hrate]
  norm_num

end Amount
end Covenant
