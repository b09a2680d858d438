/-
# Equal numbers in other forms

A number can be written in several forms, 1.1 as 1.10, and two holders of the
same data may have it in different ones: `x` and `y` with `x.toRat = y.toRat`,
which is what `x.agrees y` decides. Sums, differences and products are rounded
to the number that stands for them, whatever the form; so is a quotient, unless
the divisor is so long that its length shows. So equal numbers are a congruence
for the divisions that are `Decimal.EvenlyDivided`.

Key definition: `Decimal.Equal`.
Key theorems: `Decimal.agrees_iff`, `Decimal.congruence_equal`,
`OrderedMap.agrees_iff`.
-/
import Covenant.Proofs.Decimal.Congruence
import Covenant.Proofs.Decimal.Division

namespace Covenant

namespace Decimal

/-- The two denote the same number. -/
abbrev Equal (a b : Decimal) : Prop := a.toRat = b.toRat

variable {a a' b b' : Decimal}

/-- Two decimals agree if and only if they denote the same number. -/
theorem agrees_iff : a.agrees b = true ↔ a.toRat = b.toRat := by
  have hlt := @compare_eq_lt_iff a b
  have hgt := @compare_eq_gt_iff a b
  unfold agrees
  cases hab : a.compare b with
  | lt => exact iff_of_false (by simp) (hlt.mp hab).ne
  | gt => exact iff_of_false (by simp) (hgt.mp hab).ne'
  | eq =>
    rw [hab] at hlt hgt
    exact iff_of_true rfl (le_antisymm (not_lt.mp fun h => by simpa using hgt.mpr h)
      (not_lt.mp fun h => by simpa using hlt.mpr h))

/-- `a.compare b` goes by the numbers. -/
theorem Equal.compare_eq (ha : Equal a a') (hb : Equal b b') :
    a.compare b = a'.compare b' := by
  have hlt : a.compare b = .lt ↔ a'.compare b' = .lt := by
    rw [compare_eq_lt_iff, compare_eq_lt_iff, ha, hb]
  have hgt : a.compare b = .gt ↔ a'.compare b' = .gt := by
    rw [compare_eq_gt_iff, compare_eq_gt_iff, ha, hb]
  cases h : a.compare b <;> cases h' : a'.compare b' <;> simp [h, h'] at hlt hgt ⊢

theorem Equal.isZero_eq (h : Equal a a') : a.isZero = a'.isZero := by
  rw [Bool.eq_iff_iff, ← toRat_eq_zero_iff, ← toRat_eq_zero_iff, show a.toRat = a'.toRat from h]

/-- **Arithmetic sees numbers only**, and so does division where it is even. -/
theorem congruence_equal : Congruence Equal EvenlyDivided where
  zero := rfl
  add ha hb := rel_of_map_eq (by rw [map_toRat_add, map_toRat_add, ha, hb])
  sub ha hb := rel_of_map_eq (by rw [map_toRat_sub_eq, map_toRat_sub_eq, ha, hb])
  refl _ := rfl
  compare := Equal.compare_eq
  isZero := Equal.isZero_eq
  neg h := by rw [Equal, toRat_neg, toRat_neg, h]
  mul ha hb := rel_of_map_eq (by rw [map_toRat_mul, map_toRat_mul, ha, hb])
  div ha hb _ hdiv hdiv' := rel_of_map_eq (by rw [hdiv, hdiv', ha, hb])
  narrow _ := evenlyDivided_of_narrow

end Decimal

/-- Maps agree if and only if they have the same keys and equal numbers. -/
theorem OrderedMap.agrees_iff {κ : Type} [Ord κ] [DecidableEq κ] {m m' : OrderedMap κ Decimal} :
    m.agrees m' = true ↔ Related Decimal.Equal m m' := by
  simp only [agrees_iff_related, Decimal.agrees_iff]

end Covenant
