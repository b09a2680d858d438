/-
# Decimals up to the sign of zero

Storage keeps every decimal but the sign of a zero, which `d.normal` has not.
Two decimals that are the same after it, `a.Same b`, have the same mantissa and
scale, and the same sign unless they are zero; they compare alike, and
arithmetic on them comes to the same again.

Key definitions: `Decimal.normal`, `Decimal.Same`.
Key theorems: `Decimal.same_iff`, `Decimal.congruence_same`.
-/
import Covenant.Proofs.Decimal.Congruence

namespace Covenant
namespace Decimal

/-- The decimal `d`, without a sign if it is zero. -/
def normal (d : Decimal) : Decimal := { d with negative := d.negative && d.mantissa != 0 }

/-- The decimals `a` and `b` are the same up to the sign of zero. -/
def Same (a b : Decimal) : Prop := a.normal = b.normal

theorem same_iff {a b : Decimal} :
    a.Same b ↔ a = b ∨ (a.isZero = true ∧ b.isZero = true ∧ a.scale = b.scale) := by
  obtain ⟨n, m, s, _, _⟩ := a
  obtain ⟨n', m', s', _, _⟩ := b
  simp only [Same, normal, isZero, mk.injEq, beq_iff_eq]
  constructor
  · rintro ⟨hn, rfl, rfl⟩
    by_cases hm : m = 0
    · exact .inr ⟨hm, hm, rfl⟩
    · have hne : (m != 0) = true := bne_iff_ne.mpr hm
      rw [hne, Bool.and_true, Bool.and_true] at hn
      exact .inl ⟨hn, rfl, rfl⟩
  · rintro (⟨rfl, rfl, rfl⟩ | ⟨rfl, rfl, rfl⟩)
    · exact ⟨rfl, rfl, rfl⟩
    · simp

theorem Same.refl (a : Decimal) : a.Same a := rfl

@[simp] theorem normal_normal (d : Decimal) : d.normal.normal = d.normal := by
  simp [normal]

theorem same_normal (d : Decimal) : d.normal.Same d := normal_normal d

namespace Same

variable {a a' b b' : Decimal}

theorem scale_eq (h : a.Same b) : a.scale = b.scale := by
  rcases same_iff.mp h with rfl | ⟨-, -, hs⟩
  · rfl
  · exact hs

theorem isZero_eq (h : a.Same b) : a.isZero = b.isZero := by
  rcases same_iff.mp h with rfl | ⟨ha, hb, -⟩
  · rfl
  · rw [ha, hb]

theorem unscaled_eq (h : a.Same b) : a.unscaled = b.unscaled := by
  rcases same_iff.mp h with rfl | ⟨ha, hb, -⟩
  · rfl
  · have hma : a.mantissa = 0 := beq_iff_eq.mp ha
    have hmb : b.mantissa = 0 := beq_iff_eq.mp hb
    simp [unscaled, hma, hmb]

/-- The two compare alike with others. -/
theorem compare_eq (ha : a.Same a') (hb : b.Same b') : a.compare b = a'.compare b' := by
  unfold compare
  rw [ha.unscaled_eq, ha.scale_eq, hb.unscaled_eq, hb.scale_eq]

/-- Two that are not zero are equal. -/
theorem eq_of_not_isZero (h : a.Same b) (ha : a.isZero = false) : a = b := by
  rcases same_iff.mp h with rfl | ⟨hzero, -, -⟩
  · rfl
  · rw [ha] at hzero
    cases hzero

theorem neg (h : a.Same b) : a.neg.Same b.neg := by
  rcases same_iff.mp h with rfl | ⟨ha, hb, hs⟩
  · rfl
  · exact same_iff.mpr (.inr ⟨ha, hb, hs⟩)

end Same

/-! ### Arithmetic -/

theorem same_results (x : Option Decimal) : Option.Rel Same x x := by
  cases x with
  | none => exact .none
  | some d => exact .some (.refl d)

namespace Same

variable {a a' b b' : Decimal}

theorem add (ha : a.Same a') (hb : b.Same b') : Option.Rel Same (a.add b) (a'.add b') := by
  unfold Decimal.add
  rw [← ha.isZero_eq, ← hb.isZero_eq]
  cases hza : a.isZero with
  | true => exact .some hb
  | false =>
    cases hzb : b.isZero with
    | true => exact .some ha
    | false =>
      rw [ha.eq_of_not_isZero hza, hb.eq_of_not_isZero hzb]
      exact same_results _

theorem sub (ha : a.Same a') (hb : b.Same b') : Option.Rel Same (a.sub b) (a'.sub b') := by
  unfold Decimal.sub
  rw [← ha.isZero_eq, ← hb.isZero_eq]
  cases hza : a.isZero with
  | true =>
    cases hzb : b.isZero with
    | true => exact .some hb
    | false => exact .some hb.neg
  | false =>
    cases hzb : b.isZero with
    | true => exact .some ha
    | false =>
      rw [ha.eq_of_not_isZero hza, hb.eq_of_not_isZero hzb]
      exact same_results _

theorem mul (ha : a.Same a') (hb : b.Same b') : a.mul b = a'.mul b' := by
  cases hza : a.isZero with
  | true => simp only [Decimal.mul, ← ha.isZero_eq, hza, Bool.true_or, ↓reduceIte]
  | false =>
    cases hzb : b.isZero with
    | true => simp only [Decimal.mul, ← hb.isZero_eq, hzb, Bool.or_true, ↓reduceIte]
    | false => rw [ha.eq_of_not_isZero hza, hb.eq_of_not_isZero hzb]

theorem div (ha : a.Same a') (hb : b.Same b') (hzb : b.isZero = false) : a.div b = a'.div b' := by
  cases hza : a.isZero with
  | true => simp only [Decimal.div, ← ha.isZero_eq, hza, ↓reduceIte]
  | false => rw [ha.eq_of_not_isZero hza, hb.eq_of_not_isZero hzb]

end Same

/-- **Arithmetic does not see the sign of zero**: `Same` is a congruence, whatever is divided by
what. -/
theorem congruence_same : Congruence Same fun _ _ => True where
  zero := rfl
  add := Same.add
  sub := Same.sub
  refl := Same.refl
  compare := Same.compare_eq
  isZero := Same.isZero_eq
  neg := Same.neg
  mul ha hb := ha.mul hb ▸ same_results _
  div ha hb hzero _ _ := ha.div hb hzero ▸ same_results _
  narrow _ _ _ := trivial

end Decimal
end Covenant
