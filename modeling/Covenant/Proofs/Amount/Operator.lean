/-
# Operations and comparisons

An operation comes to the decimal that arithmetic gives, `op.result? a b`, or
fails with its operands in the error. On whole numbers it is the exact one,
`op.whole? i j`, if that is in range, and if not it is refused: nothing is
rounded. A quotient is left out, as it need not be whole.

Key definitions: `Operator.result?`, `Operator.whole?`, `Relation.whole`.
Key theorems: `Operator.apply_eq`, `Relation.holds_whole`,
`Operator.result?_whole`, `Operator.apply_eq_ok_of_whole`,
`Operator.apply_eq_error_of_whole`.
-/
import Covenant.Amount.Value
import Covenant.Proofs.Decimal.Whole

namespace Covenant

/-! ### Operations -/

namespace Operator

/-- The decimal that `a op b` comes to, if it has one. -/
def result? : Operator → Decimal → Decimal → Option Decimal
  | .add, a, b => a.add b
  | .sub, a, b => a.sub b
  | .mul, a, b => a.mul b
  | .div, a, b => a.div b
  | .min, a, b => some (a.min b)
  | .max, a, b => some (a.max b)

theorem apply_eq {op : Operator} {a b : Decimal} (h : op = .div → b.isZero = false) :
    op.apply a b = (op.result? a b).elim (.error (.overflow op a b)) .ok := by
  cases op with
  | add =>
    unfold apply result?
    dsimp only
    cases a.add b <;> rfl
  | sub =>
    unfold apply result?
    dsimp only
    cases a.sub b <;> rfl
  | mul =>
    unfold apply result?
    dsimp only
    cases a.mul b <;> rfl
  | div =>
    unfold apply result?
    dsimp only
    rw [h rfl, if_neg Bool.false_ne_true]
    cases a.div b <;> rfl
  | min => rfl
  | max => rfl

variable {a b c : Decimal}

/-- A difference has the value that `a.sub b` gives, if it gives one. -/
theorem sub_eq_ok : sub.apply a b = .ok c ↔ a.sub b = some c := by
  unfold apply
  dsimp only
  cases a.sub b <;> simp

/-- So does a product. -/
theorem mul_eq_ok : mul.apply a b = .ok c ↔ a.mul b = some c := by
  unfold apply
  dsimp only
  cases a.mul b <;> simp

theorem mul_of_isZero (h : (a.isZero || b.isZero) = true) : mul.apply a b = .ok .zero := by
  rw [mul_eq_ok, Decimal.mul]
  exact if_pos h

end Operator

theorem Relation.holds_gt {a b : Decimal} : Relation.gt.holds a b = true ↔ b.toRat < a.toRat := by
  rw [← Decimal.compare_eq_gt_iff]
  cases h : a.compare b <;> simp [holds, h]

/-! ### Operations on whole numbers -/

/-- The operation on whole numbers; `div` has none, as a quotient need not be whole. -/
def Operator.whole? : Operator → Int → Int → Option Int
  | add, i, j => some (i + j)
  | sub, i, j => some (i - j)
  | mul, i, j => some (i * j)
  | div, _, _ => none
  | min, i, j => some (Min.min i j)
  | max, i, j => some (Max.max i j)

/-- The relation between whole numbers that `relation.holds` is between decimals. -/
def Relation.whole : Relation → Int → Int → Bool
  | lt, i, j => decide (i < j)
  | le, i, j => decide (i ≤ j)
  | gt, i, j => decide (j < i)
  | ge, i, j => decide (j ≤ i)
  | eq, i, j => decide (i = j)
  | ne, i, j => decide (i ≠ j)

variable {a b : Decimal} {i j k : Int}

theorem Operator.exists_whole? {op : Operator} (h : op ≠ .div) (i j : Int) :
    ∃ k, op.whole? i j = some k := by
  cases op with
  | div => exact absurd rfl h
  | _ => exact ⟨_, rfl⟩

theorem Operator.apply_eq_of_whole {op : Operator} (h : op.whole? i j = some k) :
    op.apply a b = (op.result? a b).elim (.error (.overflow op a b)) .ok :=
  apply_eq (by rintro rfl; cases h)

section

variable (ha : a.IsWhole i) (hb : b.IsWhole j)

include ha hb

theorem Relation.holds_whole (relation : Relation) : relation.holds a b = relation.whole i j := by
  have hcompare : a.compare b = compare i j := by
    have hone : (Decimal.tenTo 0 : Int) = 1 := rfl
    rw [Decimal.compare, ha.scale_eq, hb.scale_eq, ha.unscaled_eq, hb.unscaled_eq, hone,
      Int.mul_one, Int.mul_one]
  unfold holds whole
  rw [hcompare]
  rcases lt_trichotomy i j with h | rfl | h
  · rw [compare_lt_iff_lt.mpr h]
    cases relation <;> simp <;> omega
  · rw [compare_eq_iff_eq.mpr rfl]
    cases relation <;> simp
  · rw [compare_gt_iff_gt.mpr h]
    cases relation <;> simp <;> omega

namespace Operator

variable {op : Operator}

/-- **An operation on whole numbers** has the exact result if `k.natAbs < limit`, and none if
not. -/
theorem result?_whole (h : op.whole? i j = some k) :
    if k.natAbs < Decimal.limit then ∃ d, op.result? a b = some d ∧ d.IsWhole k
    else op.result? a b = none := by
  have hscale : Max.max a.scale b.scale = 0 := by rw [ha.scale_eq, hb.scale_eq]; rfl
  cases op with
  | add =>
    cases h
    refine Decimal.isWhole_of_round ?_ fun d hd => ?_
    · rw [result?, Decimal.map_toRat_add, ha.toRat_eq, hb.toRat_eq, Int.cast_add]
    · exact Nat.le_zero.mp (hscale ▸ Decimal.add_scale_le hd)
  | sub =>
    cases h
    refine Decimal.isWhole_of_round ?_ fun d hd => ?_
    · rw [result?, Decimal.map_toRat_sub_eq, ha.toRat_eq, hb.toRat_eq, Int.cast_sub]
    · exact Nat.le_zero.mp (hscale ▸ Decimal.sub_scale_le hd)
  | mul =>
    cases h
    refine Decimal.isWhole_of_round ?_ fun d hd => ?_
    · rw [result?, Decimal.map_toRat_mul, ha.toRat_eq, hb.toRat_eq, Int.cast_mul]
    · have hle := Decimal.mul_scale_le hd
      rw [ha.scale_eq, hb.scale_eq] at hle
      exact Nat.le_zero.mp hle
  | div => cases h
  | min =>
    cases h
    rw [if_pos (ha.min hb).natAbs_lt]
    exact ⟨_, rfl, ha.min hb⟩
  | max =>
    cases h
    rw [if_pos (ha.max hb).natAbs_lt]
    exact ⟨_, rfl, ha.max hb⟩

theorem apply_eq_ok_of_whole (h : op.whole? i j = some k) (hk : k.natAbs < Decimal.limit) :
    ∃ d, op.apply a b = .ok d ∧ d.IsWhole k := by
  have hresult := result?_whole ha hb h
  rw [if_pos hk] at hresult
  obtain ⟨d, hd, hwhole⟩ := hresult
  exact ⟨d, by rw [apply_eq_of_whole h, hd]; rfl, hwhole⟩

theorem apply_eq_error_of_whole (h : op.whole? i j = some k) (hk : Decimal.limit ≤ k.natAbs) :
    op.apply a b = .error (.overflow op a b) := by
  have hresult := result?_whole ha hb h
  rw [if_neg (Nat.not_lt.mpr hk)] at hresult
  rw [apply_eq_of_whole h, hresult]
  rfl

/-- A result is the exact `k`: it is neither rounded nor taken from the other end of the range. -/
theorem isWhole_of_apply_eq_ok (h : op.whole? i j = some k) {d : Decimal}
    (hd : op.apply a b = .ok d) : d.IsWhole k := by
  rcases Nat.lt_or_ge k.natAbs Decimal.limit with hk | hk
  · obtain ⟨d', hd', hwhole⟩ := apply_eq_ok_of_whole ha hb h hk
    cases hd'.symm.trans hd
    exact hwhole
  · cases (apply_eq_error_of_whole ha hb h hk).symm.trans hd

end Operator

end
end Covenant
