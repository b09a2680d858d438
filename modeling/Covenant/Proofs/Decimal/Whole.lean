/-
# Whole numbers

Decimals without places, `IsWhole`, are closed under every operation but
division: a sum, a difference or a product of two has no places either. It is
then the exact one or there is none, since a whole number that has too many
digits is never rounded to one that has not.

Key definition: `Decimal.IsWhole`.
Key theorems: `Decimal.add_scale_le`, `Decimal.sub_scale_le`,
`Decimal.mul_scale_le`, `Decimal.round?_intCast`, `Decimal.isWhole_of_round`.
-/
import Covenant.Proofs.Decimal.Order
import Covenant.Proofs.Decimal.Rounding

namespace Covenant
namespace Decimal

/-! ### Places -/

variable {a b c : Decimal}

theorem of?_scale {negative : Bool} {m s : Nat} (h : of? negative m s = some c) : c.scale = s := by
  unfold of? at h
  split at h <;> cases h
  rfl

/-- What `fit` brings into range has no more places than before. -/
theorem fit_scale_le {m s m' s' : Nat} (h : fit m s = some (m', s')) : s' ≤ s := by
  unfold fit at h
  dsimp only at h
  split at h
  · cases h
  split at h
  · cases h
    exact Nat.sub_le _ _
  split at h
  · cases h
    omega
  · cases h

theorem addNonzero_scale_le (h : addNonzero a b = some c) : c.scale ≤ Max.max a.scale b.scale := by
  cases hfit : fit (exactSum a b).natAbs (Max.max a.scale b.scale) with
  | none => simp [addNonzero_eq, hfit] at h
  | some r =>
    obtain ⟨d, hd, hscale, -⟩ := addNonzero_of_fit hfit
    cases h.symm.trans hd
    exact hscale ▸ fit_scale_le hfit

/-- A sum has no more places than its operands. -/
theorem add_scale_le (h : a.add b = some c) : c.scale ≤ Max.max a.scale b.scale := by
  unfold add at h
  split at h
  · cases h
    exact Nat.le_max_right _ _
  split at h
  · cases h
    exact Nat.le_max_left _ _
  · exact addNonzero_scale_le h

/-- Nor has a difference. -/
theorem sub_scale_le (h : a.sub b = some c) : c.scale ≤ Max.max a.scale b.scale := by
  unfold sub at h
  split at h
  · split at h <;> cases h <;> exact Nat.le_max_right _ _
  split at h
  · cases h
    exact Nat.le_max_left _ _
  · have hle := addNonzero_scale_le h
    exact hle

/-- A product has no more places than its factors together. -/
theorem mul_scale_le (h : a.mul b = some c) : c.scale ≤ a.scale + b.scale := by
  unfold mul at h
  dsimp only at h
  split at h
  · cases h
    exact Nat.zero_le _
  split at h
  · cases h
    exact Nat.zero_le _
  split at h
  · rename_i hfit
    exact of?_scale h ▸ fit_scale_le hfit
  · cases h

/-! ### Whole numbers -/

/-- A whole number `i` stands for itself if it is in range, and none stands for it otherwise. -/
theorem round?_intCast (i : Int) : round? i = if i.natAbs < limit then some (i : ℚ) else none := by
  split
  · rename_i h
    exact (isDecimal_intCast h).round?_eq
  · rename_i h
    have habs : |(i : ℚ)| = i.natAbs / (1 : Nat) := by
      rw [← Int.cast_abs, Int.abs_eq_natAbs, Nat.cast_one, div_one]
      rfl
    have hmany : limit ≤ i.natAbs * tenTo 0 / 1 := by
      rw [Nat.div_one]
      exact (Nat.mul_one i.natAbs).symm ▸ Nat.not_lt.mp h
    rw [round?_eq Nat.one_pos habs, nearest?_eq_none Nat.one_pos (not_fits_of_le_div hmany),
      Option.map_none]

/-- The decimal `d` is the whole number `i`, written without places. -/
structure IsWhole (d : Decimal) (i : Int) : Prop where
  scale_eq : d.scale = 0
  unscaled_eq : d.unscaled = i

namespace IsWhole

variable {i j : Int}

theorem of_scale (h : a.scale = 0) : a.IsWhole a.unscaled := ⟨h, rfl⟩

theorem toRat_eq (h : a.IsWhole i) : a.toRat = i := by
  rw [toRat, h.scale_eq, h.unscaled_eq]
  exact div_one _

theorem of_toRat (hscale : a.scale = 0) (h : a.toRat = i) : a.IsWhole i :=
  ⟨hscale, Int.cast_injective ((of_scale hscale).toRat_eq.symm.trans h)⟩

theorem natAbs_lt (h : a.IsWhole i) : i.natAbs < limit := by
  rw [← h.unscaled_eq, natAbs_unscaled]
  exact a.mantissa_lt

theorem neg (h : a.IsWhole i) : a.neg.IsWhole (-i) :=
  of_toRat h.scale_eq (by rw [toRat_neg, h.toRat_eq, Int.cast_neg])

theorem max (ha : a.IsWhole i) (hb : b.IsWhole j) : (a.max b).IsWhole (Max.max i j) := by
  refine of_toRat ?_ (by rw [toRat_max, ha.toRat_eq, hb.toRat_eq, Int.cast_max])
  unfold Decimal.max
  split
  · exact hb.scale_eq
  · exact ha.scale_eq

theorem min (ha : a.IsWhole i) (hb : b.IsWhole j) : (a.min b).IsWhole (Min.min i j) := by
  refine of_toRat ?_ (by rw [toRat_min, ha.toRat_eq, hb.toRat_eq, Int.cast_min])
  unfold Decimal.min
  split
  · exact hb.scale_eq
  · exact ha.scale_eq

theorem zero : Decimal.zero.IsWhole 0 := ⟨rfl, rfl⟩

end IsWhole

/-- A result `x` is exact if it is rounded and has no places. -/
theorem isWhole_of_round {x : Option Decimal} {k : Int} (hround : x.map toRat = round? k)
    (hscale : ∀ d, x = some d → d.scale = 0) :
    if k.natAbs < limit then ∃ d, x = some d ∧ d.IsWhole k else x = none := by
  rw [round?_intCast] at hround
  split
  · rename_i h
    rw [if_pos h] at hround
    obtain ⟨d, hd, hvalue⟩ := Option.map_eq_some_iff.mp hround
    exact ⟨d, hd, .of_toRat (hscale d hd) hvalue⟩
  · rename_i h
    rw [if_neg h] at hround
    exact Option.map_eq_none_iff.mp hround

end Decimal
end Covenant
