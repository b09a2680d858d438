/-
# What arithmetic keeps

A relation `R` between decimals is a congruence if `R a a'` and `R b b'` make
`a` and `a'` compare alike with `b` and `b'`, and make every operation come to
related results on both sides or to none on either. Of a quotient this is asked
where the two divisions are among those of `D`; a divisor of at most 64 bits
always is. Related decimals pass for the same, `a.agrees b`, and so do maps of
them.

Key definitions: `Decimal.Additive`, `Decimal.Congruence`.
Key theorems: `Decimal.Congruence.max`, `Decimal.Congruence.min`,
`Decimal.Congruence.agrees`, `OrderedMap.agrees_iff_related`.
-/
import Covenant.Decimal.Arithmetic
import Covenant.Observable
import Covenant.Proofs.Ordered

namespace Covenant
namespace Decimal

/-- Sums and differences of decimals related by `R` are related, and so is zero to itself. -/
structure Additive (R : Decimal → Decimal → Prop) : Prop where
  zero : R .zero .zero
  add {a a' b b' : Decimal} : R a a' → R b b' → Option.Rel R (a.add b) (a'.add b')
  sub {a a' b b' : Decimal} : R a a' → R b b' → Option.Rel R (a.sub b) (a'.sub b')

/-- Arithmetic keeps `R`: decimals related by it compare alike, and so do what `add`, `sub`, `mul`,
`neg` and, for divisions among those of `D`, `div` make of them. -/
structure Congruence (R D : Decimal → Decimal → Prop) : Prop extends Additive R where
  refl (a : Decimal) : R a a
  compare {a a' b b' : Decimal} : R a a' → R b b' → a.compare b = a'.compare b'
  isZero {a a' : Decimal} : R a a' → a.isZero = a'.isZero
  neg {a a' : Decimal} : R a a' → R a.neg a'.neg
  mul {a a' b b' : Decimal} : R a a' → R b b' → Option.Rel R (a.mul b) (a'.mul b')
  div {a a' b b' : Decimal} : R a a' → R b b' → b.isZero = false → D a b → D a' b' →
    Option.Rel R (a.div b) (a'.div b')
  narrow {b : Decimal} (a : Decimal) : b.isZero = false → b.mantissa < UInt64.size → D a b

namespace Congruence

variable {R D : Decimal → Decimal → Prop} {a a' b b' : Decimal}

theorem max (hR : Congruence R D) (ha : R a a') (hb : R b b') : R (a.max b) (a'.max b') := by
  unfold Decimal.max
  rw [hR.compare ha hb]
  split
  · exact hb
  · exact ha

theorem min (hR : Congruence R D) (ha : R a a') (hb : R b b') : R (a.min b) (a'.min b') := by
  unfold Decimal.min
  rw [hR.compare ha hb]
  split
  · exact hb
  · exact ha

/-- Related decimals pass for the same: `a` compares with `b` as `b` does with itself. -/
theorem agrees (hR : Congruence R D) (h : R a b) : a.agrees b = true := by
  unfold Decimal.agrees
  rw [hR.compare h (hR.refl b)]
  simp [Decimal.compare]

end Congruence
end Decimal

/-! ### Maps of decimals -/

namespace OrderedMap

variable {R D : Decimal → Decimal → Prop} {κ : Type} [Ord κ] [DecidableEq κ]
  {m m' : OrderedMap κ Decimal}

/-- `m.agrees m'` decides whether the keys are the same and the values agree. -/
theorem agrees_iff_related :
    m.agrees m' = true ↔ Related (fun x y => x.agrees y = true) m m' := by
  have hentries : ∀ l l' : List (κ × Decimal), entriesAgree l l' = true ↔
      List.Forall₂ (fun e e' => e.1 = e'.1 ∧ e.2.agrees e'.2 = true) l l' := by
    intro l
    induction l with
    | nil =>
      intro l'
      cases l' <;> simp [entriesAgree]
    | cons e l ih =>
      intro l'
      cases l' <;> simp [entriesAgree, ih]
  exact hentries _ _

theorem Related.agrees (hR : Decimal.Congruence R D) (h : Related R m m') : m.agrees m' = true :=
  agrees_iff_related.mpr (h.imp fun _ _ => hR.agrees)

end OrderedMap

end Covenant
