/-
# Decimal numbers

A decimal is a sign, a mantissa of 96 bits and a scale from 0 to 28, and denotes
`± mantissa / 10 ^ scale`. The scale is part of the value (`1.50` is not `1.5`)
although order and numerical agreement ignore it, and zero keeps a sign.

Key definitions: `Decimal`, `Decimal.limit`, `Decimal.unscaled`,
`Decimal.compare`, `Decimal.agrees`.
-/

namespace Covenant

/-- The least number that a mantissa of 96 bits cannot hold, `2 ^ 96`. -/
def Decimal.limit : Nat := 79228162514264337593543950336

/-- A decimal number: `± mantissa / 10 ^ scale`. -/
structure Decimal where
  negative : Bool
  mantissa : Nat
  scale : Nat
  mantissa_lt : mantissa < Decimal.limit
  scale_le : scale ≤ 28
deriving DecidableEq

namespace Decimal

/-- The decimal of these parts, if they are in range. -/
def of? (negative : Bool) (mantissa scale : Nat) : Option Decimal :=
  if h : mantissa < limit ∧ scale ≤ 28 then some ⟨negative, mantissa, scale, h.1, h.2⟩ else none

/-- The decimal of these parts, if they are in range, zero without a sign. -/
def ofUnsignedZero? (negative : Bool) (mantissa scale : Nat) : Option Decimal :=
  of? (negative && mantissa != 0) mantissa scale

/-- The decimal of a mantissa and a scale that are known to be in range. -/
def literal (mantissa scale : Nat)
    (h : (of? false mantissa scale).isSome = true := by exact Eq.refl true) : Decimal :=
  (of? false mantissa scale).get h

/-- The whole number `i` as a decimal of scale 0. -/
def ofInt (i : Int) (h : i.natAbs < limit) : Decimal :=
  ⟨decide (i < 0), i.natAbs, 0, h, by decide⟩

/-- The natural number `n` as a decimal of scale 0. -/
def ofNat (n : Nat) (h : n < limit) : Decimal := ⟨false, n, 0, h, by decide⟩

/-- The decimal `0`. -/
def zero : Decimal := ofNat 0 (by decide)

/-- The decimal `1`. -/
def one : Decimal := ofNat 1 (by decide)

instance : Inhabited Decimal := ⟨zero⟩

/-- Whether `d` is zero, of either sign and any scale. -/
def isZero (d : Decimal) : Bool := d.mantissa == 0

/-- The mantissa of `d` with its sign. -/
def unscaled (d : Decimal) : Int := if d.negative then -d.mantissa else d.mantissa

/-- The power `10 ^ k`: the units of the last of `k` places in one. -/
def tenTo (k : Nat) : Nat := Nat.pow 10 k

theorem tenTo_succ (k : Nat) : tenTo (k + 1) = tenTo k * 10 := rfl

theorem tenTo_pos (k : Nat) : 0 < tenTo k := Nat.pow_pos (by decide)

/-- The order of the numbers that `a` and `b` denote. -/
def compare (a b : Decimal) : Ordering :=
  Ord.compare (a.unscaled * tenTo b.scale) (b.unscaled * tenTo a.scale)

/-- Whether `a` and `b` denote the same number. -/
def agrees (a b : Decimal) : Bool := (a.compare b).isEq

/-- The number of the opposite sign; zero changes its sign too. -/
def neg (d : Decimal) : Decimal := { d with negative := !d.negative }

/-- The larger of `a` and `b`; of two that agree, the first. -/
def max (a b : Decimal) : Decimal := if a.compare b = .lt then b else a

/-- The smaller of `a` and `b`; of two that agree, the first. -/
def min (a b : Decimal) : Decimal := if a.compare b = .gt then b else a

end Decimal
end Covenant
