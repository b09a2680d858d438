/-
# Arithmetic on decimals

Every operation computes the exact result and then brings it into range: as few
digits as possible are dropped, the rest is rounded to the nearest, a half to
the even neighbour. `none` means that the whole part does not fit in 96 bits.

A sum and a product keep the scale that the operands call for. A quotient is
extended until it is exact or full, and then loses zeros in steps of eight,
four, two and one digits, each step looked at only when the binary form of the
mantissa allows it; so 10 / 4 is `2.50`. One that outgrows 96 bits gives up its
last digit; there a divisor of more than 64 bits can turn a half upwards.

Key definitions: `Decimal.fit`, `Decimal.add`, `Decimal.sub`, `Decimal.mul`,
`Decimal.div`, `Decimal.roundTo`.
-/
import Covenant.Decimal.Basic

namespace Covenant
namespace Decimal

/-- The quotient `n / d` rounded to the nearest whole number, a half to the even one. -/
def roundDiv (n d : Nat) : Nat :=
  let q := n / d
  let r := n % d
  if 2 * r < d then q else if d < 2 * r then q + 1 else q + q % 2

/-- The least number `≥ k` of digits without which `m` has at most 96 bits. -/
def leastDropped (m k : Nat) : Nat :=
  if m / tenTo k < limit then k else leastDropped m (k + 1)
termination_by m / tenTo k
decreasing_by
  rename_i h
  unfold limit at h
  rw [tenTo_succ, ← Nat.div_div_eq_div_mul]
  exact Nat.div_lt_self (by omega) (by decide)

/-- Mantissa and scale nearest to `m / 10 ^ s` that are in range. -/
def fit (m s : Nat) : Option (Nat × Nat) :=
  let dropped := leastDropped m (s - 28)
  if s < dropped then none
  else
    let rounded := roundDiv m (tenTo dropped)
    if rounded < limit then some (rounded, s - dropped)
    else if dropped < s then some (roundDiv rounded 10, s - dropped - 1)
    else none

/-- The sum of `a` and `b`, neither of which is zero. -/
def addNonzero (a b : Decimal) : Option Decimal :=
  let scale := Max.max a.scale b.scale
  let sum := a.unscaled * tenTo (scale - a.scale) + b.unscaled * tenTo (scale - b.scale)
  match fit sum.natAbs scale with
  | some (m, s) => of? (decide (sum < 0)) m s
  | none => none

/-- The sum of `a` and `b`; zero gives way to the other operand, which keeps its own scale. -/
def add (a b : Decimal) : Option Decimal :=
  if a.isZero then some b else if b.isZero then some a else addNonzero a b

/-- The difference of `a` and `b`; zero gives way to the other operand, which keeps its own
scale. -/
def sub (a b : Decimal) : Option Decimal :=
  if a.isZero then some (if b.isZero then b else b.neg)
  else if b.isZero then some a
  else addNonzero a b.neg

/-- The product. A product of two mantissas of 32 bits that starts beyond the 47th place is the
plain zero; any other that is rounded to zero keeps its scale, and its sign if a mantissa has more
than 32 bits. -/
def mul (a b : Decimal) : Option Decimal :=
  let narrow := decide (a.mantissa < UInt32.size ∧ b.mantissa < UInt32.size)
  if a.isZero || b.isZero then some zero
  else if narrow && decide (47 < a.scale + b.scale) then some zero
  else
    match fit (a.mantissa * b.mantissa) (a.scale + b.scale) with
    | some (m, s) => of? ((a.negative != b.negative) && (m != 0 || !narrow)) m s
    | none => none

/-- A quotient on the way: whole part at a scale, and whether digits were produced after the
point of exactness was first looked for. -/
structure Quotient where
  whole : Nat
  scale : Int
  extended : Bool

/-- The largest `p ≤ bound` for which `q * 10 ^ p` still fits in 96 bits. -/
def headroom (q : Nat) : Nat → Nat
  | 0 => 0
  | p + 1 => if q * tenTo (p + 1) < limit then p + 1 else headroom q p

theorem headroom_le (q : Nat) : ∀ bound, headroom q bound ≤ bound
  | 0 => Nat.le_refl 0
  | p + 1 => by
    unfold headroom
    split
    · exact Nat.le_refl _
    · exact Nat.le_succ_of_le (headroom_le q p)

/-- Whether the quotient of `n` counts as inexact once it has outgrown 96 bits: it leaves a
remainder, or the divisor has more than 64 bits and `n` more binary digits than it. -/
def isInexact (n divisor : Nat) : Bool :=
  n % divisor != 0 || decide (UInt64.size ≤ divisor ∧ divisor.log2 < n.log2)

/-- Gives up one place of a quotient that has outgrown 96 bits; an `inexact` one is taken to go on
after its last digit, so that a five there is rounded up. -/
def shrink (q : Nat) (scale : Int) (inexact extended : Bool) : Option Quotient :=
  if scale - 1 < 0 then none
  else
    let r := q % 10
    let up := decide (5 < r) || (r == 5 && (inexact || q / 10 % 2 == 1))
    some ⟨q / 10 + (if up then 1 else 0), scale - 1, extended⟩

/-- Extends the quotient `q` with remainder `r`, at most nine digits at a time, until it is exact
at a scale that is not negative, or full. -/
def extendQuotient (divisor q r : Nat) (scale : Int) (extended : Bool) : Option Quotient :=
  if r = 0 then
    if 0 ≤ scale then some ⟨q, scale, extended⟩
    else
      let p := Min.min 9 (-scale).toNat
      if limit ≤ q * tenTo p then none
      else extendQuotient divisor (q * tenTo p) 0 (scale + p) extended
  else
    let p := headroom q (Min.min 9 (28 - scale).toNat)
    if p < 9 ∧ (p : Int) + scale < 0 then none
    else if hp : p = 0 then
      let up := decide (divisor < 2 * r) || (2 * r == divisor && q % 2 == 1)
      let rounded := if up then q + 1 else q
      if rounded < limit then some ⟨rounded, scale, true⟩ else shrink rounded scale true true
    else
      let n := r * tenTo p
      let q' := q * tenTo p + n / divisor
      if limit ≤ q' then shrink q' (scale + p) (isInexact n divisor) true
      else extendQuotient divisor q' (n % divisor) (scale + p) true
termination_by (28 - scale).toNat
decreasing_by
  · omega
  · have hle := headroom_le q (Min.min 9 (28 - scale).toNat)
    omega

/-- Drops `k` zeros from a quotient whose mantissa is a multiple of `granule`. -/
def dropZeros (granule k : Nat) (q : Nat × Nat) : Nat × Nat :=
  if q.1 % granule = 0 ∧ k ≤ q.2 ∧ q.1 % tenTo k = 0 then (q.1 / tenTo k, q.2 - k) else q

/-- Drops eight zeros as long as it can be done. -/
def dropEights (q s : Nat) : Nat × Nat :=
  if h : q % UInt32.size = 0 ∧ 8 ≤ s ∧ q % tenTo 8 = 0 then dropEights (q / tenTo 8) (s - 8)
  else (q, s)
termination_by s
decreasing_by omega

/-- Drops the zeros at the end that the binary form of the mantissa gives away: eights as long as
there are any, then at most one group of four, of two and of one. -/
def stripZeros (q s : Nat) : Nat × Nat :=
  dropZeros 2 1 (dropZeros 4 2 (dropZeros 16 4 (dropEights q s)))

/-- The quotient of `a` by a `b` other than zero. -/
def div (a b : Decimal) : Option Decimal :=
  if a.isZero then some zero
  else
    match extendQuotient b.mantissa (a.mantissa / b.mantissa) (a.mantissa % b.mantissa)
        (a.scale - b.scale) false with
    | none => none
    | some quotient =>
      let whole := quotient.whole
      let scale := quotient.scale.toNat
      let (m, s) := if quotient.extended then stripZeros whole scale else (whole, scale)
      ofUnsignedZero? (a.negative != b.negative) m s

/-- The decimal rounded to at most `places` places, a half to the even neighbour. A zero keeps its
sign; any other number that is rounded to zero loses it. -/
def roundTo (places : Nat) (d : Decimal) : Decimal :=
  if d.scale ≤ places then d
  else if d.isZero then (of? d.negative 0 places).getD d
  else
    (ofUnsignedZero? d.negative (roundDiv d.mantissa (tenTo (d.scale - places))) places).getD d

end Decimal
end Covenant
