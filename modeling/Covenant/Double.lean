/-
# Doubles

Numbers of double precision that are not negative: significand times a power of
two, the significand below 2^53 and the exponent from -1074 to 971. Results are
rounded by `Double.nearest?` to the nearest double, a half to the even
significand; `none` stands for what is too large. In text a double has the
fewest digits that are still nearer to it than to any other, and no exponent.

Key definitions: `Double.nearest?`, `Double.mul?`, `Double.div?`,
`Double.toChars`.
-/
import Covenant.Decimal.Arithmetic
import Covenant.Text.Digits

namespace Covenant

/-- The number `significand * 2 ^ exponent`. -/
structure Double where
  significand : Nat
  exponent : Int
deriving DecidableEq

namespace Double

/-- The least significand of full precision, `2 ^ 52`. -/
def leastFull : Nat := 4503599627370496

/-- The power `base ^ e`, with `e` of either sign, as numerator and denominator. -/
def power (base : Nat) (e : Int) : Nat × Nat :=
  if 0 ≤ e then (Nat.pow base e.toNat, 1) else (1, Nat.pow base (-e).toNat)

/-- The number as a fraction. -/
def fraction (x : Double) : Nat × Nat :=
  let (n, d) := power 2 x.exponent
  (x.significand * n, d)

/-- The double nearest to `n / d`. -/
def nearest? (n d : Nat) : Option Double :=
  if n = 0 then some ⟨0, 0⟩
  else
    let guess : Int := (n.log2 : Int) - d.log2 - 53
    let fits (e : Int) : Bool :=
      let (p, q) := power 2 e
      decide (n * q / (d * p) < 2 * leastFull)
    let exponent := max (-1074) (if fits guess then guess else guess + 1)
    let (p, q) := power 2 exponent
    let significand := Decimal.roundDiv (n * q) (d * p)
    let (significand, exponent) :=
      if significand = 2 * leastFull then (leastFull, exponent + 1) else (significand, exponent)
    if 971 < exponent then none else some ⟨significand, exponent⟩

/-- Whether the number is zero. -/
def isZero (x : Double) : Bool := x.significand == 0

/-- The product of `x` and `y`, rounded. -/
def mul? (x y : Double) : Option Double :=
  nearest? (x.fraction.1 * y.fraction.1) (x.fraction.2 * y.fraction.2)

/-- The quotient of `x` by a `y` other than zero, rounded. -/
def div? (x y : Double) : Option Double :=
  nearest? (x.fraction.1 * y.fraction.2) (x.fraction.2 * y.fraction.1)

/-! ### Shortest text -/

/-- The multiple of `10 ^ e` that stands for the number and for no other double, if there is one:
of two the nearer, of two as near the larger. -/
def onGrid? (x : Double) (e : Int) : Option Nat :=
  let m := x.significand
  let low := if m = leastFull ∧ -1074 < x.exponent then 4 * m - 1 else 4 * m - 2
  let high := 4 * m + 2
  let (two, half) := power 2 (x.exponent - 2)
  let (ten, tenth) := power 10 e
  let n := two * tenth
  let d := half * ten
  let below := 4 * m * n / d
  let above := below + 1
  let inclusive := m % 2 == 0
  let lowHit := decide (low * n < below * d) || (inclusive && low * n == below * d)
  let highHit := decide (above * d < high * n) || (inclusive && above * d == high * n)
  if lowHit && highHit then
    some (if 2 * (4 * m * n % d) < d then below else above)
  else if lowHit then some below
  else if highHit then some above
  else none

/-- Digits and power of ten of the coarsest grid with a multiple that stands for the number, among
the `n` grids from `10 ^ e` down. -/
def coarsest (x : Double) : Nat → Int → Nat × Int
  | 0, e => (0, e)
  | n + 1, e =>
    match x.onGrid? e with
    | some digits => (digits, e)
    | none => coarsest x n (e - 1)

/-- The digits of `d · 10 ^ e`, without an exponent. -/
def positional (d : Nat) (e : Int) : List Char :=
  if 0 ≤ e then Digits.ofNat d ++ List.replicate e.toNat '0'
  else
    let places := (-e).toNat
    let digits := Digits.padded (places + 1) d
    digits.take (digits.length - places) ++ '.' :: digits.drop (digits.length - places)

/-- The shortest text of the number. -/
def toChars (x : Double) : List Char :=
  if x.isZero then ['0']
  else
    let (d, e) := coarsest x 640 309
    positional d e

end Double
end Covenant
