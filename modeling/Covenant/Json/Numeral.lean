/-
# Numbers in JSON

A number is kept as it is written, a `Numeral`: sign, whole part, places and
exponent. Its decimal is exact for an integer of 64 bits, with or without sign.
Any other number is first made a `Double`: as many of its digits as fit in 64
bits, times or divided by a power of ten, both steps rounded; the decimal is
then read from the double's shortest text.

Key definitions: `Numeral`, `Numeral.natural?`, `Numeral.decimal?`.
-/
import Covenant.Decimal.Text
import Covenant.Double

namespace Covenant

/-- A number as it is written: digits before and after the point, and an exponent. -/
structure Numeral where
  negative : Bool
  whole : List Char
  places : List Char
  exponent : Option Int
deriving DecidableEq

namespace Numeral

/-- The natural number `n` as it is written. -/
def ofNat (n : Nat) : Numeral := ⟨false, Digits.ofNat n, [], none⟩

/-- The characters of a number. -/
def toChars (n : Numeral) : List Char :=
  (if n.negative then ['-'] else []) ++ n.whole ++
    (if n.places = [] then [] else '.' :: n.places) ++
    match n.exponent with
    | none => []
    | some e => 'e' :: (if e < 0 then ['-'] else []) ++ Digits.ofNat e.natAbs

/-- The absolute value, if the number is written without places and exponent. -/
def magnitude? (n : Numeral) : Option Nat :=
  if n.places = [] ∧ n.exponent = none then some (Digits.value n.whole) else none

/-- The natural number of 64 bits, if the number is written as one. -/
def natural? (n : Numeral) : Option Nat := do
  let m ← n.magnitude?
  if n.negative = false ∧ m < UInt64.size then some m else none

/-- The integer, if the number is written as one and has 64 bits, with a sign or without. -/
def integer? (n : Numeral) : Option Int := do
  let m ← n.magnitude?
  if n.negative = false ∧ m < UInt64.size then some m
  else if n.negative = true ∧ 0 < m ∧ 2 * m ≤ UInt64.size then some (-(m : Int))
  else none

/-- Appends digits to `m` as long as it has 64 bits; with the digits that are left. -/
def absorb (m : Nat) : List Char → Nat × List Char
  | [] => (m, [])
  | c :: rest =>
    let next := 10 * m + (Digits.digit? c).getD 0
    if next < UInt64.size then absorb next rest else (m, c :: rest)

/-- The leading digits as a number of 64 bits, and the power of ten to go with it. -/
def leading (n : Numeral) : Nat × Int :=
  let (m, wholeLeft) := absorb 0 n.whole
  let (m, placesLeft) := absorb m n.places
  (m, (wholeLeft.length : Int) - (n.places.length - placesLeft.length) + n.exponent.getD 0)

/-- The power `10 ^ e` as a double. -/
def powerOfTen? (e : Nat) : Option Double := Double.nearest? (Decimal.tenTo e) 1

/-- The largest power of ten that is a double is `10 ^ 308`. -/
def largestPower : Nat := 308

/-- The double `x` divided by the largest power of ten so many times, and then by `10 ^ e`. -/
def divideDown (x : Double) : Nat → Nat → Option Double
  | 0, e => do x.div? (← powerOfTen? e)
  | times + 1, e =>
    if x.isZero then some x
    else do
      let p ← powerOfTen? largestPower
      let y ← x.div? p
      divideDown y times e

/-- The double `x` divided by `10 ^ e`, one power of ten at a time. -/
def scaleDown (x : Double) (e : Nat) : Option Double :=
  let times := (e - 1) / largestPower
  divideDown x times (e - largestPower * times)

/-- The double `x` multiplied by `10 ^ e`. -/
def scaleUp (x : Double) (e : Nat) : Option Double :=
  if e ≤ largestPower then do x.mul? (← powerOfTen? e)
  else if x.isZero then some x
  else none

/-- The double of the number without its sign. -/
def double? (n : Numeral) : Option Double := do
  let (m, e) := n.leading
  let x ← Double.nearest? m 1
  if 0 ≤ e then scaleUp x e.toNat else scaleDown x (-e).toNat

/-- The decimal that a number denotes, if it is in range. -/
def decimal? (n : Numeral) : Option Decimal :=
  match n.integer? with
  | some i => Decimal.ofUnsignedZero? (decide (i < 0)) i.natAbs 0
  | none => do
    let x ← n.double?
    (Decimal.readPlain ((if n.negative then ['-'] else []) ++ x.toChars)).toOption

end Numeral
end Covenant
