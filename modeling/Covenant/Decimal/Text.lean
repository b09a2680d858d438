/-
# Decimals in text

A decimal is written by `toText` with a minus sign if it has one and with
exactly as many places as its scale. Reading accepts more: a plus sign, digits
grouped by underscores, digits beyond the precision (the first one dropped
rounds), and an exponent.

Key definitions: `Decimal.toText`, `Decimal.read`, `DecimalError.message`.
-/
import Covenant.Decimal.Arithmetic
import Covenant.Text.Blank
import Covenant.Text.Digits

namespace Covenant

/-- Why a text is not a decimal. -/
inductive DecimalError where
  | empty
  | noDigits
  | secondPoint
  | leadingSeparator
  | unknownCharacter
  | tooManyDigits
  | roundingOverflow
  | malformedExponent
  | exponentTooLarge (exponent : Nat)
  | tooLarge
deriving DecidableEq

/-- What is wrong with the number; neither the text nor the character at fault is named. -/
def DecimalError.message : DecimalError → String
  | empty => "Invalid decimal: empty"
  | noDigits => "Invalid decimal: no digits found"
  | secondPoint => "Invalid decimal: two decimal points"
  | leadingSeparator => "Invalid decimal: must start lead with a number"
  | unknownCharacter => "Invalid decimal: unknown character"
  | tooManyDigits => "Invalid decimal: overflow from too many digits"
  | roundingOverflow => "Invalid decimal: overflow from mantissa after rounding"
  | malformedExponent => "Failed to parse"
  | exponentTooLarge exponent =>
    s!"Scale exceeds the maximum precision allowed: {exponent} > 28"
  | tooLarge => "Number exceeds maximum value that can be represented."

namespace Decimal

/-- The characters of a decimal: sign, whole digits, and as many places as the scale says. -/
def toChars (d : Decimal) : List Char :=
  let digits := Digits.padded (d.scale + 1) d.mantissa
  let whole := digits.take (digits.length - d.scale)
  let places := digits.drop (digits.length - d.scale)
  (if d.negative then ['-'] else []) ++ whole ++ (if d.scale = 0 then [] else '.' :: places)

/-- The decimal `d` in text. -/
def toText (d : Decimal) : String := String.ofList d.toChars

/-- The error of a character `c` that cannot stand where it does. -/
def misplaced (c : Char) : DecimalError :=
  if c = '.' then .secondPoint else if c = '_' then .leadingSeparator else .unknownCharacter

/-- Rounds the mantissa `m` of scale `s` by the first digit `d` that has no place, half up; where
the mantissa would become too large, one more place is given up. -/
def roundDropped (m s d : Nat) : Except DecimalError (Nat × Nat) :=
  if d < 5 then .ok (m, s)
  else if m + 1 < limit then .ok (m + 1, s)
  else if s = 0 then .error .roundingOverflow
  else .ok ((m + 5) / 10, s - 1)

/-- Finishes a number at the first digit `c` that has no place: that digit rounds, and the `rest`
must be digits and separators. A number that cannot be rounded is an error before the `rest` is
looked at. -/
def finishDropped (m s : Nat) (c : Char) (rest : List Char) : Except DecimalError (Nat × Nat) :=
  match if c = '_' then some 0 else Digits.digit? c with
  | none => .error (misplaced c)
  | some d => do
    let rounded ← roundDropped m s d
    match rest.find? fun c => !(Digits.isDigit c || c == '_') with
    | some c => .error (misplaced c)
    | none => return rounded

/-- From this mantissa on, before its last digit was read, a separator at the first dropped place
is passed over; below it such a separator counts as the dropped digit zero. -/
def separatorThreshold : Nat := 1844674407370954906

/-- Reads the digits of a number: `point` tells that the decimal point is behind, `seen` that a
digit is, `m` and `s` are the mantissa and scale so far. -/
def readDigits (point seen : Bool) (m s : Nat) : List Char → Except DecimalError (Nat × Nat)
  | [] => if seen then .ok (m, s) else .error .noDigits
  | c :: rest =>
    if point && decide (28 ≤ s) then
      if c = '_' ∧ separatorThreshold ≤ m / 10 then readDigits point seen m s rest
      else finishDropped m s c rest
    else
      match Digits.digit? c with
      | some d =>
        if 10 * m + d < limit then
          readDigits point true (10 * m + d) (if point then s + 1 else s) rest
        else if point then finishDropped m s c rest
        else .error .tooManyDigits
      | none =>
        if c = '.' ∧ point = false then readDigits true seen m s rest
        else if c = '_' ∧ seen then readDigits point seen m s rest
        else .error (misplaced c)

/-- Reads a number without exponent; zero has no sign. -/
def readPlain (cs : List Char) : Except DecimalError Decimal := do
  let (negative, digits) ← match cs with
    | [] => .error .empty
    | '-' :: rest => .ok (true, rest)
    | '+' :: rest => .ok (false, rest)
    | _ => .ok (false, cs)
  let (m, s) ← readDigits false false 0 0 digits
  match ofUnsignedZero? negative m s with
  | some d => .ok d
  | none => .error .tooLarge

/-- Drops all zeros at the end of the `s` places of `m`. -/
def dropTrailingZeros (m s : Nat) : Nat × Nat :=
  match s with
  | 0 => (m, 0)
  | s + 1 => if m % 10 = 0 then dropTrailingZeros (m / 10) s else (m, s + 1)

/-- The decimal divided by `10 ^ e`: the scale grows, and where it would pass 28 the number is
rounded first, a half away from zero. A number rounded to zero keeps its sign. -/
def shiftRight (d : Decimal) (e : Nat) : Option Decimal :=
  let excess := d.scale + e - 28
  let m := (d.mantissa + tenTo excess / 2) / tenTo excess
  of? d.negative m (d.scale + e - excess)

/-- The decimal multiplied by `10 ^ e`: the scale shrinks as far as it goes, or else the mantissa
grows and zeros among the places are dropped. -/
def shiftLeft (d : Decimal) (e : Nat) : Option Decimal :=
  if e ≤ d.scale then of? d.negative d.mantissa (d.scale - e)
  else do
    let product ← mul d (← of? false (tenTo e) 0)
    let (m, s) := dropTrailingZeros product.mantissa product.scale
    ofUnsignedZero? product.negative m s

/-- The exponent that `cs` denotes, and whether it has a minus sign. -/
def exponent? (cs : List Char) : Option (Bool × Nat) :=
  let (negative, digits) := match cs with
    | '-' :: rest => (true, rest)
    | _ => (false, cs)
  match Digits.natural? digits with
  | some e => if e < UInt32.size then some (negative, e) else none
  | none => none

/-- Reads a number with the `exponent` that follows the first `e` or `E`. -/
def readScientific (base exponent : List Char) : Except DecimalError Decimal := do
  let d ← readPlain base
  match exponent? exponent with
  | none => .error .malformedExponent
  | some (negative, e) =>
    if 28 < e then .error (.exponentTooLarge e)
    else
      match if negative then d.shiftRight e else d.shiftLeft e with
      | some result => .ok result
      | none => .error .tooLarge

/-- Reads a decimal: a plain number, or else one with an exponent. -/
def read (s : String) : Except DecimalError Decimal :=
  match readPlain s.toList with
  | .ok d => .ok d
  | .error e =>
    match Text.splitAt? (fun c => c == 'e' || c == 'E') s with
    | some (base, exponent) => readScientific base.toList exponent.toList
    | none => .error e

end Decimal
end Covenant
