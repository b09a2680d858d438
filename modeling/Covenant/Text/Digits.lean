/-
# Decimal digits

The digits of a natural number, `Digits.ofNat`, the number of a digit string,
`Digits.value`, and numbers written with a least width.

Key definitions: `Digits.ofNat`, `Digits.padded`, `Digits.value`,
`Digits.digit?`.
-/

namespace Covenant
namespace Digits

/-- The character of a digit `0 … 9`. -/
def char (d : Nat) : Char := Char.ofNat (48 + d)

/-- The digit that the character `c` stands for. -/
def digit? (c : Char) : Option Nat :=
  if 48 ≤ c.toNat ∧ c.toNat ≤ 57 then some (c.toNat - 48) else none

/-- Whether a character is one of `0 … 9`. -/
def isDigit (c : Char) : Bool := (digit? c).isSome

/-- The digits of a number, the most significant first; zero has one digit. -/
def ofNat (n : Nat) : List Char :=
  if n < 10 then [char n] else ofNat (n / 10) ++ [char (n % 10)]
termination_by n
decreasing_by omega

/-- The digits of `n`, with zeros in front up to `width`. -/
def padded (width n : Nat) : List Char :=
  List.replicate (width - (ofNat n).length) '0' ++ ofNat n

/-- The number that a string of digits denotes; other characters count as zero. -/
def value (cs : List Char) : Nat :=
  cs.foldl (fun n c => 10 * n + (digit? c).getD 0) 0

/-- The number denoted by a text of one or more digits, with a plus sign in front or not. -/
def natural? (cs : List Char) : Option Nat :=
  let digits := match cs with
    | '+' :: rest => rest
    | _ => cs
  if digits ≠ [] ∧ digits.all isDigit then some (value digits) else none

/-- A number in decimal notation. -/
def text (n : Nat) : String := String.ofList (ofNat n)

end Digits
end Covenant
