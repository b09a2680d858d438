/-
# Bytes in hexadecimal

Two digits a byte, the high half first. Written in lower case by `Hex.ofBytes`,
read in either by `Hex.bytes?`.

Key definitions: `Hex.ofBytes`, `Hex.bytes?`.
-/

namespace Covenant
namespace Hex

/-- The character of a digit `0 … 15`. -/
def char (d : Nat) : Char := if d < 10 then Char.ofNat (48 + d) else Char.ofNat (87 + d)

/-- The digit that the character `c` stands for, in either case. -/
def digit? (c : Char) : Option Nat :=
  let n := c.toNat
  if 48 ≤ n ∧ n ≤ 57 then some (n - 48)
  else if 97 ≤ n ∧ n ≤ 102 then some (n - 87)
  else if 65 ≤ n ∧ n ≤ 70 then some (n - 55)
  else none

/-- The two digits of the byte `b`. -/
def ofByte (b : UInt8) : List Char := [char (b.toNat / 16), char (b.toNat % 16)]

/-- The digits of bytes. -/
def ofBytes (bytes : List UInt8) : List Char := bytes.flatMap ofByte

/-- The bytes that pairs of digits stand for. -/
def bytes? : List Char → Option (List UInt8)
  | [] => some []
  | [_] => none
  | high :: low :: rest => do
    let h ← digit? high
    let l ← digit? low
    let bytes ← bytes? rest
    return UInt8.ofNat (16 * h + l) :: bytes

end Hex
end Covenant
