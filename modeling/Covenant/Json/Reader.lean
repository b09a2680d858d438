/-
# Reading JSON

Values are read from bytes, `Json.read?`. At most 127 arrays and objects may
stand inside one another and strings must be Unicode text; what breaks these
rules is passed over as `unread`, so that only a reader who needs it has to
refuse.

Key definitions: `Json.scanString`, `Json.scanNumeral`, `Json.read?`.
-/
import Covenant.Json.Basic
import Covenant.Text.Bytes

namespace Covenant
namespace Json

/-- White space between tokens. -/
def isBlank (b : UInt8) : Bool := b == 0x20 || b == 0x0a || b == 0x0d || b == 0x09

/-- The bytes from the next token on. -/
def skipBlanks (bytes : List UInt8) : List UInt8 := bytes.dropWhile isBlank

/-! ### Strings -/

/-- A part of a string: a byte that stands for itself, or an escaped unit of sixteen bits. -/
inductive Piece where
  | byte (b : UInt8)
  | unit (u : Nat)

/-- The hexadecimal digit that a byte stands for. -/
def hexDigit? (b : UInt8) : Option Nat := Hex.digit? (Char.ofNat b.toNat)

/-- The unit of the four hexadecimal digits `a`, `b`, `c` and `d`. -/
def hexUnit? (a b c d : UInt8) : Option Nat := do
  let a ← hexDigit? a
  let b ← hexDigit? b
  let c ← hexDigit? c
  let d ← hexDigit? d
  return ((16 * a + b) * 16 + c) * 16 + d

/-- The byte that is escaped by the letter or sign `b` after a backslash. -/
def escaped? (b : UInt8) : Option UInt8 :=
  if b = 0x22 ∨ b = 0x5c ∨ b = 0x2f then some b
  else if b = 0x62 then some 8
  else if b = 0x66 then some 12
  else if b = 0x6e then some 10
  else if b = 0x72 then some 13
  else if b = 0x74 then some 9
  else none

/-- Reads a string from after its opening quote to its closing one. -/
def scanString : List UInt8 → Option (List Piece × List UInt8)
  | [] => none
  | b :: rest =>
    if b = 0x22 then some ([], rest)
    else if b = 0x5c then
      match rest with
      | [] => none
      | e :: rest =>
        if e = 0x75 then
          match rest with
          | a :: b :: c :: d :: rest => do
            let u ← hexUnit? a b c d
            let (pieces, rest) ← scanString rest
            return (.unit u :: pieces, rest)
          | _ => none
        else do
          let b ← escaped? e
          let (pieces, rest) ← scanString rest
          return (.byte b :: pieces, rest)
    else if b < 0x20 then none
    else do
      let (pieces, rest) ← scanString rest
      return (.byte b :: pieces, rest)

/-- Whether the unit `u` is the first half of a character beyond the first plane. -/
def isLeading (u : Nat) : Bool := decide (0xd800 ≤ u ∧ u ≤ 0xdbff)

/-- Whether the unit `u` is the second half of a character beyond the first plane. -/
def isTrailing (u : Nat) : Bool := decide (0xdc00 ≤ u ∧ u ≤ 0xdfff)

/-- The bytes of the code point `n`. -/
def codePoint (n : Nat) : List UInt8 := String.utf8EncodeChar (Char.ofNat n)

/-- The bytes of a string's pieces; half a character alone has none. -/
def pieceBytes? : List Piece → Option (List UInt8)
  | [] => some []
  | .byte b :: rest => do return b :: (← pieceBytes? rest)
  | .unit u :: rest =>
    if isLeading u then
      match rest with
      | .unit v :: rest =>
        if isTrailing v then do
          return codePoint (0x10000 + (u - 0xd800) * 0x400 + (v - 0xdc00)) ++ (← pieceBytes? rest)
        else none
      | _ => none
    else if isTrailing u then none
    else do return codePoint u ++ (← pieceBytes? rest)

/-- The text of a string's parts. -/
def pieceText? (pieces : List Piece) : Option String := do Text.ofBytes? (← pieceBytes? pieces)

/-! ### Numbers -/

/-- The character of a byte. -/
def charOf (b : UInt8) : Char := Char.ofNat b.toNat

/-- Whether a byte is a decimal digit. -/
def isDigit (b : UInt8) : Bool := Digits.isDigit (charOf b)

/-- The digits at the front, and the rest. -/
def scanDigits (bytes : List UInt8) : List Char × List UInt8 :=
  ((bytes.takeWhile isDigit).map charOf, bytes.dropWhile isDigit)

/-- Reads the places of a number, if a point comes next. -/
def scanPlaces : List UInt8 → Option (List Char × List UInt8)
  | 0x2e :: rest =>
    let (places, rest) := scanDigits rest
    if places = [] then none else some (places, rest)
  | bytes => some ([], bytes)

/-- Reads the digits of an exponent with a sign. -/
def scanPower (negative : Bool) (bytes : List UInt8) : Option (Option Int × List UInt8) :=
  let (digits, rest) := scanDigits bytes
  let e : Int := Digits.value digits
  if digits = [] then none else some (some (if negative then -e else e), rest)

/-- Reads the exponent of a number, if a letter for it comes next. -/
def scanExponent (bytes : List UInt8) : Option (Option Int × List UInt8) :=
  match bytes with
  | b :: rest =>
    if b = 0x65 ∨ b = 0x45 then
      match rest with
      | 0x2b :: rest => scanPower false rest
      | 0x2d :: rest => scanPower true rest
      | rest => scanPower false rest
    else some (none, bytes)
  | [] => some (none, [])

/-- Reads a number after its sign; a whole part of several digits does not start with zero. -/
def scanMagnitude (negative : Bool) (bytes : List UInt8) : Option (Numeral × List UInt8) :=
  let (whole, rest) := scanDigits bytes
  if whole = [] ∨ (whole.head? = some '0' ∧ whole.length ≠ 1) then none
  else do
    let (places, rest) ← scanPlaces rest
    let (exponent, rest) ← scanExponent rest
    return (⟨negative, whole, places, exponent⟩, rest)

/-- Reads a number. -/
def scanNumeral : List UInt8 → Option (Numeral × List UInt8)
  | 0x2d :: rest => scanMagnitude true rest
  | bytes => scanMagnitude false bytes

/-! ### Values -/

/-- The `value` of a `word` that must come next, and the rest. -/
def scanWord (word : String) (value : Json) (bytes : List UInt8) : Option (Json × List UInt8) :=
  let letters := Text.bytes word
  if letters.isPrefixOf bytes then some (value, bytes.drop letters.length) else none

/-- The array or object `j`, or `unread` if there is no room for it. -/
def inRoom (room : Nat) (j : Json) : Json := if room = 0 then unread else j

/-- An object, or `unread` if its keys cannot be. -/
def ofMembers : Option (List (String × Json)) → Json
  | some members => object members
  | none => unread

mutual

/-- Reads a value with `room` for so many arrays and objects inside one another. -/
def scanValue (room : Nat) : Nat → List UInt8 → Option (Json × List UInt8)
  | 0, _ => none
  | fuel + 1, bytes =>
    let bytes := skipBlanks bytes
    match bytes with
    | [] => none
    | b :: rest =>
      if b = 0x7b then
        match skipBlanks rest with
        | 0x7d :: rest => some (inRoom room (object []), rest)
        | rest => do
          let (members, rest) ← scanMembers (room - 1) fuel rest
          return (inRoom room (ofMembers members), rest)
      else if b = 0x5b then
        match skipBlanks rest with
        | 0x5d :: rest => some (inRoom room (array []), rest)
        | rest => do
          let (items, rest) ← scanItems (room - 1) fuel rest
          return (inRoom room (array items), rest)
      else if b = 0x22 then do
        let (pieces, rest) ← scanString rest
        return (((pieceText? pieces).map string).getD unread, rest)
      else if b = 0x6e then scanWord "null" null bytes
      else if b = 0x74 then scanWord "true" (bool true) bytes
      else if b = 0x66 then scanWord "false" (bool false) bytes
      else do
        let (n, rest) ← scanNumeral bytes
        return (number n, rest)

/-- Reads items up to the end of an array. -/
def scanItems (room : Nat) : Nat → List UInt8 → Option (List Json × List UInt8)
  | 0, _ => none
  | fuel + 1, bytes => do
    let (item, rest) ← scanValue room fuel bytes
    match skipBlanks rest with
    | 0x2c :: rest => do
      let (items, rest) ← scanItems room fuel rest
      return (item :: items, rest)
    | 0x5d :: rest => return ([item], rest)
    | _ => none

/-- Reads members up to the end of an object; there are none if a key cannot be read. -/
def scanMembers (room : Nat) : Nat → List UInt8 →
    Option (Option (List (String × Json)) × List UInt8)
  | 0, _ => none
  | fuel + 1, bytes =>
    match skipBlanks bytes with
    | 0x22 :: rest => do
      let (pieces, rest) ← scanString rest
      match skipBlanks rest with
      | 0x3a :: rest => do
        let (value, rest) ← scanValue room fuel rest
        let member := (pieceText? pieces).map fun key => (key, value)
        match skipBlanks rest with
        | 0x2c :: rest => do
          let (members, rest) ← scanMembers room fuel rest
          return (do return (← member) :: (← members), rest)
        | 0x7d :: rest => return (member.map fun m => [m], rest)
        | _ => none
      | _ => none
    | _ => none

end

/-- How many arrays and objects may stand inside one another; a deeper one is `unread`. -/
def mostNested : Nat := 127

/-- Reads a document: one value, with nothing but white space around it. -/
def read? (bytes : List UInt8) : Option Json := do
  let (j, rest) ← scanValue mostNested (2 * bytes.length + 2) bytes
  if rest.all isBlank then some j else none

/-- Reads a document from text. -/
def readText? (s : String) : Option Json := read? (Text.bytes s)

end Json
end Covenant
