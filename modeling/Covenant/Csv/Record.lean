/-
# Comma-separated records

Records end with a line feed, a carriage return or both; blank lines are no
records, and a byte order mark in front is passed over. Fields are separated by
commas. A quote that opens a field starts a quoted part, in which a quote is
written twice; what follows the closing quote is appended. A quoted part that is
never closed runs to the end.

Key definitions: `Csv.Position`, `Csv.Record`, `Csv.records`.
-/

namespace Covenant
namespace Csv

/-- Where the reading of a record starts: its number, its line counted from one, and the number
of bytes before it. -/
structure Position where
  record : Nat
  line : Nat
  byte : Nat
deriving DecidableEq

/-- One record: the bytes of its fields. -/
structure Record where
  position : Position
  fields : List (List UInt8)

/-- What part of a field is being read: the start, inside or outside of quotes. -/
inductive Part where
  | opening
  | plain
  | quoted
  | closing
deriving DecidableEq

/-- Whether a byte ends a record. -/
def endsRecord (b : UInt8) : Bool := b == 0x0a || b == 0x0d

/-- The fields of a record, the first of them from the bytes already read of it, newest first; how
many bytes the record takes up with the one that ends it, `used` of them before; and the bytes
after it. -/
def scanRecord (used : Nat) : Part → List UInt8 → List UInt8 →
    List (List UInt8) × Nat × List UInt8
  | _, field, [] => ([field.reverse], used, [])
  | part, field, b :: rest =>
    if part = .quoted then
      if b = 0x22 then scanRecord (used + 1) .closing field rest
      else scanRecord (used + 1) .quoted (b :: field) rest
    else if b = 0x22 ∧ part = .opening then scanRecord (used + 1) .quoted field rest
    else if b = 0x22 ∧ part = .closing then scanRecord (used + 1) .quoted (b :: field) rest
    else if b = 0x2c then
      let (fields, used, rest) := scanRecord (used + 1) .opening [] rest
      (field.reverse :: fields, used, rest)
    else if endsRecord b then ([field.reverse], used + 1, rest)
    else scanRecord (used + 1) .plain (b :: field) rest

/-- The position after a record that took up the bytes `taken`. -/
def Position.advance (p : Position) (taken : List UInt8) : Position :=
  ⟨p.record + 1, p.line + taken.count 0x0a, p.byte + taken.length⟩

/-- At most so many records from a position on. -/
def recordsFrom : Nat → Position → List UInt8 → List Record
  | 0, _, _ => []
  | most + 1, position, bytes =>
    match bytes.dropWhile endsRecord with
    | [] => []
    | start =>
      let (fields, used, rest) := scanRecord (bytes.takeWhile endsRecord).length .opening [] start
      ⟨position, fields⟩ :: recordsFrom most (position.advance (bytes.take used)) rest

/-- The records of a text, from its first byte on. -/
def records (bytes : List UInt8) : List Record :=
  match bytes with
  | 0xef :: 0xbb :: 0xbf :: rest => recordsFrom rest.length ⟨0, 1, 3⟩ rest
  | _ => recordsFrom bytes.length ⟨0, 1, 0⟩ bytes

end Csv
end Covenant
