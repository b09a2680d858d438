/-
# Rows under named columns

The first record names the columns; the others are rows, each of as many fields
as there are columns. White space around names and fields does not count. A row
is read by the names of the columns that are asked for, in any order among
others; if the names are not Unicode text, by the order of the columns. Asked
for the `n` columns of a `Vector Csv.Column n`, it has `n` values.

Key definitions: `Csv.Column`, `Csv.Error`, `Csv.rows`, `Csv.Error.message`.
-/
import Covenant.Csv.Record
import Covenant.Text.Blank
import Covenant.Text.Bytes
import Covenant.Text.Digits

namespace Covenant
namespace Csv

/-- A column that is asked for; one that is not required is empty where it is missing. -/
structure Column where
  name : String
  required : Bool

/-- Why the columns of a row cannot be told. -/
inductive ColumnFault where
  | repeated (name : String)
  | missing (name : String)
  | tooFew (found expected : Nat)
deriving DecidableEq

/-- Why a row cannot be read: its width, bytes that are no text, or its columns. -/
inductive Error where
  | unequalLengths (position : Position) (expected found : Nat)
  | notText (position : Position) (field validBytes : Nat)
  | columns (position : Position) (fault : ColumnFault)
deriving DecidableEq

/-- Record, line and byte of a position, as messages name it. -/
def Position.text (p : Position) : String :=
  "record " ++ Digits.text p.record ++ " (line: " ++ Digits.text p.line ++ ", byte: " ++
    Digits.text p.byte ++ ")"

/-- Names the column that is `repeated` or `missing`, or how many fields were found of how many. -/
def ColumnFault.message : ColumnFault → String
  | repeated name => s!"duplicate field `{name}`"
  | missing name => s!"missing field `{name}`"
  | tooFew found expected =>
    "invalid length " ++ Digits.text found ++ ", expected struct CsvRow with " ++
      Digits.text expected ++ " elements"

/-- Names the position of the row, with the two lengths or the field and the byte at which it is no
text; or the fault of its columns. -/
def Error.message : Error → String
  | unequalLengths position expected found =>
    "CSV error: " ++ position.text ++ ": found record with " ++ Digits.text found ++
      " fields, but the previous record has " ++ Digits.text expected ++ " fields"
  | notText position field validBytes =>
    "CSV parse error: record " ++ Digits.text position.record ++ " (line " ++
      Digits.text position.line ++ ", field: " ++ Digits.text field ++ ", byte: " ++
      Digits.text position.byte ++ "): invalid utf-8: invalid UTF-8 in field " ++
      Digits.text field ++ " near byte index " ++ Digits.text validBytes
  | columns position fault =>
    "CSV deserialize error: " ++ position.text ++ ": " ++ fault.message

/-! ### Fields as text -/

/-- The text of a field, without white space around it. -/
def fieldText? (bytes : List UInt8) : Option String :=
  (Text.ofBytes? bytes).map Text.trim

/-- The length of the longest part from the start that is Unicode text, of at most `n` bytes. -/
def validPart (bytes : List UInt8) : Nat → Nat
  | 0 => 0
  | n + 1 => if (fieldText? (bytes.take (n + 1))).isSome then n + 1 else validPart bytes n

/-- Whether a byte is white space of ASCII. -/
def isAsciiBlank (b : UInt8) : Bool :=
  b == 0x20 || b == 0x09 || b == 0x0a || b == 0x0c || b == 0x0d

/-- The texts of fields numbered from `index`; or the number of the first that has none, and how far
it is text. -/
def fieldTexts (index : Nat) : List (List UInt8) → Except (Nat × Nat) (List String)
  | [] => .ok []
  | field :: rest =>
    match fieldText? field with
    | some text => (fieldTexts (index + 1) rest).map (text :: ·)
    | none =>
      let inner := field.dropWhile isAsciiBlank
      .error (index, validPart inner inner.length)

/-! ### Rows -/

/-- The first name among those of `columns` that comes twice. -/
def repeated? {n : Nat} (columns : Vector Column n) (seen : List String) :
    List String → Option String
  | [] => none
  | name :: names =>
    if columns.any fun c => c.name == name then
      if seen.contains name then some name else repeated? columns (name :: seen) names
    else repeated? columns seen names

/-- The value of the column `c` among `named` fields. -/
def pick (named : List (String × String)) (c : Column) : Except ColumnFault String :=
  match named.lookup c.name with
  | some value => .ok value
  | none => if c.required then .error (.missing c.name) else .ok ""

/-- The value of the column numbered `index` out of `total`, in the order of the `fields`. -/
def pickInOrder (total : Nat) (fields : List String) (c : Column) (index : Nat) :
    Except ColumnFault String :=
  match fields[index]? with
  | some value => .ok value
  | none => if c.required then .error (.tooFew index total) else .ok ""

variable {n : Nat}

/-- The values of `columns` in a row, under `names` or by order: one for each column. -/
def select (columns : Vector Column n) (names : Option (List String)) (fields : List String) :
    Except ColumnFault (Vector String n) :=
  match names with
  | some names =>
    match repeated? columns [] names with
    | some name => .error (.repeated name)
    | none => columns.mapM (pick (names.zip fields))
  | none => columns.zipIdx.mapM fun c => pickInOrder n fields c.1 c.2

/-- The values of `columns` in one record `r`, which must have `width` fields. -/
def row (columns : Vector Column n) (names : Option (List String)) (width : Nat) (r : Record) :
    Except Error (Vector String n) :=
  if r.fields.length ≠ width then
    .error (.unequalLengths r.position width r.fields.length)
  else
    match fieldTexts 0 r.fields with
    | .error (field, validBytes) => .error (.notText r.position field validBytes)
    | .ok fields => (select columns names fields).mapError (.columns r.position)

/-- The rows of a text, each with a value for every one of the `columns`. -/
def rows (columns : Vector Column n) (bytes : List UInt8) : List (Except Error (Vector String n)) :=
  match records bytes with
  | [] => []
  | header :: data =>
    let names := (fieldTexts 0 header.fields).toOption
    data.map (row columns names header.fields.length)

end Csv
end Covenant
