/-
# Dates in text

Two written forms: day, month and year with slashes, for people, and year, month
and day with hyphens, for stored contracts. Both write years outside 0 … 9999
with a sign. Reading is lenient: numbers may be short and follow white space,
and a signed year may have any number of digits, so that `1/7/15` is read as the
first of July of the year 15.

Key definitions: `Date.slashText`, `Date.isoText`, `Date.readSlash`,
`Date.readIso?`.
-/
import Covenant.Calendar.Date
import Covenant.Text.Blank
import Covenant.Text.Digits

namespace Covenant
namespace Date

/-- A year in at least four digits, with a sign if it is not one of 0 … 9999. -/
def yearChars (year : Int) : List Char :=
  let digits := Digits.padded 4 year.natAbs
  if 0 ≤ year ∧ year ≤ 9999 then digits else (if year < 0 then '-' else '+') :: digits

/-- Characters of a date as `dd/MM/yyyy`. -/
def slashChars (d : Date) : List Char :=
  Digits.padded 2 d.day ++ '/' :: Digits.padded 2 d.month ++ '/' :: yearChars d.year

/-- A date as `dd/MM/yyyy`. -/
def slashText (d : Date) : String := String.ofList d.slashChars

/-- Characters of a date as `yyyy-MM-dd`. -/
def isoChars (d : Date) : List Char :=
  yearChars d.year ++ '-' :: Digits.padded 2 d.month ++ '-' :: Digits.padded 2 d.day

/-- A date as `yyyy-MM-dd`. -/
def isoText (d : Date) : String := String.ofList d.isoChars

/-! ### Reading -/

/-- What is read so far, and the characters that remain. -/
abbrev Scanner (α : Type) := List Char → Option (α × List Char)

/-- Reads a number of at most `most` digits after white space; without a bound, all digits. -/
def scanNumber (most : Option Nat) : Scanner Nat := fun cs =>
  let cs := cs.dropWhile Text.isBlank
  let run := cs.takeWhile Digits.isDigit
  let digits := match most with
    | some n => run.take n
    | none => run
  if digits = [] then none else some (Digits.value digits, cs.drop digits.length)

/-- Reads a year after white space: up to four digits, or a sign and any number of digits. -/
def scanYear : Scanner Int := fun cs =>
  match cs.dropWhile Text.isBlank with
  | '-' :: rest => if rest.head?.any Digits.isDigit
      then (scanNumber none rest).map fun (n, rest) => (-(n : Int), rest) else none
  | '+' :: rest => if rest.head?.any Digits.isDigit
      then (scanNumber none rest).map fun (n, rest) => ((n : Int), rest) else none
  | cs => (scanNumber (some 4) cs).map fun (n, rest) => ((n : Int), rest)

/-- Passes over one character that must be there. -/
def expect (c : Char) : Scanner Unit
  | [] => none
  | d :: rest => if d = c then some ((), rest) else none

/-- A text that is no date in `dd/MM/yyyy`. -/
structure Unreadable where
  input : String
deriving DecidableEq

/-- Quotes the text that was to be a date. -/
def Unreadable.message (e : Unreadable) : String :=
  s!"invalid date '{e.input}': expected dd/MM/yyyy"

/-- The date that characters without white space around them denote as `dd/MM/yyyy`. -/
def ofSlashChars? (cs : List Char) : Option Date := do
  let (day, cs) ← scanNumber (some 2) cs
  let (_, cs) ← expect '/' cs
  let (month, cs) ← scanNumber (some 2) cs
  let (_, cs) ← expect '/' cs
  let (year, cs) ← scanYear cs
  if cs = [] then of? year month day else none

/-- Reads a date as `dd/MM/yyyy`; white space around it does not matter. -/
def readSlash (s : String) : Except Unreadable Date :=
  match ofSlashChars? (Text.trimList s.toList) with
  | some d => .ok d
  | none => .error ⟨s⟩

/-- Reads a date as `yyyy-MM-dd`; white space may stand before each part and at the end. -/
def readIso? (s : String) : Option Date := do
  let (year, cs) ← scanYear s.toList
  let (_, cs) ← expect '-' (cs.dropWhile Text.isBlank)
  let (month, cs) ← scanNumber (some 2) cs
  let (_, cs) ← expect '-' (cs.dropWhile Text.isBlank)
  let (day, cs) ← scanNumber (some 2) cs
  if cs.dropWhile Text.isBlank = [] then of? year month day else none

end Date
end Covenant
