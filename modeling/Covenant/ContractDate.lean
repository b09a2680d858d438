/-
# Dates in a contract

A date in a contract is `fixed`, or it is the start or the end of the period
that the text is repeated for. Binding to a period replaces the latter two.

Key definitions: `ContractDate`, `ContractDate.bind`, `ContractDate.read`.
-/
import Covenant.Calendar.Text

namespace Covenant

/-- A date as a contract names it. -/
inductive ContractDate where
  | fixed (date : Date)
  | periodStart
  | periodEnd
deriving DecidableEq

namespace ContractDate

/-- The calendar date of a `fixed` one; the others depend on a period. -/
def date? : ContractDate → Option Date
  | fixed date => some date
  | periodStart | periodEnd => none

/-- Whether the date depends on a period. -/
def ofPeriod (d : ContractDate) : Bool := d.date?.isNone

/-- The date for the period from `start` to `finish`. -/
def bind (start finish : Date) : ContractDate → ContractDate
  | fixed date => fixed date
  | periodStart => fixed start
  | periodEnd => fixed finish

/-- A calendar date as `dd/MM/yyyy`, or `start` or `end`. -/
def toText : ContractDate → String
  | fixed date => date.slashText
  | periodStart => "start"
  | periodEnd => "end"

/-- Reads `start`, `end` or a date as `dd/MM/yyyy`. -/
def read (s : String) : Except Date.Unreadable ContractDate :=
  if s = "start" then .ok periodStart
  else if s = "end" then .ok periodEnd
  else (Date.readSlash s).map fixed

end ContractDate
end Covenant
