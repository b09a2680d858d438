/-
# Guards

A guard says on which days an action may be elected: on any, or strictly
`before` or `after` a date. A date that still depends on a period lets no day
through.

Key definitions: `Guard`, `Guard.holds`, `Guard.bind`.
-/
import Covenant.ContractDate

namespace Covenant

/-- The days on which an action is open. -/
inductive Guard where
  | anytime
  | before (date : ContractDate)
  | after (date : ContractDate)
deriving DecidableEq

namespace Guard

/-- Whether the guard lets `day` through. -/
def holds (day : Date) : Guard → Bool
  | anytime => true
  | before date => date.date?.any fun t => decide (day < t)
  | after date => date.date?.any fun t => decide (t < day)

/-- The guard for the period from `start` to `finish`. -/
def bind (start finish : Date) : Guard → Guard
  | anytime => anytime
  | before date => before (date.bind start finish)
  | after date => after (date.bind start finish)

/-- Whether the date of the guard depends on a period. -/
def ofPeriod : Guard → Bool
  | anytime => false
  | before date | after date => date.ofPeriod

/-- `anytime`, or `before` or `after` with the date. -/
def toText : Guard → String
  | anytime => "anytime"
  | before date => "before " ++ date.toText
  | after date => "after " ++ date.toText

end Guard
end Covenant
