/-
# Errors of construction

What can be wrong with a contract as a text, before any of it is run. Each
`ConstructionError` has the label, the name or the dates at fault.

Key definitions: `ConstructionError`, `ScheduleFault`, `Place`.
-/
import Covenant.Calendar.Text

namespace Covenant

/-- What is wrong with a schedule, or with where a rollout stands in it. -/
inductive ScheduleFault where
  | endNotAfterStart (finish start : Date)
  | firstPeriodOutOfRange
  | initialValueNotClosed (name : String)
  | variablesNotDeclared
  | periodPastEnd (period : Nat)
  | datesNotIncreasing
  | tooFewDates
deriving DecidableEq

/-- Names the dates that are the wrong way round, the variable whose initial value is open, or the
period past the end. -/
def ScheduleFault.message : ScheduleFault → String
  | endNotAfterStart finish start =>
    "end " ++ finish.slashText ++ " is not after start " ++ start.slashText
  | firstPeriodOutOfRange => "first period end is out of range"
  | initialValueNotClosed name =>
    s!"initial value of '{name}' must not depend on rollout bindings"
  | variablesNotDeclared => "variable snapshot does not match declared variables"
  | periodPastEnd period => s!"period {period} is past the end of the schedule"
  | datesNotIncreasing => "accrual dates must be increasing"
  | tooFewDates => "swaption needs at least two accrual dates"

/-- Where in a contract a date or an amount stands. -/
inductive Place where
  | guard (label : String)
  | payment (label : String)
  | rebind
  | stateVariable (name : String)
deriving DecidableEq

/-- How a message names the place: the guard or the payment of an action by its label, `next()`, or
the name of a state variable. -/
def Place.text : Place → String
  | guard label => s!"guard of '{label}'"
  | payment label => label
  | rebind => "next()"
  | stateVariable name => name

/-- Why a tree is not a contract. -/
inductive ConstructionError where
  | duplicateLabel (label : String)
  | emptyLabel
  | noActors (label : String)
  | undeclaredState (name : String)
  | undeclaredRebind (name : String)
  | repeatedRebind (name : String)
  | malformedSchedule (fault : ScheduleFault)
  | directiveOutsideRollout
  | periodDateOutsideRollout (place : Place)
deriving DecidableEq

/-- Names the label, the variable, the place or the schedule that is at fault. -/
def ConstructionError.message : ConstructionError → String
  | duplicateLabel label => s!"duplicate action label '{label}'"
  | emptyLabel => "action label must not be empty"
  | noActors label => s!"action '{label}' has no actors"
  | undeclaredState name =>
    s!"state variable 'vars.{name}' is not declared by the enclosing rollout"
  | undeclaredRebind name => s!"next() rebinds undeclared variable '{name}'"
  | repeatedRebind name => s!"next() rebinds '{name}' more than once"
  | malformedSchedule fault => "malformed schedule: " ++ fault.message
  | directiveOutsideRollout => "next() used outside a rollout body"
  | periodDateOutsideRollout place =>
    "period start/end used outside a rollout body (" ++ place.text ++ ")"

end Covenant
