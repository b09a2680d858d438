/-
# Validity

A tree is a contract if its labels are distinct and not empty, every action has
an actor, and state variables, period dates and `next` occur only inside a
rollout, the variables being those it declares. A bound rollout is checked in
its own `Scope`, wherever it stands. The first fault found, from the root and
from left to right, is the answer.

Key definitions: `Scope`, `Arrangement.check`, `Arrangement.arrange`.
-/
import Covenant.Arrangement.Basic

namespace Covenant

/-- Where a part of a tree stands: outside every rollout, or inside one with `declared`
variables. -/
inductive Scope where
  | topLevel
  | rollout (declared : List String)

namespace Scope

/-- The first of `names` that is no state variable of the scope. -/
def unavailable? (scope : Scope) (names : List String) : Option String :=
  match scope with
  | topLevel => names.head?
  | rollout declared => names.find? fun name => !declared.contains name

/-- Whether period dates are available in the scope. -/
def hasPeriod : Scope → Bool
  | topLevel => false
  | rollout _ => true

/-- Checks the amount `a`, which stands at `place`. -/
def checkAmount (scope : Scope) (place : Place) (a : Amount) : Except ConstructionError Unit :=
  match scope.unavailable? a.stateRefs.members with
  | some name => .error (.undeclaredState name)
  | none =>
    if a.ofPeriod && !scope.hasPeriod then .error (.periodDateOutsideRollout place) else .ok ()

/-- Checks the amounts of all effects of the action with this `label`. -/
def checkEffects (scope : Scope) (label : String) : List Obligation → Except ConstructionError Unit
  | [] => .ok ()
  | o :: rest => do
    scope.checkAmount (.payment label) o.amount
    scope.checkEffects label rest

/-- Checks that rebinds name `declared` variables, each once, after those in `seen`. -/
def checkRebinds (scope : Scope) (declared : List String) (seen : List String) :
    List Rebind → Except ConstructionError Unit
  | [] => .ok ()
  | r :: rest =>
    if !declared.contains r.name then .error (.undeclaredRebind r.name)
    else if seen.contains r.name then .error (.repeatedRebind r.name)
    else do
      scope.checkAmount .rebind r.value
      scope.checkRebinds declared (r.name :: seen) rest

/-- Checks the `actors`, the `guard` and the `effects` of an action, in this order. -/
def checkAction (scope : Scope) (label : String) (actors : PartySet) (guard : Guard)
    (effects : List Obligation) : Except ConstructionError Unit :=
  if actors.isEmpty then .error (.noActors label)
  else if guard.ofPeriod && !scope.hasPeriod then
    .error (.periodDateOutsideRollout (.guard label))
  else scope.checkEffects label effects

/-- Checks the values of a rollout's state variables. -/
def checkValues : List (String × Amount) → Except ConstructionError Unit
  | [] => .ok ()
  | (name, value) :: rest => do
    topLevel.checkAmount (.stateVariable name) value
    checkValues rest

end Scope

/-- Checks that labels are not empty and differ from one another and from those in `seen`. -/
def checkLabels (seen : List String) : List String → Except ConstructionError Unit
  | [] => .ok ()
  | label :: rest =>
    if label = "" then .error .emptyLabel
    else if seen.contains label then .error (.duplicateLabel label)
    else checkLabels (label :: seen) rest

/-- Checks where a rollout stands: its `schedule`, its `vars` and its `period`. -/
def Rollout.checkPosition (schedule : Schedule) (period : Nat) (vars : OrderedMap String Amount) :
    Except ConstructionError Unit := do
  schedule.check
  if vars.keys ≠ schedule.initial.keys then
    .error (.malformedSchedule .variablesNotDeclared)
  else if (schedule.period? period).isNone then
    .error (.malformedSchedule (.periodPastEnd period))
  else Scope.checkValues vars.entries

namespace Arrangement

mutual

/-- Checks a tree that stands in `scope`. -/
def check (scope : Scope) : Arrangement → Except ConstructionError Unit
  | zero => .ok ()
  | actions choices => do
    checkLabels [] (choices.map Action.label)
    checkChoices scope choices
  | next rebinds =>
    match scope with
    | .topLevel => .error .directiveOutsideRollout
    | .rollout declared => scope.checkRebinds declared [] rebinds
  | resume ⟨⟨schedule, body, period, vars⟩, rebinds⟩ => do
    Rollout.checkPosition schedule period vars
    body.check (.rollout schedule.initial.keys)
    Scope.topLevel.checkRebinds schedule.initial.keys [] rebinds

/-- Checks the actions of a node in `scope`, each with what follows it. -/
def checkChoices (scope : Scope) : List (Action Arrangement) → Except ConstructionError Unit
  | [] => .ok ()
  | ⟨label, actors, guard, effects, continuation⟩ :: rest => do
    scope.checkAction label actors guard effects
    continuation.check scope
    checkChoices scope rest

end

/-- Checks a whole contract: `check` at the top level. -/
def validate (a : Arrangement) : Except ConstructionError Unit := a.check .topLevel

/-- A node with these `choices`, if their labels will do. -/
def ofActions (choices : List (Action Arrangement)) : Except ConstructionError Arrangement := do
  checkLabels [] (choices.map Action.label)
  return actions choices

/-- The tree `a` itself, if `a.validate` finds nothing. -/
def arrange (a : Arrangement) : Except ConstructionError Arrangement := do
  a.validate
  return a

end Arrangement
end Covenant
