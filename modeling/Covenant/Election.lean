/-
# Elections

The actions `a.available day` are those whose guard lets `day` through. Electing
one of them by its label, for an `actor` that may, values its effects in order
and settles its continuation, which is the contract from then on.

Key definitions: `Arrangement.available`, `Arrangement.elect`, `Election`.
-/
import Covenant.Arrangement.Rollout

namespace Covenant

/-- One election: what was elected, by whom and when, what was paid, and what is left. -/
structure Election where
  label : String
  actor : Party
  day : Date
  payments : List Payment
  successor : Arrangement

/-- Why an election is refused. -/
inductive ElectionError where
  | notEnabled (label : String) (day : Date)
  | notAuthorized (actor : Party) (label : String)
  | unresolved (cause : EvalError)
deriving DecidableEq

/-- Names the label that is not open on the `day`, the `actor` who may not elect it, or the cause
for which an effect or the continuation has no value. -/
def ElectionError.message : ElectionError → String
  | notEnabled label day => s!"no enabled action labeled '{label}' at " ++ day.slashText
  | notAuthorized actor label => s!"'{actor.name}' is not authorized to elect '{label}'"
  | unresolved cause => cause.message

/-- The payments that `effects` come to in `env`, the first failure being the answer. -/
def resolveAll (env : Environment) : List Obligation → Except EvalError (List Payment)
  | [] => .ok []
  | o :: rest => do
    let payment ← o.resolve env
    let payments ← resolveAll env rest
    return payment :: payments

namespace Arrangement

/-- The actions whose guard `holds` on `day`. -/
def available (a : Arrangement) (day : Date) : List (Action Arrangement) :=
  a.choices.filter fun action => action.guard.holds day

/-- The payments of an `action`, and the successor that its continuation settles to in `env`. -/
def carryOut (env : Environment) (action : Action Arrangement) :
    Except EvalError (List Payment × Arrangement) := do
  let payments ← resolveAll env action.effects
  let successor ← action.continuation.settle env
  return (payments, successor)

/-- Elects the first open action with the `label`, for `actor` on `day`. -/
def elect (env : Environment) (a : Arrangement) (actor : Party) (label : String) (day : Date) :
    Except ElectionError Election :=
  match (a.available day).find? fun action => decide (action.label = label) with
  | none => .error (.notEnabled label day)
  | some action =>
    if !action.actors.contains actor then .error (.notAuthorized actor label)
    else
      match carryOut env action with
      | .error cause => .error (.unresolved cause)
      | .ok (payments, successor) => .ok ⟨label, actor, day, payments, successor⟩

end Arrangement
end Covenant
