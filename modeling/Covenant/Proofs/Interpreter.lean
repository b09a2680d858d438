/-
# Rollouts without substitution

A rollout can be run from its text as it stands. The interpreter is at a node of
the body, at one period, with the values that the variables have there: a
`Position`. It reads state variables and period dates in place, with
`Amount.valueIn`, and rewrites nothing. At `next` it values all rebinds where it
stands, overrides these variables, and starts the body again in the next period;
if there is none, nothing is left and no rebind is valued. A directive that is
bound to a rollout already goes on as `next` in that rollout.

Key definitions: `Position`, `Position.proceed`, `Position.elect`, `answers`.
-/
import Covenant.Election
import Covenant.ElectionLog
import Covenant.Proofs.Amount.Frame

namespace Covenant

/-! ### Positions -/

/-- A `node` of the body of a `rollout` that is at one of its periods. -/
structure Position where
  rollout : Rollout Arrangement
  node : Arrangement

/-- What the body of a rollout is read in: the bounds of its `period`, and its `vars`. -/
def Rollout.frame (r : Rollout Arrangement) : Frame :=
  ⟨(r.schedule.period? r.period).map fun p => (p.start, p.finish), r.vars⟩

/-- The values of rebinds, each by `valueIn`, all of them in the same frame. -/
def rebindValues (env : Environment) (frame : Frame) :
    List Rebind → Except EvalError (List (String × Decimal))
  | [] => .ok []
  | r :: rest => do
    let value ← r.value.valueIn env frame
    let values ← rebindValues env frame rest
    return (r.name, value) :: values

/-- The rollout one period further, `values` put over those of its variables. -/
def Rollout.advance (r : Rollout Arrangement) (values : List (String × Decimal)) :
    Rollout Arrangement :=
  { r with
    period := r.period + 1
    vars := r.vars.insertAll (values.map fun e => (e.1, .const e.2)) }

/-- The payments that effects come to, each by `valueIn`; the first failure is the answer. -/
def paymentsIn (env : Environment) (frame : Frame) :
    List Obligation → Except EvalError (List Payment)
  | [] => .ok []
  | o :: rest => do
    let amount ← o.amount.valueIn env frame
    let payments ← paymentsIn env frame rest
    return ⟨o.payer, o.payee, amount, o.currency⟩ :: payments

namespace Position

/-- How many directives may still be entered, and how many periods are left in the last: what
`proceed` goes down by. -/
def measure : Position → Nat × Nat
  | ⟨r, .next _⟩ => (r.body.directiveDepth + 1, Schedule.span - r.period)
  | ⟨_, .resume r⟩ => (r.rollout.body.directiveDepth + 1, Schedule.span + 1)
  | ⟨_, .zero⟩ | ⟨_, .actions _⟩ => (0, 0)

theorem measure_advance {r : Rollout Arrangement} {rebinds : List Rebind}
    {values : List (String × Decimal)} {p : Period}
    (h : r.schedule.period? (r.period + 1) = some p) :
    Prod.Lex (· < ·) (· < ·) (measure ⟨r.advance values, r.body⟩) (measure ⟨r, .next rebinds⟩) := by
  have hspan := Schedule.lt_of_period?_eq_some h
  obtain ⟨schedule, body, index, vars⟩ := r
  cases body with
  | zero => exact Prod.Lex.left _ _ (Nat.succ_pos _)
  | actions choices => exact Prod.Lex.left _ _ (Nat.succ_pos _)
  | next rebinds' =>
    exact Prod.Lex.right _ (show Schedule.span - (index + 1) < Schedule.span - index by
      dsimp only at hspan
      omega)
  | resume inner => exact Prod.Lex.left _ _ (Nat.lt_succ_self _)

/-- Goes on at the node until there are actions to elect or nothing is left, as `Arrangement.settle`
does with a tree. -/
def proceed (env : Environment) : Position → Except EvalError Position
  | ⟨r, .zero⟩ => .ok ⟨r, .zero⟩
  | ⟨r, .actions choices⟩ => .ok ⟨r, .actions choices⟩
  | ⟨r, .next rebinds⟩ =>
    match _h : r.schedule.period? (r.period + 1) with
    | none => .ok ⟨r, .zero⟩
    | some _ =>
      match rebindValues env r.frame rebinds with
      | .error cause => .error cause
      | .ok values => proceed env ⟨r.advance values, r.body⟩
  | ⟨_, .resume ⟨r, rebinds⟩⟩ => proceed env ⟨r, .next rebinds⟩
termination_by p => p.measure
decreasing_by
  · exact measure_advance _h
  · exact Prod.Lex.right _ (show Schedule.span - r.period < Schedule.span + 1 by omega)

/-- The action with a label that is open on a day, its guard read by `holdsIn`. -/
def open? (p : Position) (label : String) (day : Date) : Option (Action Arrangement) :=
  p.node.choices.find? fun action =>
    action.guard.holdsIn p.rollout.frame day && decide (action.label = label)

/-- The payments of electing an action, and where the interpreter goes on to. -/
def carryOut (env : Environment) (p : Position) (action : Action Arrangement) :
    Except EvalError (List Payment × Position) := do
  let payments ← paymentsIn env p.rollout.frame action.effects
  let successor ← proceed env ⟨p.rollout, action.continuation⟩
  return (payments, successor)

/-- Elects the open action with a label. -/
def elect (env : Environment) (p : Position) (actor : Party) (label : String) (day : Date) :
    Except ElectionError (List Payment × Position) :=
  match p.open? label day with
  | none => .error (.notEnabled label day)
  | some action =>
    if !action.actors.contains actor then .error (.notAuthorized actor label)
    else (carryOut env p action).mapError .unresolved

/-- Where `body` starts, rolled out over `schedule`: at its root, in the first period, with the
initial values. -/
def start (schedule : Schedule) (body : Arrangement) : Position :=
  ⟨⟨schedule, body, 0, schedule.initial⟩, body⟩

end Position

/-! ### Logs -/

/-- What can be seen of one step of a log: the payments or the refusal, and whether nothing is left
after it. -/
structure Answer where
  payments : Except ElectionError (List Payment)
  discharged : Bool

/-- The answers to a log of a state of any kind, each step in an environment of its own. A refusal
changes nothing. -/
def answers {σ : Type} (isZero : σ → Bool)
    (elect : Environment → σ → LogStep → Except ElectionError (List Payment × σ)) (s : σ) :
    List (Environment × LogStep) → List Answer
  | [] => []
  | (env, step) :: rest =>
    match elect env s step with
    | .error cause => ⟨.error cause, isZero s⟩ :: answers isZero elect s rest
    | .ok (payments, s') => ⟨.ok payments, isZero s'⟩ :: answers isZero elect s' rest

/-- The answers of a contract whose tree is rewritten at each election, by `Arrangement.elect`. -/
def Arrangement.answers (a : Arrangement) : List (Environment × LogStep) → List Answer :=
  Covenant.answers isZero (fun env a step =>
    (a.elect env step.actor step.label step.day).map fun e => (e.payments, e.successor)) a

/-- The answers of the interpreter, by `Position.elect`. -/
def Position.answers (p : Position) : List (Environment × LogStep) → List Answer :=
  Covenant.answers (fun p => p.node.isZero)
    (fun env p step => p.elect env step.actor step.label step.day) p

end Covenant
