/-
# Arrangements

A contract is a tree. At a node either nothing is left, `zero`, or one of
several `actions` can be elected; an action has effects and leads to another
tree. Inside the body of a rollout a continuation may be `next`, which starts
the next period of the rollout; bound to the period it was met in, it is a
`resume` that carries the whole rollout along.

Key definitions: `Action`, `Rollout`, `Resume`, `Arrangement`,
`Arrangement.agrees`.
-/
import Covenant.Guard
import Covenant.Obligation
import Covenant.Schedule

namespace Covenant

/-- One election: who may make it, when, what it obliges to, and what `α` follows. -/
structure Action (α : Type) where
  label : String
  actors : PartySet
  guard : Guard
  effects : List Obligation
  continuation : α

/-- A tree `body` repeated over a `schedule`, at one `period` of it, with the values `vars` that the
state variables have there. -/
structure Rollout (α : Type) where
  schedule : Schedule
  body : α
  period : Nat
  vars : OrderedMap String Amount

/-- The directive to go on with the next period of a `rollout`, with `rebinds` for some of its
variables. -/
structure Resume (α : Type) where
  rollout : Rollout α
  rebinds : List Rebind

/-- What is left of a contract. -/
inductive Arrangement where
  | zero
  | actions (choices : List (Action Arrangement))
  | next (rebinds : List Rebind)
  | resume (resume : Resume Arrangement)

namespace Arrangement

instance : Inhabited Arrangement := ⟨zero⟩

/-- Whether nothing is left: the tree is `zero`. -/
def isZero : Arrangement → Bool
  | zero => true
  | _ => false

/-- The actions at the root, if it is a node of `actions`. -/
def choices : Arrangement → List (Action Arrangement)
  | actions choices => choices
  | _ => []

/-- The first of the `choices` with this `label`. -/
def action? (a : Arrangement) (label : String) : Option (Action Arrangement) :=
  a.choices.find? fun action => decide (action.label = label)

/-! ### Agreement

Two arrangements agree if they are the same up to the written form of the
decimals in them. -/

/-- Whether two lists of obligations agree, one by one. -/
def obligationsAgree : List Obligation → List Obligation → Bool
  | [], [] => true
  | o :: l, o' :: l' => o.agrees o' && obligationsAgree l l'
  | _, _ => false

/-- Whether two lists of rebinds agree. -/
def rebindsAgree : List Rebind → List Rebind → Bool
  | [], [] => true
  | r :: l, r' :: l' => decide (r.name = r'.name) && r.value.agrees r'.value && rebindsAgree l l'
  | _, _ => false

/-- Whether two lists of state variables agree. -/
def variablesAgree : List (String × Amount) → List (String × Amount) → Bool
  | [], [] => true
  | (n, x) :: l, (n', x') :: l' => decide (n = n') && x.agrees x' && variablesAgree l l'
  | _, _ => false

/-- Whether two schedules agree. -/
def schedulesAgree (s s' : Schedule) : Bool :=
  decide (s.start = s'.start ∧ s.finish = s'.finish ∧ s.frequency = s'.frequency) &&
    variablesAgree s.initial.entries s'.initial.entries

mutual

/-- Whether two arrangements are the same up to the written form of constants; `Amount.agrees`
compares the amounts in them. -/
def agrees : Arrangement → Arrangement → Bool
  | zero, zero => true
  | actions l, actions l' => choicesAgree l l'
  | next l, next l' => rebindsAgree l l'
  | resume ⟨⟨schedule, body, period, vars⟩, rebinds⟩,
      resume ⟨⟨schedule', body', period', vars'⟩, rebinds'⟩ =>
    schedulesAgree schedule schedule' && body.agrees body' && decide (period = period') &&
      variablesAgree vars.entries vars'.entries && rebindsAgree rebinds rebinds'
  | _, _ => false

/-- Whether two lists of actions agree. -/
def choicesAgree : List (Action Arrangement) → List (Action Arrangement) → Bool
  | [], [] => true
  | ⟨label, actors, guard, effects, continuation⟩ :: l,
      ⟨label', actors', guard', effects', continuation'⟩ :: l' =>
    decide (label = label' ∧ actors = actors' ∧ guard = guard') &&
      obligationsAgree effects effects' && continuation.agrees continuation' && choicesAgree l l'
  | _, _ => false

end

end Arrangement
end Covenant
