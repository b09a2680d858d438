/-
# Rolling out

Instantiating a rollout replaces, in its body, state variables by their values
and period dates by the bounds of the period, and binds each `next` to the
rollout. Resuming values the rebinds, all in the environment of the election,
and instantiates the next period; after the last period nothing is left and no
rebind is valued.

Settling a continuation resumes until there is no directive left. It ends,
since each step goes on to a later period of the same rollout or into a bound
rollout further down in its body.

Key definitions: `Rollout.instantiate`, `Resume.step`, `Arrangement.settle`,
`rollOut`.
-/
import Covenant.Arrangement.Validity

namespace Covenant

namespace Arrangement

mutual

/-- The body of `rollout` for one `period` of it: each `next` becomes a `resume` of the rollout. -/
def bind (rollout : Rollout Arrangement) (period : Period) : Arrangement → Arrangement
  | zero => zero
  | actions choices => actions (bindChoices rollout period choices)
  | next rebinds =>
    resume ⟨rollout, rebinds.map (Rebind.bind period.start period.finish rollout.vars)⟩
  | resume r => resume r

/-- The actions of a body for one `period` of `rollout`. -/
def bindChoices (rollout : Rollout Arrangement) (period : Period) :
    List (Action Arrangement) → List (Action Arrangement)
  | [] => []
  | ⟨label, actors, guard, effects, continuation⟩ :: rest =>
    ⟨label, actors, guard.bind period.start period.finish,
      effects.map (Obligation.bind period.start period.finish rollout.vars),
      continuation.bind rollout period⟩ :: bindChoices rollout period rest

end

end Arrangement

namespace Rollout

/-- The body at `r.period`; nothing past the last one. -/
def instantiate (r : Rollout Arrangement) : Arrangement :=
  match r.schedule.period? r.period with
  | some period => r.body.bind r period
  | none => .zero

/-- Whether the rollout is at its last period, or past it. -/
def isFinal (r : Rollout Arrangement) : Bool := r.schedule.isFinal r.period

end Rollout

/-- The state variables `vars` after rebinds, each valued in `env`. -/
def rebindAll (env : Environment) (vars : OrderedMap String Amount) :
    List Rebind → Except EvalError (OrderedMap String Amount)
  | [] => .ok vars
  | r :: rest => do
    let value ← r.value.value env
    rebindAll env (vars.insert r.name (.const value)) rest

/-- The next period of the rollout, its rebinds valued in `env`, or nothing after the last one. -/
def Resume.step (env : Environment) (r : Resume Arrangement) : Except EvalError Arrangement :=
  let index := r.rollout.period + 1
  match r.rollout.schedule.period? index with
  | none => .ok .zero
  | some period => do
    let vars ← rebindAll env r.rollout.vars r.rebinds
    let rollout := { r.rollout with period := index, vars := vars }
    return rollout.body.bind rollout period

namespace Arrangement

/-! ### Settling ends -/

/-- How many bound directives stand directly inside one another, each the body of the one before. -/
def directiveDepth : Arrangement → Nat
  | resume ⟨⟨_, body, _, _⟩, _⟩ => body.directiveDepth + 1
  | _ => 0

/-- How many periods below `Schedule.span` a bound directive may still have before it. -/
def periodsAhead : Arrangement → Nat
  | resume r => Schedule.span - r.rollout.period
  | _ => 0

/-- One step leads to a directive less deep, or to one as deep with fewer periods ahead. -/
theorem step_decreases {env : Environment} {r : Resume Arrangement} {a : Arrangement}
    (h : r.step env = .ok a) :
    Prod.Lex (· < ·) (· < ·) (a.directiveDepth, a.periodsAhead)
      ((resume r).directiveDepth, (resume r).periodsAhead) := by
  obtain ⟨⟨schedule, body, index, vars⟩, rebinds⟩ := r
  unfold Resume.step at h
  simp only at h
  split at h
  · cases h
    exact Prod.Lex.left _ _ (Nat.succ_pos _)
  · rename_i period hperiod
    have hspan := Schedule.lt_of_period?_eq_some hperiod
    cases hvars : rebindAll env vars rebinds with
    | error e => rw [hvars] at h; cases h
    | ok vars' =>
      rw [hvars] at h
      cases h
      cases body with
      | zero => exact Prod.Lex.left _ _ (Nat.succ_pos _)
      | actions choices => exact Prod.Lex.left _ _ (Nat.succ_pos _)
      | next rebinds' =>
        exact Prod.Lex.right _
          (show Schedule.span - (index + 1) < Schedule.span - index by omega)
      | resume inner => exact Prod.Lex.left _ _ (Nat.lt_succ_self _)

/-- What a continuation comes to: an action set or nothing, after as many periods as it takes. A
directive that is bound to no rollout is an error. -/
def settle (env : Environment) : Arrangement → Except EvalError Arrangement
  | resume r =>
    match _h : r.step env with
    | .error e => .error e
    | .ok a => a.settle env
  | next rebinds => .error (.unboundDirective rebinds)
  | zero => .ok zero
  | actions choices => .ok (actions choices)
termination_by a => (a.directiveDepth, a.periodsAhead)
decreasing_by exact step_decreases _h

end Arrangement

/-- The first period of a body rolled out over a schedule. -/
def rollOut (schedule : Schedule) (body : Arrangement) : Except ConstructionError Arrangement := do
  schedule.check
  body.check (.rollout schedule.initial.keys)
  return Rollout.instantiate ⟨schedule, body, 0, schedule.initial⟩

end Covenant
