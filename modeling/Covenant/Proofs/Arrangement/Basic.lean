/-
# Induction over trees

A statement about trees follows from its four cases: nothing left, a node whose
actions lead to trees it holds of, a directive, and a directive bound to a
rollout whose body it holds of. With one principle for this, lists of actions
need no induction of their own, as the functions over them are maps. One period
further a rollout comes to nothing, or to its body bound to that period.

Key definitions: `Arrangement.bindAction`, `Rollout.following`.
Key theorems: `Arrangement.induction`, `Arrangement.bind_actions`,
`Resume.step_eq_ok`, `Resume.step_eq_error`.
-/
import Covenant.Arrangement.Rollout
import Covenant.Proofs.Except

namespace Covenant
namespace Arrangement

@[elab_as_elim, induction_eliminator]
theorem induction {motive : Arrangement → Prop} (zero : motive zero)
    (actions : ∀ choices : List (Action Arrangement),
      (∀ action ∈ choices, motive action.continuation) → motive (actions choices))
    (next : ∀ rebinds, motive (next rebinds))
    (resume : ∀ (rollout : Rollout Arrangement) (rebinds : List Rebind),
      motive rollout.body → motive (resume ⟨rollout, rebinds⟩)) (a : Arrangement) : motive a :=
  @Arrangement.rec motive (fun choices => ∀ action ∈ choices, motive action.continuation)
    (fun r => motive r.rollout.body) (fun action => motive action.continuation)
    (fun rollout => motive rollout.body) zero actions next
    (fun r h => resume r.rollout r.rebinds h) (fun _ h => absurd h List.not_mem_nil)
    (fun _ _ hhead htail action h =>
      (List.mem_cons.mp h).elim (fun heq => heq ▸ hhead) (htail action))
    (fun _ _ h => h) (fun _ _ _ _ _ h => h) (fun _ _ _ _ h => h) a

theorem isZero_eq_true {a : Arrangement} : a.isZero = true ↔ a = zero := by
  cases a <;> simp [isZero]

/-- An action of a body for one period of a rollout; `(actions choices).bind rollout period` maps it
over `choices`. -/
def bindAction (rollout : Rollout Arrangement) (period : Period) (action : Action Arrangement) :
    Action Arrangement :=
  ⟨action.label, action.actors, action.guard.bind period.start period.finish,
    action.effects.map (Obligation.bind period.start period.finish rollout.vars),
    action.continuation.bind rollout period⟩

theorem bindChoices_eq_map (rollout : Rollout Arrangement) (period : Period) :
    ∀ choices, bindChoices rollout period choices = choices.map (bindAction rollout period)
  | [] => rfl
  | ⟨label, actors, guard, effects, continuation⟩ :: rest => by
    rw [bindChoices, bindChoices_eq_map rollout period rest]
    rfl

theorem bind_actions (rollout : Rollout Arrangement) (period : Period)
    (choices : List (Action Arrangement)) :
    (actions choices).bind rollout period = actions (choices.map (bindAction rollout period)) := by
  rw [bind, bindChoices_eq_map]

end Arrangement

theorem Rollout.instantiate_of_period {r : Rollout Arrangement} {p : Period}
    (h : r.schedule.period? r.period = some p) : r.instantiate = r.body.bind r p := by
  unfold instantiate
  rw [h]

/-! ### One period further -/

/-- The rollout one period further, with `vars` for its variables. -/
def Rollout.following (r : Rollout Arrangement) (vars : OrderedMap String Amount) :
    Rollout Arrangement :=
  { r with period := r.period + 1, vars := vars }

/-- After the last period `r.step env` is `zero`, and no rebind is valued. -/
theorem Resume.step_of_last {env : Environment} {r : Resume Arrangement}
    (h : r.rollout.schedule.period? (r.rollout.period + 1) = none) : r.step env = .ok .zero := by
  unfold step
  dsimp only
  rw [h]

/-- If there is a next period, a directive leads to `instantiate` for it, once `rebindAll` has given
the variables their values. -/
theorem Resume.step_of_period {env : Environment} {r : Resume Arrangement} {p : Period}
    (h : r.rollout.schedule.period? (r.rollout.period + 1) = some p) :
    r.step env = (rebindAll env r.rollout.vars r.rebinds).map fun vars =>
      Rollout.instantiate { r.rollout with period := r.rollout.period + 1, vars := vars } := by
  unfold step
  dsimp only
  rw [h]
  cases rebindAll env r.rollout.vars r.rebinds with
  | error cause => rfl
  | ok vars =>
    rw [Except.map, Rollout.instantiate_of_period h]
    rfl

variable {env : Environment} {r : Rollout Arrangement} {rebinds : List Rebind}

/-- What `Resume.step` comes to: `zero` after the last period, and before it the body bound to the
next one, if the rebinds have values. -/
theorem Resume.step_eq_ok {a : Arrangement} : Resume.step env ⟨r, rebinds⟩ = .ok a ↔
    (r.schedule.period? (r.period + 1) = none ∧ a = .zero) ∨
    ∃ p vars, r.schedule.period? (r.period + 1) = some p ∧
      rebindAll env r.vars rebinds = .ok vars ∧ a = r.body.bind (r.following vars) p := by
  unfold step
  dsimp only
  cases r.schedule.period? (r.period + 1) with
  | none => simp [eq_comm]
  | some p =>
    constructor
    · intro h
      obtain ⟨vars, hvars, h⟩ := bind_eq_ok.mp h
      cases h
      exact .inr ⟨p, vars, rfl, hvars, rfl⟩
    · rintro (⟨hnone, -⟩ | ⟨q, vars, hq, hvars, rfl⟩)
      · cases hnone
      · cases hq
        exact bind_eq_ok.mpr ⟨vars, hvars, rfl⟩

/-- Going on fails as the rebinds do, where there is a next period. -/
theorem Resume.step_eq_error {cause : EvalError} : Resume.step env ⟨r, rebinds⟩ = .error cause ↔
    (r.schedule.period? (r.period + 1)).isSome ∧ rebindAll env r.vars rebinds = .error cause := by
  unfold step
  dsimp only
  cases r.schedule.period? (r.period + 1) with
  | none => simp
  | some p =>
    refine Iff.trans bind_eq_error ⟨fun h => ?_, fun h => .inl h.2⟩
    rcases h with h | ⟨vars, -, h⟩
    · exact ⟨rfl, h⟩
    · cases h

end Covenant
