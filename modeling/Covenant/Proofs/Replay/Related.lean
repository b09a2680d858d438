/-
# Replays with related numbers in them

`run options env a steps` and `run options env' b steps` fail in the same way, or
make related elections, leave related trees and come to related positions, if
the trees and the environments are related by `R` and the divisions of the two
replays are among those of `D`. Each step of the log keeps the trees related; the
positions follow from the payments of all steps.

Key definitions: `Replay.Failure.Related`, `Replay.Outcome.Related`,
`Replay.CarriesOut`, `Replay.Divides`.
Key theorems: `Replay.alike_elections`, `Replay.alike_run`.
-/
import Covenant.Proofs.Election.Related
import Covenant.Proofs.Replay.Steps

namespace Covenant
namespace Replay

variable {R D : Decimal → Decimal → Prop} {env env' : Environment}

/-- The same failure, with related numbers in it. -/
inductive Failure.Related (R : Decimal → Decimal → Prop) : Failure → Failure → Prop where
  | same (f : Failure) : Related R f f
  | election (step : Nat) (actor : Party) (label : String) {cause cause' : ElectionError} :
      cause.Related R cause' →
      Related R (.election step actor label cause) (.election step actor label cause')

/-- Related elections, related trees at the end, and related positions. -/
structure Outcome.Related (R : Decimal → Decimal → Prop) (o o' : Outcome) : Prop where
  elections_related : List.Forall₂ (Election.Related R) o.elections o'.elections
  final_related : o.final.Related R o'.final
  positions_related : OrderedMap.Related R o.positions o'.positions

/-- A replay, its last step on the day `last`, comes to carry the action out. -/
inductive CarriesOut (options : Options) (env : Environment) :
    Option Date → Arrangement → List LogStep → Action Arrangement → Prop where
  | now {last : Option Date} {a : Arrangement} {step : LogStep} {rest : List LogStep}
      {action : Action Arrangement} :
      (options.requireChronological && goesBack last step.day) = false →
      a.open? step.label step.day = some action → action.actors.contains step.actor = true →
      CarriesOut options env last a (step :: rest) action
  | later {last : Option Date} {a : Arrangement} {step : LogStep} {rest : List LogStep}
      {e : Election} {action : Action Arrangement} :
      (options.requireChronological && goesBack last step.day) = false →
      a.elect env step.actor step.label step.day = .ok e →
      CarriesOut options env (some step.day) e.successor rest action →
      CarriesOut options env last a (step :: rest) action

/-- Replaying the log divides the first number by the second. -/
def Divides (options : Options) (env : Environment) (t : Arrangement) (steps : List LogStep)
    (x y : Decimal) : Prop :=
  ∃ action a, CarriesOut options env none t steps action ∧ action.Values env a ∧ a.Divides env x y

theorem related_payments {made made' : List Election}
    (h : List.Forall₂ (Election.Related R) made made') :
    List.Forall₂ (Payment.Related R) (made.flatMap Election.payments)
      (made'.flatMap Election.payments) := by
  induction h with
  | nil => exact .nil
  | cons he _ ih => exact List.rel_append he.payments_related ih

section

variable (hR : Decimal.Congruence R D) (options : Options) (henv : env.Related R env')
include hR henv

/-- Elections on related trees are related, step by step. -/
theorem alike_elections : ∀ (steps : List LogStep) (index : Nat) (last : Option Date)
    {a b : Arrangement}, a.Related R b →
    (∀ action x, CarriesOut options env last a steps action → action.Values env x →
      x.DividesOnly D env) →
    (∀ action x, CarriesOut options env' last b steps action → action.Values env' x →
      x.DividesOnly D env') →
    Alike (Failure.Related R)
      (fun r r' => List.Forall₂ (Election.Related R) r.1 r'.1 ∧ r.2.Related R r'.2)
      (elections options env index last a steps) (elections options env' index last b steps)
  | [], _, _, _, _, h, _, _ => .ok ⟨.nil, h⟩
  | step :: rest, index, last, a, b, h, hdiv, hdiv' => by
    rw [elections_cons, elections_cons]
    have hlooked : Alike (Failure.Related R) (· = ·) _ _ :=
      .refl Failure.Related.same (fun _ => rfl) (inOrder options index last step)
    refine hlooked.bind_of fun _ _ horder _ _ => ?_
    have hday := inOrder_eq_ok.mp horder
    have hmade := h.elect hR henv
      (fun action hopen hactor x hx => hdiv action x (.now hday hopen hactor) hx)
      (fun action hopen hactor x hx => hdiv' action x (.now hday hopen hactor) hx)
    have hstep := hmade.mapError fun _ _ => Failure.Related.election index step.actor step.label
    refine hstep.bind_of fun e e' he he' hee => ?_
    have hrest := alike_elections rest (index + 1) (some step.day) hee.successor_related
      (fun action x hcarries => hdiv action x (.later hday (mapError_eq_ok.mp he) hcarries))
      (fun action x hcarries => hdiv' action x (.later hday (mapError_eq_ok.mp he') hcarries))
    exact hrest.bind fun r r' hr => .ok ⟨.cons hee hr.1, hr.2⟩

/-- **Replays on related trees are related.** -/
theorem alike_run {a b : Arrangement} (h : a.Related R b) (steps : List LogStep)
    (hdiv : ∀ x y, Divides options env a steps x y → D x y)
    (hdiv' : ∀ x y, Divides options env' b steps x y → D x y) :
    Alike (Failure.Related R) (Outcome.Related R) (run options env a steps)
      (run options env' b steps) := by
  have hmade := alike_elections hR options henv steps 0 none h
    (fun action a hcarries ha x y hxy => hdiv x y ⟨action, a, hcarries, ha, hxy⟩)
    (fun action a hcarries ha x y hxy => hdiv' x y ⟨action, a, hcarries, ha, hxy⟩)
  refine hmade.bind ?_
  rintro ⟨made, final⟩ ⟨made', final'⟩ ⟨hmade, hfinal⟩
  dsimp only
  rw [hfinal.isZero_eq]
  split
  · exact .error (.same _)
  · have hpositions := alike_netPositions hR.toAdditive (related_payments hmade)
    refine (hpositions.mapError (f := Failure.positions) ?_).bind fun l l' hl => ?_
    · rintro e _ rfl
      exact Failure.Related.same _
    · exact .ok ⟨hmade, hfinal, hl⟩

end

end Replay
end Covenant
