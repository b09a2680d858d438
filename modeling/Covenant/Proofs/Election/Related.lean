/-
# Elections with related numbers in them

On trees related by `R`, in environments related by `R`, `a.elect env` and
`b.elect env'` are refused for the same reason, or make related payments and
lead to related trees, as long as the divisions in what is valued are among
those of `D`.

Key definitions: `ElectionError.Related`, `Election.Related`, `Action.Values`.
Key theorems: `alike_resolveAll`, `Arrangement.Related.open?`,
`Arrangement.Related.elect`.
-/
import Covenant.Proofs.Arrangement.Related
import Covenant.Proofs.Election
import Covenant.Proofs.Ledger.Related

namespace Covenant

variable {R D : Decimal → Decimal → Prop} {env env' : Environment}

/-- The same refusal, with related numbers in it. -/
inductive ElectionError.Related (R : Decimal → Decimal → Prop) :
    ElectionError → ElectionError → Prop where
  | same (e : ElectionError) : Related R e e
  | unresolved {cause cause' : EvalError} : cause.Related R cause' →
      Related R (.unresolved cause) (.unresolved cause')

/-- The same election, with related payments and successors. -/
structure Election.Related (R : Decimal → Decimal → Prop) (e e' : Election) : Prop where
  label_eq : e.label = e'.label
  actor_eq : e.actor = e'.actor
  day_eq : e.day = e'.day
  payments_related : List.Forall₂ (Payment.Related R) e.payments e'.payments
  successor_related : e.successor.Related R e'.successor

/-- Carrying the action out values the amount, to pay it or to rebind a variable to it. -/
inductive Action.Values (env : Environment) (action : Action Arrangement) : Amount → Prop where
  | payment {a : Amount} : Amount.Valued env (action.effects.map Obligation.amount) a →
      Values env action a
  | rebind {a : Amount} {payments : List Payment} : resolveAll env action.effects = .ok payments →
      action.continuation.Revalues env a → Values env action a

/-- The payment of an obligation is of its value. -/
theorem Obligation.value_of_resolve {o : Obligation} {p : Payment} (h : o.resolve env = .ok p) :
    o.amount.value env = .ok p.amount := by
  obtain ⟨x, hx, h⟩ := bind_eq_ok.mp h
  cases h
  exact hx

namespace Arrangement

theorem Related.choices {a b : Arrangement} (h : a.Related R b) :
    List.Forall₂ (Action.Related R (Related R)) a.choices b.choices := by
  cases h with
  | zero => exact .nil
  | actions hchoices => exact hchoices
  | next _ => exact .nil
  | resume _ _ => exact .nil

/-- The same action is open in related trees: guards and labels are the same in both. -/
theorem Related.open? {a b : Arrangement} (h : a.Related R b) (label : String) (day : Date) :
    Option.Rel (Action.Related R (Related R)) (a.open? label day) (b.open? label day) := by
  unfold Arrangement.open? available
  rw [List.find?_filter, List.find?_filter]
  refine rel_find? (fun action action' hx => ?_) h.choices
  cases hx
  rfl

end Arrangement

section

variable (hR : Decimal.Congruence R D) (henv : env.Related R env')
include hR henv

/-- Related effects come to related payments, or fail with related errors. -/
theorem alike_resolveAll {effects effects' : List Obligation}
    (h : List.Forall₂ (Obligation.Related R) effects effects') :
    (∀ a, Amount.Valued env (effects.map Obligation.amount) a → a.DividesOnly D env) →
    (∀ a, Amount.Valued env' (effects'.map Obligation.amount) a → a.DividesOnly D env') →
    Alike (EvalError.Related R) (List.Forall₂ (Payment.Related R)) (resolveAll env effects)
      (resolveAll env' effects') := by
  induction h with
  | nil => exact fun _ _ => .ok .nil
  | @cons o o' rest rest' ho _ ih =>
    intro hdiv hdiv'
    have hvalue := ho.amount_related.value hR henv (hdiv _ (.head ..)) (hdiv' _ (.head ..))
    have hfirst : Alike (EvalError.Related R) (Payment.Related R) (o.resolve env)
        (o'.resolve env') :=
      hvalue.bind fun x x' hx => .ok ⟨ho.payer_eq, ho.payee_eq, ho.currency_eq, hx⟩
    refine hfirst.bind_of fun p p' hp hp' hpp => ?_
    have hrest := ih (fun a ha => hdiv a (.tail (Obligation.value_of_resolve hp) ha))
      (fun a ha => hdiv' a (.tail (Obligation.value_of_resolve hp') ha))
    exact hrest.bind fun ps ps' hps => .ok (.cons hpp hps)

namespace Arrangement

theorem alike_carryOut {action action' : Action Arrangement}
    (h : action.Related R (Related R) action')
    (hdiv : ∀ a, action.Values env a → a.DividesOnly D env)
    (hdiv' : ∀ a, action'.Values env' a → a.DividesOnly D env') :
    Alike (EvalError.Related R)
      (fun made made' => List.Forall₂ (Payment.Related R) made.1 made'.1 ∧ made.2.Related R made'.2)
      (carryOut env action) (carryOut env' action') := by
  obtain ⟨label, actors, guard, heffects, hcontinuation⟩ := h
  have hpayments := alike_resolveAll hR henv heffects (fun a ha => hdiv a (.payment ha))
    (fun a ha => hdiv' a (.payment ha))
  refine hpayments.bind_of fun ps ps' hps hps' hpp => ?_
  have hsettled := hcontinuation.settle hR henv (fun a ha => hdiv a (.rebind hps ha))
    (fun a ha => hdiv' a (.rebind hps' ha))
  exact hsettled.bind fun b b' hb => .ok ⟨hpp, hb⟩

/-- **Elections on related trees are related**: refused for the same reason, or made with related
payments and successors. -/
theorem Related.elect {a b : Arrangement} (h : a.Related R b) {actor : Party} {label : String}
    {day : Date}
    (hdiv : ∀ action, a.open? label day = some action → action.actors.contains actor = true →
      ∀ x, action.Values env x → x.DividesOnly D env)
    (hdiv' : ∀ action, b.open? label day = some action → action.actors.contains actor = true →
      ∀ x, action.Values env' x → x.DividesOnly D env') :
    Alike (ElectionError.Related R) (Election.Related R) (a.elect env actor label day)
      (b.elect env' actor label day) := by
  unfold Arrangement.elect
  rw [← Arrangement.open?, ← Arrangement.open?]
  rcases rel_cases (h.open? label day) with ⟨hnone, hnone'⟩ | ⟨action, action', hopen, hopen', hx⟩
  · rw [hnone, hnone']
    exact .error (.same _)
  · have hactors : action.actors = action'.actors := by
      cases hx
      rfl
    rw [hopen, hopen']
    dsimp only
    rw [hactors]
    cases hactor : action'.actors.contains actor with
    | false => exact .error (.same _)
    | true =>
      have hcarry := alike_carryOut hR henv hx (hdiv action hopen (hactors ▸ hactor))
        (hdiv' action' hopen' hactor)
      rcases hcarry.error_or_ok with
        ⟨cause, cause', hmade, hmade', hcause⟩ | ⟨made, made', hmade, hmade', hpayments, hleft⟩
      · rw [hmade, hmade']
        exact .error (.unresolved hcause)
      · rw [hmade, hmade']
        exact .ok ⟨rfl, rfl, rfl, hpayments, hleft⟩

end Arrangement

end

end Covenant
