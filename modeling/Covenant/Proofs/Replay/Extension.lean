/-
# More market data

An environment may know more than another, `env.Within env'`: every binding and
every value of an observable that the other has, and some besides. Whatever was
decided with the smaller one stands: values, elections, states, positions, and
every refusal but for want of a variable or an observable. Nothing that is
missing is ever taken for something else, and what is not read is not missed.

Key definitions: `Environment.Within`, `Replay.Failure.isMissing`.
Key theorems: `Amount.value_stands`, `Arrangement.elect_stands`,
`Replay.run_stands`.
-/
import Covenant.Proofs.Arrangement.Settling
import Covenant.Proofs.Election
import Covenant.Proofs.Replay.Steps

namespace Covenant

/-! ### Knowing more -/

/-- `env'` has every binding and every market value of `env`. -/
structure Environment.Within (env env' : Environment) : Prop where
  binding : ∀ name x, env.bindings.get? name = some x → env'.bindings.get? name = some x
  observed : ∀ key x, env.market.get? key = some x → env'.market.get? key = some x

/-- A variable has no value, `unboundVariable`, or an observable has none, `unavailable`. -/
def EvalError.isMissing : EvalError → Bool
  | unavailable _ | unboundVariable _ => true
  | _ => false

/-- The election fails for want of a variable or an observable. -/
def ElectionError.isMissing : ElectionError → Bool
  | unresolved cause => cause.isMissing
  | _ => false

/-- The replay fails for want of a variable or an observable. -/
def Replay.Failure.isMissing : Failure → Bool
  | election _ _ _ cause => cause.isMissing
  | _ => false

variable {env env' : Environment}

/-! ### Values -/

namespace Environment.Within

theorem lookup_stands (h : env.Within env') (name : String) :
    Stands EvalError.isMissing (env.lookup name) (env'.lookup name) := by
  unfold lookup
  cases hx : env.bindings.get? name with
  | none => exact .of_lifted rfl _
  | some x =>
    rw [h.binding name x hx]
    exact .refl _

theorem observe_stands (h : env.Within env') (key : ObservableKey) :
    Stands EvalError.isMissing (env.observe key) (env'.observe key) := by
  unfold observe
  cases hx : env.market.get? key with
  | none => exact .of_lifted rfl _
  | some x =>
    rw [h.observed key x hx]
    exact .refl _

end Environment.Within

/-- `a.value env` stands. The branch of a choice that is not taken may read anything. -/
theorem Amount.value_stands (h : env.Within env') (a : Amount) :
    Stands EvalError.isMissing (a.value env) (a.value env') := by
  induction a with
  | const value => exact .refl _
  | var name => exact h.lookup_stands name
  | state name => exact .refl _
  | observe o => exact (Stands.refl _).bind fun key _ => h.observe_stands key
  | binary op left right ihl ihr =>
    exact ihl.bind fun x _ => ihr.bind fun y _ => .refl _
  | neg x ih => exact ih.bind fun y _ => .refl _
  | plus x ih => exact ih.bind fun y _ => .refl _
  | interest principal rate dayCount start finish ihp ihr =>
    exact ihp.bind fun x _ => ihr.bind fun y _ => .refl _
  | select relation left right whenTrue otherwise ihl ihr iht iho =>
    refine ihl.bind fun x _ => ihr.bind fun y _ => ?_
    by_cases hholds : relation.holds x y = true
    · rw [if_pos hholds, if_pos hholds]
      exact iht
    · rw [if_neg hholds, if_neg hholds]
      exact iho

theorem resolveAll_stands (h : env.Within env') : ∀ effects : List Obligation,
    Stands EvalError.isMissing (resolveAll env effects) (resolveAll env' effects)
  | [] => .refl _
  | o :: rest => by
    have hfirst : Stands EvalError.isMissing (o.resolve env) (o.resolve env') :=
      (o.amount.value_stands h).bind fun amount _ => .refl _
    exact hfirst.bind fun payment _ =>
      (resolveAll_stands h rest).bind fun payments _ => .refl _

/-! ### Settling -/

theorem rebindAll_stands (h : env.Within env') : ∀ (rebinds : List Rebind)
    (vars : OrderedMap String Amount),
    Stands EvalError.isMissing (rebindAll env vars rebinds) (rebindAll env' vars rebinds)
  | [], _ => .refl _
  | r :: rest, _ => (r.value.value_stands h).bind fun _ _ => rebindAll_stands h rest _

theorem Resume.step_stands (h : env.Within env') (r : Resume Arrangement) :
    Stands EvalError.isMissing (r.step env) (r.step env') := by
  unfold step
  dsimp only
  cases r.rollout.schedule.period? (r.rollout.period + 1) with
  | none => exact .refl _
  | some period => exact (rebindAll_stands h _ _).bind fun vars _ => .refl _

namespace Arrangement

/-- What `settle` comes to stands, after however many periods. -/
theorem settle_stands (h : env.Within env') (a : Arrangement) :
    Stands EvalError.isMissing (a.settle env) (a.settle env') := by
  induction a using settle.induct env with
  | case1 r cause hstep =>
    rw [settle_resume, settle_resume]
    refine (r.step_stands h).bind fun b hb => ?_
    cases hstep.symm.trans hb
  | case2 r a hstep ih =>
    rw [settle_resume, settle_resume]
    refine (r.step_stands h).bind fun b hb => ?_
    cases hstep.symm.trans hb
    exact ih
  | case3 rebinds =>
    rw [settle_next, settle_next]
    exact .refl _
  | case4 =>
    rw [settle_zero, settle_zero]
    exact .refl _
  | case5 choices =>
    rw [settle_actions, settle_actions]
    exact .refl _

/-! ### Elections -/

theorem carryOut_stands (h : env.Within env') (action : Action Arrangement) :
    Stands EvalError.isMissing (carryOut env action) (carryOut env' action) :=
  (resolveAll_stands h action.effects).bind fun _ _ =>
    (action.continuation.settle_stands h).bind fun _ _ => .refl _

/-- What `elect` comes to stands, and a refusal unless something was missing. -/
theorem elect_stands (h : env.Within env') (a : Arrangement) (actor : Party) (label : String)
    (day : Date) :
    Stands ElectionError.isMissing (a.elect env actor label day)
      (a.elect env' actor label day) := by
  unfold elect
  rw [← open?]
  cases a.open? label day with
  | none => exact .refl _
  | some action =>
    dsimp only
    by_cases hactor : action.actors.contains actor = true
    · rw [hactor]
      rcases carryOut_stands h action with ⟨cause, hcause, hmissing⟩ | heq
      · rw [hcause]
        exact .inl ⟨.unresolved cause, rfl, hmissing⟩
      · rw [heq]
        exact .refl _
    · rw [Bool.eq_false_iff.mpr hactor]
      exact .refl _

end Arrangement

/-! ### Replays -/

namespace Replay

theorem elections_stand (options : Options) (h : env.Within env') : ∀ (steps : List LogStep)
    (index : Nat) (last : Option Date) (a : Arrangement),
    Stands Failure.isMissing (elections options env index last a steps)
      (elections options env' index last a steps)
  | [], _, _, _ => .refl _
  | step :: rest, index, last, a => by
    rw [elections_cons, elections_cons]
    refine (Stands.refl _).bind fun _ _ => ?_
    have hmade : Stands Failure.isMissing
        ((a.elect env step.actor step.label step.day).mapError
          (.election index step.actor step.label))
        ((a.elect env' step.actor step.label step.day).mapError
          (.election index step.actor step.label)) :=
      (a.elect_stands h step.actor step.label step.day).mapError fun _ hmissing => hmissing
    refine hmade.bind fun e _ => ?_
    have hrest := elections_stand options h rest (index + 1) (some step.day) e.successor
    exact hrest.bind fun _ _ => .refl _

/-- What `run` comes to stands: nothing after the elections reads the environment. -/
theorem run_stands (options : Options) (h : env.Within env') (a : Arrangement)
    (steps : List LogStep) :
    Stands Failure.isMissing (run options env a steps) (run options env' a steps) :=
  (elections_stand options h steps 0 none a).bind fun _ _ => .refl _

end Replay

/-- **More market data changes nothing that was decided.** If `env.Within env'`, `Replay.run` in
`env'` comes to the same outcome as in `env`, and it fails in the same way at the same step, unless
`failure.isMissing`: it failed for want of a variable or an observable. -/
theorem run_of_within (h : env.Within env') (options : Replay.Options) (a : Arrangement)
    (steps : List LogStep) :
    (∀ outcome, Replay.run options env a steps = .ok outcome →
      Replay.run options env' a steps = .ok outcome) ∧
    ∀ failure, Replay.run options env a steps = .error failure → failure.isMissing = false →
      Replay.run options env' a steps = .error failure := by
  have hstands := Replay.run_stands options h a steps
  exact ⟨fun _ hrun => hstands.eq_ok hrun, fun _ hrun hknown => hstands.eq_error hrun hknown⟩

/-- `notional` is paid, and an index instead of it should the notional be small. -/
def payNotional : Arrangement :=
  .actions [⟨"pay", Party.only ⟨"acmeCorp"⟩, .anytime,
    [⟨⟨"acmeCorp"⟩, ⟨"highStreetBank"⟩,
      .select .lt (.var "notional") (.const (.literal 50 0))
        (.observe (.quote "VIX" (.fixed (.literal 2015 4 1)))) (.var "notional"), .usd⟩], .zero⟩]

/-- `notional` is known, and no index. -/
def notionalKnown : Environment := ⟨OrderedMap.empty.insert "notional" (.literal 100 0), .empty⟩

/-- A margin and the index are known as well. -/
def indexKnown : Environment :=
  ⟨notionalKnown.bindings.insert "margin" (.literal 25 0),
    .ofList [(.quote "VIX" (.literal 2015 4 1), .literal 1529 2)]⟩

theorem notionalKnown_within : notionalKnown.Within indexKnown where
  binding name x h := by
    have hunknown : notionalKnown.bindings.get? "margin" = none := by decide
    have hmargin : name ≠ "margin" := by
      rintro rfl
      rw [hunknown] at h
      cases h
    rwa [indexKnown, OrderedMap.get?_insert, if_neg hmargin]
  observed key x h := by cases h

/-- The election to pay, on the first of May. -/
def payNotionalStep : LogStep := ⟨⟨"acmeCorp"⟩, "pay", .literal 2015 5 1⟩

/-- The notional was paid, and nothing is left. -/
def notionalPaid : Replay.Outcome :=
  ⟨[⟨"pay", ⟨"acmeCorp"⟩, .literal 2015 5 1,
      [⟨⟨"acmeCorp"⟩, ⟨"highStreetBank"⟩, .literal 100 0, .usd⟩], .zero⟩], .zero,
    (OrderedMap.empty.insert ⟨⟨"highStreetBank"⟩, .usd⟩ (.literal 100 0)).insert
      ⟨⟨"acmeCorp"⟩, .usd⟩ (Decimal.literal 100 0).neg⟩

theorem payNotional_elect : payNotional.elect notionalKnown ⟨"acmeCorp"⟩ "pay" (.literal 2015 5 1) =
    .ok ⟨"pay", ⟨"acmeCorp"⟩, .literal 2015 5 1,
      [⟨⟨"acmeCorp"⟩, ⟨"highStreetBank"⟩, .literal 100 0, .usd⟩], .zero⟩ := by
  refine Arrangement.elect_eq_ok.mpr ⟨_, _, _, rfl, by decide, ?_, rfl⟩
  exact Arrangement.carryOut_eq_ok.mpr ⟨rfl, Arrangement.settle_zero _⟩

/-- What was paid stays paid, and what was refused at the second step stays refused there. -/
theorem payNotional_stands :
    notionalKnown.Within indexKnown ∧
    Replay.run .standard notionalKnown payNotional [payNotionalStep] = .ok notionalPaid ∧
    Replay.run .standard indexKnown payNotional [payNotionalStep] = .ok notionalPaid ∧
    Replay.run .standard indexKnown payNotional [payNotionalStep, payNotionalStep] =
      .error (.election 1 ⟨"acmeCorp"⟩ "pay" (.notEnabled "pay" (.literal 2015 5 1))) := by
  have hpaid : Replay.run .standard notionalKnown payNotional [payNotionalStep] =
      .ok notionalPaid := by
    simp only [Replay.run, Replay.elections, payNotionalStep, payNotional_elect]
    rfl
  have hrefused : Replay.run .standard notionalKnown payNotional
      [payNotionalStep, payNotionalStep] =
      .error (.election 1 ⟨"acmeCorp"⟩ "pay" (.notEnabled "pay" (.literal 2015 5 1))) := by
    simp only [Replay.run, Replay.elections, payNotionalStep, payNotional_elect]
    rfl
  have hwithin := notionalKnown_within
  exact ⟨hwithin, hpaid, (run_of_within hwithin .standard payNotional _).1 _ hpaid,
    (run_of_within hwithin .standard payNotional _).2 _ hrefused rfl⟩

end Covenant
