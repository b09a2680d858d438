/-
# Holders with the same data

Two holders of a contract have the same data, but each read it from files of
its own, so that a number may be in one form with the one and in another with
the other: `env.Agree env'`. They replay a log alike: one fails exactly when the
other does, and for the same reason, and what they come to agrees in every
number. A rebind writes its value into the contract in the form that it has,
however; where the forms differ there, so do the digests.

Key definitions: `Environment.Agree`, `Replay.Failure.Agree`, `Replay.Rebinds`.
Key theorems: `Replay.final_eq`, `replays_agree`.
-/
import Covenant.Proofs.Canonical.Injective
import Covenant.Proofs.Decimal.Agreement
import Covenant.Proofs.Replay.Stored

namespace Covenant

variable {env env' : Environment}

/-- The same variables and the same observables have a value in both, and equal ones. Scales may
differ: `1.1` in one and `1.10` in the other. -/
structure Environment.Agree (env env' : Environment) : Prop where
  bindings_agree : env.bindings.agrees env'.bindings = true
  market_agree : env.market.agrees env'.market = true

theorem Environment.Agree.related (h : env.Agree env') : env.Related Decimal.Equal env' :=
  ⟨OrderedMap.agrees_iff.mp h.bindings_agree, OrderedMap.agrees_iff.mp h.market_agree⟩

namespace Replay

/-- The same failure, with equal numbers in it. -/
abbrev Failure.Agree : Failure → Failure → Prop := Failure.Related Decimal.Equal

/-- Replaying the log rebinds a variable to the value of the amount. -/
def Rebinds (options : Options) (env : Environment) (t : Arrangement) (steps : List LogStep)
    (a : Amount) : Prop :=
  ∃ action payments, CarriesOut options env none t steps action ∧
    resolveAll env action.effects = .ok payments ∧ action.continuation.Revalues env a

/-! ### What is left -/

/-- Where rebinds have the same values in the same form, an election leads to the same tree. -/
theorem successor_eq {a : Arrangement} {actor : Party} {label : String} {day : Date}
    {e e' : Election} (he : a.elect env actor label day = .ok e)
    (he' : a.elect env' actor label day = .ok e')
    (h : ∀ action payments x, a.open? label day = some action →
      action.actors.contains actor = true → resolveAll env action.effects = .ok payments →
      action.continuation.Revalues env x → x.value env = x.value env') :
    e.successor = e'.successor := by
  obtain ⟨action, payments, successor, hopen, hactor, hcarry, rfl⟩ := Arrangement.elect_eq_ok.mp he
  obtain ⟨action', payments', successor', hopen', -, hcarry', rfl⟩ :=
    Arrangement.elect_eq_ok.mp he'
  cases hopen.symm.trans hopen'
  obtain ⟨hpayments, hsettle⟩ := Arrangement.carryOut_eq_ok.mp hcarry
  obtain ⟨-, hsettle'⟩ := Arrangement.carryOut_eq_ok.mp hcarry'
  have hsame := Arrangement.settle_congr action.continuation
    (h action payments · hopen hactor hpayments)
  exact Except.ok.inj (hsettle.symm.trans (hsame.trans hsettle'))

/-- So do all elections of a log. -/
theorem final_eq {options : Options} : ∀ {steps : List LogStep} {index : Nat} {last : Option Date}
    {a final final' : Arrangement} {made made' : List Election},
    elections options env index last a steps = .ok (made, final) →
    elections options env' index last a steps = .ok (made', final') →
    (∀ action payments x, CarriesOut options env last a steps action →
      resolveAll env action.effects = .ok payments → action.continuation.Revalues env x →
      x.value env = x.value env') → final = final'
  | [], _, _, _, _, _, _, _, h, h', _ => by
    cases h
    cases h'
    rfl
  | step :: rest, index, last, a, final, final', made, made', h, h', hvalues => by
    obtain ⟨horder, e, later, he, hlater, -⟩ := elections_cons_eq_ok.mp h
    obtain ⟨-, e', later', he', hlater', -⟩ := elections_cons_eq_ok.mp h'
    have hday := inOrder_eq_ok.mp horder
    have hsuccessor := successor_eq he he' fun action payments x hopen hactor =>
      hvalues action payments x (.now hday hopen hactor)
    rw [← hsuccessor] at hlater'
    exact final_eq hlater hlater' fun action payments x hcarries =>
      hvalues action payments x (.later hday he hcarries)

end Replay

/-- **Holders with the same data agree.** Take two holders whose data are equal in number,
`env.Agree env'`, and let every division come to the number that stands for the quotient,
`x.EvenlyDivided y`, as it does by any divisor of at most 64 bits. Then `Replay.run` fails with
both, for the same reason, or succeeds with both, and what they come to agrees. The digests are
equal exactly if the trees in `final` are, a `Digest.Collision` apart; and the trees are, if what
`Replay.Rebinds` finds variables rebound to has the same form with both. -/
theorem replays_agree (henv : env.Agree env') (options : Replay.Options) (t : Arrangement)
    (steps : List LogStep)
    (hdiv : ∀ x y, Replay.Divides options env t steps x y → x.EvenlyDivided y)
    (hdiv' : ∀ x y, Replay.Divides options env' t steps x y → x.EvenlyDivided y) :
    (∀ x y : Decimal, y.isZero = false → y.mantissa < UInt64.size → x.EvenlyDivided y) ∧
    Alike Replay.Failure.Agree Replay.Outcome.Agree (Replay.run options env t steps)
      (Replay.run options env' t steps) ∧
    ∀ o o', Replay.run options env t steps = .ok o → Replay.run options env' t steps = .ok o' →
      (o.digest = o'.digest ↔
        o.final = o'.final ∨ Digest.Collision o.final.canonical o'.final.canonical) ∧
      ((∀ a, Replay.Rebinds options env t steps a → a.value env = a.value env') →
        o.final = o'.final ∧ o.digest = o'.digest) := by
  have hnarrow : ∀ x y : Decimal, y.isZero = false → y.mantissa < UInt64.size →
      x.EvenlyDivided y := fun x y => Decimal.evenlyDivided_of_narrow
  have hruns := Replay.alike_run Decimal.congruence_equal options henv.related
    (.refl Decimal.congruence_equal.refl t)
    steps hdiv hdiv'
  have hagree := hruns.imp fun _ _ ho => ho.agree Decimal.congruence_equal
  refine ⟨hnarrow, hagree, fun o o' ho ho' => ⟨?_, ?_⟩⟩
  · exact Arrangement.digest_eq_iff
  · intro hvalues
    have hfinal := Replay.final_eq (Replay.elections_of_run_eq_ok ho)
      (Replay.elections_of_run_eq_ok ho') fun action payments a hcarries hpayments ha =>
        hvalues a ⟨action, payments, hcarries, hpayments, ha⟩
    exact ⟨hfinal, congrArg Arrangement.digest hfinal⟩

/-! ### A rate fixed each month -/

/-- Two months. The `rate` of the first is 1. -/
def rateMonths : Schedule :=
  ⟨.literal 2015 1 1, .literal 2015 3 1, .monthly, .ofList [("rate", .const (.literal 1 0))]⟩

/-- The `rate` of the month is paid, and `next` is the rate of the next month. -/
def payRate (next : Amount) : Arrangement :=
  .actions [⟨"pay", Party.only ⟨"a"⟩, .anytime, [⟨⟨"a"⟩, ⟨"b"⟩, .state "rate", .usd⟩],
    .next [⟨"rate", next⟩]⟩]

/-- The month `index` of `rateMonths`, with its rate. -/
def rateMonth (next : Amount) (index : Nat) (rate : Decimal) : Arrangement :=
  Rollout.instantiate ⟨rateMonths, payRate next, index, .ofList [("rate", .const rate)]⟩

/-- The payment in the month `index`. -/
def rateAction (next : Amount) (index : Nat) (rate : Decimal) : Action Arrangement :=
  ⟨"pay", Party.only ⟨"a"⟩, .anytime, [⟨⟨"a"⟩, ⟨"b"⟩, .const rate, .usd⟩],
    .resume ⟨⟨rateMonths, payRate next, index, .ofList [("rate", .const rate)]⟩, [⟨"rate", next⟩]⟩⟩

/-- The first month. -/
def firstMonth (next : Amount) : Arrangement := rateMonth next 0 (.literal 1 0)

/-- The payment for the first month. -/
def payFirst : LogStep := ⟨⟨"a"⟩, "pay", .literal 2015 1 1⟩

/-- Data in which `rate` has this value. -/
def rateData (rate : Decimal) : Environment := ⟨.ofList [("rate", rate)], .empty⟩

variable {next : Amount}

theorem rateMonth_eq (hnext : next.Closed) {index : Nat} {rate : Decimal} {p : Period}
    (hperiod : rateMonths.period? index = some p) :
    rateMonth next index rate = .actions [rateAction next index rate] := by
  have hpaid : (Amount.state "rate").bind p.start p.finish (.ofList [("rate", .const rate)]) =
      .const rate := by
    rw [Amount.bind, OrderedMap.get?_singleton]
    rfl
  have hbound : Rebind.bind p.start p.finish (.ofList [("rate", .const rate)]) ⟨"rate", next⟩ =
      ⟨"rate", next⟩ := congrArg (Rebind.mk "rate") (hnext.bind_eq ..)
  rw [rateMonth, Rollout.instantiate_of_period hperiod, payRate]
  dsimp only
  rw [Arrangement.bind_actions, List.map_singleton, Arrangement.bindAction, Arrangement.bind]
  dsimp only
  rw [List.map_singleton, List.map_singleton, hbound, Obligation.bind, hpaid]
  rfl

theorem firstMonth_eq (hnext : next.Closed) :
    firstMonth next = .actions [rateAction next 0 (.literal 1 0)] :=
  rateMonth_eq hnext (p := ⟨0, .literal 2015 1 1, .literal 2015 2 1⟩) rfl

theorem secondMonth_eq (hnext : next.Closed) (rate : Decimal) :
    rateMonth next 1 rate = .actions [rateAction next 1 rate] :=
  rateMonth_eq hnext (p := ⟨1, .literal 2015 2 1, .literal 2015 3 1⟩) rfl

/-- After the first month comes the second, with the rate that is fixed for it. -/
theorem rateAction_step : Resume.step env ⟨⟨rateMonths, payRate next, 0,
    .ofList [("rate", .const (.literal 1 0))]⟩, [⟨"rate", next⟩]⟩ =
      (next.value env).map (rateMonth next 1) := by
  have hsecond : rateMonths.period? 1 = some ⟨1, .literal 2015 2 1, .literal 2015 3 1⟩ := rfl
  have hvars : rebindAll env (.ofList [("rate", .const (.literal 1 0))]) [⟨"rate", next⟩] =
      (next.value env).map fun rate => .ofList [("rate", .const rate)] := by
    rw [rebindAll]
    cases next.value env with
    | error cause => rfl
    | ok rate => exact congrArg Except.ok (OrderedMap.insert_singleton ..)
  rw [Resume.step_of_period hsecond, hvars]
  cases next.value env <;> rfl

theorem rateAction_settle (hnext : next.Closed) (env : Environment) :
    (rateAction next 0 (.literal 1 0)).continuation.settle env =
      (next.value env).map (rateMonth next 1) := by
  unfold rateAction
  dsimp only
  rw [Arrangement.settle_resume, rateAction_step]
  cases next.value env with
  | error cause => rfl
  | ok rate =>
    rw [Except.map, secondMonth_eq hnext]
    exact Arrangement.settle_actions _ _

/-- The first month is paid if `next` has a value, the rate of the second. -/
theorem firstMonth_run (hnext : next.Closed) {rate : Decimal} (hrate : next.value env = .ok rate) :
    ∃ o, Replay.run .standard env (firstMonth next) [payFirst] = .ok o ∧
      o.final = rateMonth next 1 rate := by
  have hsettle := rateAction_settle hnext env
  rw [hrate] at hsettle
  have helect : (firstMonth next).elect env ⟨"a"⟩ "pay" (.literal 2015 1 1) =
      .ok ⟨"pay", ⟨"a"⟩, .literal 2015 1 1, [⟨⟨"a"⟩, ⟨"b"⟩, .literal 1 0, .usd⟩],
        rateMonth next 1 rate⟩ := by
    have hactor : (Party.only ⟨"a"⟩).contains ⟨"a"⟩ = true := by decide
    rw [firstMonth_eq hnext]
    exact Arrangement.elect_eq_ok.mpr ⟨_, _, _, rfl, hactor,
      Arrangement.carryOut_eq_ok.mpr ⟨rfl, hsettle⟩, rfl⟩
  simp only [Replay.run, Replay.elections, payFirst, helect]
  exact ⟨_, rfl, rfl⟩

theorem firstMonth_fails (hnext : next.Closed) {cause : EvalError}
    (hrate : next.value env = .error cause) :
    Replay.run .standard env (firstMonth next) [payFirst] =
      .error (.election 0 ⟨"a"⟩ "pay" (.unresolved cause)) := by
  have hsettle := rateAction_settle hnext env
  rw [hrate] at hsettle
  have helect : (firstMonth next).elect env ⟨"a"⟩ "pay" (.literal 2015 1 1) =
      .error (.unresolved cause) := by
    have hactor : (Party.only ⟨"a"⟩).contains ⟨"a"⟩ = true := by decide
    rw [firstMonth_eq hnext]
    refine Arrangement.elect_eq_unresolved.mpr ⟨_, rfl, hactor, ?_⟩
    exact bind_eq_error.mpr (.inr ⟨_, rfl, bind_eq_error.mpr (.inl hsettle)⟩)
  simp only [Replay.run, Replay.elections, payFirst, helect]
  rfl

theorem firstMonth_carriesOut (hnext : next.Closed) {action : Action Arrangement}
    (h : Replay.CarriesOut .standard env none (firstMonth next) [payFirst] action) :
    action = rateAction next 0 (.literal 1 0) := by
  rw [firstMonth_eq hnext] at h
  cases h with
  | now _ hopen _ =>
    cases hopen
    rfl
  | later _ _ hrest => cases hrest

theorem firstMonth_rebinds (hnext : next.Closed) {a : Amount}
    (h : Replay.Rebinds .standard env (firstMonth next) [payFirst] a) : a = next := by
  obtain ⟨action, payments, hcarries, -, ha⟩ := h
  cases firstMonth_carriesOut hnext hcarries
  exact (Arrangement.Revalues.valued ha).eq_of_singleton

theorem firstMonth_divides (hnext : next.Closed) {x y : Decimal}
    (h : Replay.Divides .standard env (firstMonth next) [payFirst] x y) : next.Divides env x y := by
  obtain ⟨action, a, hcarries, ha, hxy⟩ := h
  cases firstMonth_carriesOut hnext hcarries
  cases ha with
  | payment ha =>
    cases ha.eq_of_singleton
    cases hxy
  | rebind _ ha =>
    cases (Arrangement.Revalues.valued ha).eq_of_singleton
    exact hxy

/-- A third of `rate`. -/
def thirdOfRate : Amount := .binary .div (.var "rate") (.const (.literal 3 0))

theorem thirdOfRate_closed : thirdOfRate.Closed := ⟨rfl, rfl⟩

theorem thirdOfRate_divides {x y : Decimal} (h : thirdOfRate.Divides env x y) :
    x.EvenlyDivided y := by
  cases h with
  | here _ hy hzero =>
    cases hy
    exact Decimal.evenlyDivided_of_narrow hzero (by decide)
  | left h => cases h
  | right _ h => cases h

/-- A third has the same form whether `rate` is written 1.1 or 1.10. -/
theorem thirdOfRate_replays_agree :
    let t := firstMonth thirdOfRate
    let env := rateData (.literal 11 1)
    let env' := rateData (.literal 110 2)
    rollOut rateMonths (payRate thirdOfRate) = .ok t ∧ env.Agree env' ∧
    (∀ x y, Replay.Divides .standard env t [payFirst] x y → x.EvenlyDivided y) ∧
    (∀ x y, Replay.Divides .standard env' t [payFirst] x y → x.EvenlyDivided y) ∧
    ∃ o o', Replay.run .standard env t [payFirst] = .ok o ∧
      Replay.run .standard env' t [payFirst] = .ok o' ∧
      (∀ a, Replay.Rebinds .standard env t [payFirst] a → a.value env = a.value env') ∧
      o.final = o'.final ∧ o.digest = o'.digest := by
  intro t env env'
  have hvalue : thirdOfRate.value env = .ok (.literal 3666666666666666666666666667 28) := by
    decide +kernel
  have hvalue' : thirdOfRate.value env' = .ok (.literal 3666666666666666666666666667 28) := by
    decide +kernel
  have henv : env.Agree env' := ⟨by decide +kernel, rfl⟩
  have hdiv : ∀ x y, Replay.Divides .standard env t [payFirst] x y → x.EvenlyDivided y :=
    fun x y h => thirdOfRate_divides (firstMonth_divides thirdOfRate_closed h)
  have hdiv' : ∀ x y, Replay.Divides .standard env' t [payFirst] x y → x.EvenlyDivided y :=
    fun x y h => thirdOfRate_divides (firstMonth_divides thirdOfRate_closed h)
  have hrebinds : ∀ a, Replay.Rebinds .standard env t [payFirst] a →
      a.value env = a.value env' := fun a h => by
    rw [firstMonth_rebinds thirdOfRate_closed h, hvalue, hvalue']
  obtain ⟨o, ho, -⟩ := firstMonth_run thirdOfRate_closed hvalue
  obtain ⟨o', ho', -⟩ := firstMonth_run thirdOfRate_closed hvalue'
  obtain ⟨-, -, hsame⟩ := replays_agree henv .standard t [payFirst] hdiv hdiv'
  exact ⟨rfl, henv, hdiv, hdiv', o, o', ho, ho', hrebinds, (hsame o o' ho ho').2 hrebinds⟩

theorem digest_rateMonth_ne : (rateMonth (.var "rate") 1 (.literal 11 1)).digest ≠
    (rateMonth (.var "rate") 1 (.literal 110 2)).digest := by
  intro h
  have hbytes := congrArg Digest.bytes h
  rw [Arrangement.bytes_digest, Arrangement.bytes_digest] at hbytes
  revert hbytes
  decide +kernel

/-- The reciprocal of a difference that is zero, if the quotient in it is the decimal below the one
that stands for it. -/
def reciprocal : Amount :=
  .binary .div (.const (.literal 1 0)) (.binary .sub
    (.binary .div (.const (.literal 15845632502852867518708790069 0)) (.var "rate"))
    (.const (.literal 7922816251426433759354395034 1)))

/-- Written 1.1 and 1.10, one rate leads to two digests. Written 20 and 20.000000000000000000, one
rate leads to a division by zero with the one holder and to no failure with the other. -/
theorem rate_forms_show :
    let rate := Amount.var "rate"
    (∃ o o', rollOut rateMonths (payRate rate) = .ok (firstMonth rate) ∧
      (firstMonth rate).validate = .ok () ∧
      (rateData (.literal 11 1)).Agree (rateData (.literal 110 2)) ∧
      Replay.run .standard (rateData (.literal 11 1)) (firstMonth rate) [payFirst] = .ok o ∧
      Replay.run .standard (rateData (.literal 110 2)) (firstMonth rate) [payFirst] = .ok o' ∧
      o.digest ≠ o'.digest) ∧
    ∃ cause o, rollOut rateMonths (payRate reciprocal) = .ok (firstMonth reciprocal) ∧
      (firstMonth reciprocal).validate = .ok () ∧
      (rateData (.literal 20 0)).Agree (rateData (.literal 20000000000000000000 18)) ∧
      Replay.run .standard (rateData (.literal 20 0)) (firstMonth reciprocal) [payFirst] =
        .error cause ∧
      Replay.run .standard (rateData (.literal 20000000000000000000 18)) (firstMonth reciprocal)
        [payFirst] = .ok o := by
  intro rate
  have hrate : rollOut rateMonths (payRate rate) = .ok (firstMonth rate) := rfl
  have hreciprocal : rollOut rateMonths (payRate reciprocal) = .ok (firstMonth reciprocal) := rfl
  constructor
  · have hvalue : rate.value (rateData (.literal 11 1)) = .ok (.literal 11 1) := rfl
    have hvalue' : rate.value (rateData (.literal 110 2)) = .ok (.literal 110 2) := rfl
    obtain ⟨o, ho, hfinal⟩ := firstMonth_run ⟨rfl, rfl⟩ hvalue
    obtain ⟨o', ho', hfinal'⟩ := firstMonth_run ⟨rfl, rfl⟩ hvalue'
    refine ⟨o, o', hrate, Arrangement.validate_rollOut hrate, ⟨by decide +kernel, rfl⟩, ho, ho', ?_⟩
    rw [Replay.Outcome.digest, Replay.Outcome.digest, hfinal, hfinal']
    exact digest_rateMonth_ne
  · have hzero : reciprocal.value (rateData (.literal 20 0)) =
        .error (.divisionByZero (.literal 1 0) (.literal 0 1)) := by decide +kernel
    have hten : reciprocal.value (rateData (.literal 20000000000000000000 18)) =
        .ok (.literal 10 0) := by decide +kernel
    obtain ⟨o, ho, -⟩ := firstMonth_run ⟨rfl, rfl⟩ hten
    exact ⟨_, o, hreciprocal, Arrangement.validate_rollOut hreciprocal, ⟨by decide +kernel, rfl⟩,
      firstMonth_fails ⟨rfl, rfl⟩ hzero, ho⟩

end Covenant
