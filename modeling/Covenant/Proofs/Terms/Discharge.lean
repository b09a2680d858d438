/-
# How contracts from terms come to an end

After the last date of a contract one of its parties can bring it to an end all
by itself, `a.EndsBy (MadeBy p day)`, if the market and the variables let it. A
cancellable swap, a target redemption forward and a forward can always be
brought to an end so. A swap can just if the fixed leg of every period that is
left has a value, which it has not if it is too large. In a target redemption
forward periods can be skipped, and that takes no market at all.

Key definitions: `SwapTerms.FixedLegsFrom`, `TarfTerms.atStart`,
`TarfTerms.Skips`.
Key theorems: `SwapTerms.endsBy_iff`, `SwaptionTerms.endsBy_after`,
`FxForwardTerms.endsBy_of_run`, `TarfTerms.endsBy_skips`,
`TarfTerms.endsBy_of_run`.
-/
import Covenant.Proofs.Run.Open
import Covenant.Proofs.Terms.FxForward
import Covenant.Proofs.Terms.Swap
import Covenant.Proofs.Terms.Swaption
import Covenant.Proofs.Terms.Tarf

namespace Covenant

/-- The election is made by `p` on the day. -/
def MadeBy (p : Party) (day : Date) (_ : Environment) (e : Election) : Prop :=
  e.actor = p ∧ e.day = day

/-! ### Swaps -/

namespace SwapTerms

variable {terms : SwapTerms} {i : Nat} {p : Party} {day : Date}

/-- Every period from number `i` on has a value for its fixed leg, `fixedDayCount.interest` on the
notional at the fixed rate. -/
def FixedLegsFrom (terms : SwapTerms) (i : Nat) : Prop :=
  ∀ j, i ≤ j → ∀ period, terms.schedule.period? j = some period →
    ∃ x, terms.fixedDayCount.interest terms.notional terms.fixedRate period.start period.finish =
      .ok x

/-- In an environment in which the index stands at zero a period can be settled if its fixed leg has
a value. -/
theorem exists_elect_inPeriod (hp : p = terms.floatingPayer ∨ p = terms.fixedPayer)
    {period : Period} (hperiod : terms.schedule.period? i = some period)
    (hday : period.finish < day) {x : Decimal}
    (hx : terms.fixedDayCount.interest terms.notional terms.fixedRate period.start period.finish =
      .ok x) :
    ∃ env e, (terms.inPeriod i).elect env e.actor e.label e.day = .ok e ∧ MadeBy p day env e ∧
      e.successor = terms.inPeriod (i + 1) := by
  have hpays : terms.legs.Pays ⟨.empty,
      .ofList [(.fixing terms.floatingIndex period.start period.finish, .zero)]⟩
      period.start period.finish _ :=
    .intro rfl rfl (Environment.observe_singleton _ _ .zero)
      (terms.floatingDayCount.interest_of_isZero (Bool.or_true _) _ _) hx
  exact ⟨_, ⟨"proceed", p, day, _, _⟩,
    elect_inPeriod_eq_ok.mpr ⟨⟨period, (Schedule.getElem?_periods _ _).trans hperiod,
      rfl, hp, hday, hpays⟩, rfl⟩, ⟨rfl, rfl⟩, rfl⟩

/-- **When a swap can be brought to an end**: just if what is left of the fixed leg has values,
`FixedLegsFrom i`. -/
theorem endsBy_iff (hp : p = terms.floatingPayer ∨ p = terms.fixedPayer)
    (hday : terms.finish < day) :
    (terms.inPeriod i).EndsBy (MadeBy p day) ↔ terms.FixedLegsFrom i := by
  constructor
  · intro h
    generalize ha : terms.inPeriod i = a at h
    induction h generalizing i with
    | zero =>
      intro j hj period hperiod
      have hpast := Nat.le_trans (inPeriod_eq_zero_iff.mp ha) hj
      have hlt := Schedule.isSome_period?_iff_lt.mp (Option.isSome_iff_exists.mpr ⟨_, hperiod⟩)
      omega
    | elect helect _ _ ih =>
      rw [← ha, elect_inPeriod_eq_ok] at helect
      obtain ⟨⟨period, hperiod, hsettles⟩, hsuccessor⟩ := helect
      rw [Schedule.getElem?_periods] at hperiod
      intro j hj q hq
      rcases Nat.eq_or_lt_of_le hj with rfl | hlt
      · cases hperiod.symm.trans hq
        obtain ⟨_, _, x, ⟨⟩, ⟨⟩, hfixed⟩ := hsettles.pays.exists_fixed
        exact ⟨x, hfixed⟩
      · exact ih hsuccessor.symm j hlt q hq
  · intro hvalues
    induction i using Schedule.induction_from_end (s := terms.schedule) with
    | past i hnone =>
      rw [inPeriod_of_none hnone]
      exact .zero
    | period i period hperiod ih =>
      obtain ⟨x, hx⟩ := hvalues i (Nat.le_refl i) period hperiod
      have hended : period.finish < day :=
        Int.lt_of_le_of_lt (Schedule.finish_le_finish hperiod) hday
      obtain ⟨env, e, helect, hmade, hsuccessor⟩ := exists_elect_inPeriod hp hperiod hended hx
      refine .elect helect hmade ?_
      rw [hsuccessor]
      exact ih fun j hj => hvalues j (Nat.le_of_succ_le hj)

theorem eq_inPeriod_of_run {t a : Arrangement} {made : List Election} (hbuild : terms.build = .ok t)
    (hrun : Run t made a) : a = terms.inPeriod made.length := by
  obtain ⟨-, rfl⟩ := build_eq_ok.mp hbuild
  obtain ⟨recorded, rfl, hrecorded⟩ := run_iff_exists_runIn.mp hrun
  rw [List.length_map]
  exact ((runIn_line_iff fun i env e => @elect_inPeriod_eq_ok terms i env e).mp hrecorded).1

end SwapTerms

/-! ### Cancellable swaps -/

namespace SwaptionTerms

variable {terms : SwaptionTerms} {i : Nat} {p : Party} {day : Date}

/-- In an environment in which the notional, the coupon and the index stand at zero the next period
can be settled. -/
theorem exists_elect_after (hdates : 2 ≤ terms.accrualDates.length)
    (hp : p = terms.bank ∨ p = terms.corp) {start finish : Date}
    (hstart : terms.accrualDates[i]? = some start)
    (hfinish : terms.accrualDates[i + 1]? = some finish) (hday : finish < day) :
    ∃ env e, (terms.after i).elect env e.actor e.label e.day = .ok e ∧ MadeBy p day env e ∧
      e.successor = terms.after (i + 1) := by
  have hpays : terms.legs.Pays ⟨.ofList [("notional", .zero), ("coupon", .zero)],
      .ofList [(.fixing "LIBOR" start finish, .zero)]⟩ start finish _ :=
    .intro rfl rfl (Environment.observe_singleton _ _ .zero)
      (DayCount.interest_of_isZero _ rfl _ _) (DayCount.interest_of_isZero _ rfl _ _)
  exact ⟨_, ⟨"proceed", p, day, _, _⟩, (elect_after_eq_ok hdates).mpr
    (.inl ⟨⟨start, finish, hstart, hfinish, rfl, hp, hday, hpays⟩, rfl⟩), ⟨rfl, rfl⟩, rfl⟩

/-- **A cancellable swap can be brought to an end** at any time, by `bank` or `corp`. -/
theorem endsBy_after (hdates : 2 ≤ terms.accrualDates.length)
    (hp : p = terms.bank ∨ p = terms.corp) (hday : ∀ d ∈ terms.accrualDates, d < day) :
    (terms.after i).EndsBy (MadeBy p day) := by
  induction hleft : terms.accrualDates.length - (i + 1) generalizing i with
  | zero =>
    rw [(after_eq_zero_iff hdates).mpr (by omega)]
    exact .zero
  | succ left ih =>
    have hnext : i + 1 < terms.accrualDates.length := by omega
    obtain ⟨env, e, helect, hmade, hsuccessor⟩ := exists_elect_after hdates hp
      (List.getElem?_eq_getElem (Nat.lt_of_succ_lt hnext)) (List.getElem?_eq_getElem hnext)
      (hday _ (List.getElem_mem hnext))
    refine .elect helect hmade ?_
    rw [hsuccessor]
    exact ih (by omega)

theorem endsBy_of_run {t a : Arrangement} {made : List Election} (hbuild : terms.build = .ok t)
    (hrun : Run t made a) (hp : p = terms.bank ∨ p = terms.corp)
    (hday : ∀ d ∈ terms.accrualDates, d < day) : a.EndsBy (MadeBy p day) := by
  obtain ⟨⟨hdates, -⟩, rfl⟩ := build_eq_ok.mp hbuild
  obtain ⟨recorded, rfl, hrecorded⟩ := run_iff_exists_runIn.mp hrun
  obtain ⟨rfl, -⟩ | ⟨_, _, -, -, -, rfl⟩ :=
    (runIn_row_iff fun i env e => @elect_after_eq_ok terms env e i hdates).mp hrecorded
  · exact endsBy_after hdates hp hday
  · exact .zero

end SwaptionTerms

/-! ### Forwards -/

namespace FxForwardTerms

variable {terms : FxForwardTerms} {p : Party} {day : Date}

/-- All that a forward leads to is nothing. -/
theorem eq_zero_of_run {t a : Arrangement} {made : List Election} (hbuild : terms.build = .ok t)
    (hrun : Run t made a) :
    t = .actions [terms.deliver, terms.cashSettle] ∧ (a = t ∨ a = .zero) := by
  cases build_eq_ok.mp hbuild
  refine ⟨rfl, ?_⟩
  induction hrun with
  | start => exact .inl rfl
  | elect _ helect ih =>
    obtain rfl | rfl := ih
    · obtain ⟨rfl, rfl, rfl⟩ := Arrangement.eq_of_elect_eq_ok helect
      obtain ⟨-, -, hzero, -⟩ := elect_eq_ok.mp helect
      exact .inr hzero
    · exact absurd helect Arrangement.elect_zero_ne_ok

/-- **A forward can be brought to an end** by `cashSettle`, with spot at the agreed rate. -/
theorem endsBy_of_run {t a : Arrangement} {made : List Election} (hbuild : terms.build = .ok t)
    (hrun : Run t made a) (hp : p = terms.buyer ∨ p = terms.seller) (hday : terms.maturity < day) :
    a.EndsBy (MadeBy p day) := by
  obtain ⟨rfl, rfl | rfl⟩ := eq_zero_of_run hbuild hrun
  · obtain ⟨d, hd, hzero⟩ := terms.forwardRate.exists_sub_self
    have hgain : d.mul terms.notional = some .zero :=
      Operator.mul_eq_ok.mp (Operator.mul_of_isZero (by rw [hzero, Bool.true_or]))
    have hspot := Environment.observe_singleton .empty
      (.spot terms.base terms.quoted terms.maturity) terms.forwardRate
    have helect := (@elect_eq_ok terms _ ⟨"cashSettle", p, day, _, .zero⟩).mpr
      ⟨hp, hday, rfl, .inr ⟨rfl, .intro hspot hd hgain⟩⟩
    exact .elect helect ⟨rfl, rfl⟩ .zero
  · exact .zero

end FxForwardTerms

/-! ### Target redemption forwards -/

namespace TarfTerms

/-- The forward at the start of the period `i`, with any variables; `zero` after the last period. -/
def atStart (terms : TarfTerms) (i : Nat) (vars : OrderedMap String Amount) : Arrangement :=
  Rollout.instantiate ⟨terms.schedule, terms.body, i, vars⟩

/-- The election skips a period: `p` makes it on the day, in the environment `given`, and it pays
nothing. -/
structure Skips (p : Party) (day : Date) (given : Environment) (env : Environment) (e : Election) :
    Prop where
  env_eq : env = given
  actor_eq : e.actor = p
  day_eq : e.day = day
  label_eq : e.label = "proceedWithoutExercise"
  payments_eq : e.payments = []

variable {terms : TarfTerms} {s : Standing} {p : Party} {day : Date}

theorem atStart_of_none {i : Nat} {vars : OrderedMap String Amount}
    (h : terms.schedule.period? i = none) : terms.atStart i vars = .zero := by
  unfold atStart Rollout.instantiate
  dsimp only
  rw [h]

/-- At its start a period can be skipped by `proceedWithoutExercise` in every environment, after it
has ended. -/
theorem elect_skip {i : Nat} {vars : OrderedMap String Amount} {period : Period}
    (hp : p = terms.bank ∨ p = terms.corp) (hperiod : terms.schedule.period? i = some period)
    (hday : period.finish < day) (env : Environment) :
    (terms.atStart i vars).elect env p "proceedWithoutExercise" day =
      .ok ⟨"proceedWithoutExercise", p, day, [], terms.atStart (i + 1) vars⟩ := by
  have hstart : terms.atStart i vars =
      .actions (terms.body.choices.map (Arrangement.bindAction _ period)) :=
    (Rollout.instantiate_of_period hperiod).trans (Arrangement.bind_actions _ period _)
  have hlabels : ((terms.body.choices.map (Arrangement.bindAction
      ⟨terms.schedule, terms.body, i, vars⟩ period)).map Action.label).Nodup := by
    simp [body, Arrangement.choices, Arrangement.bindAction]
  rw [hstart]
  exact (Arrangement.elect_actions_eq_ok hlabels (e := ⟨_, p, day, [], _⟩)).mpr ⟨_,
    List.mem_cons_of_mem _ List.mem_cons_self, rfl, decide_eq_true hday, Party.contains_or.mpr hp,
    rfl, Arrangement.settle_resume_nil rfl env⟩

/-- **Skipping takes no market.** Whatever `env` is, from the start of a period on a party can skip
all periods that are left. -/
theorem endsBy_skips {i : Nat} {vars : OrderedMap String Amount}
    (hp : p = terms.bank ∨ p = terms.corp) (hday : terms.finish < day) (env : Environment) :
    (terms.atStart i vars).EndsBy (Skips p day env) := by
  induction i using Schedule.induction_from_end (s := terms.schedule) with
  | past i hnone =>
    rw [atStart_of_none hnone]
    exact .zero
  | period i period hperiod ih =>
    have hended : period.finish < day :=
      Int.lt_of_le_of_lt (Schedule.finish_le_finish hperiod) hday
    have helect := @elect_skip terms p day i vars period hp hperiod hended env
    refine .elect (e := ⟨_, p, day, [], _⟩) helect ⟨rfl, rfl, rfl, rfl, rfl⟩ ih

/-! #### Settling at the strike -/

/-- What the client gains by the strike, if it is a gain. -/
def gain (terms : TarfTerms) : Amount :=
  .plus (.binary .mul (.binary .sub (.observe (.spot terms.base terms.quoted .periodEnd))
    (.const terms.strike)) (.const terms.notional))

section

variable {env : Environment} {frame : Frame} {start finish : Date}

/-- With spot at the strike there is nothing to gain. -/
theorem value_gain (hbounds : frame.bounds = some (start, finish))
    (hspot : env.observe (.spot terms.base terms.quoted finish) = .ok terms.strike) :
    terms.gain.valueIn env frame = .ok .zero := by
  obtain ⟨d, hd, hzero⟩ := terms.strike.exists_sub_self
  have hkey : frame.key (.spot terms.base terms.quoted .periodEnd) =
      .ok (.spot terms.base terms.quoted finish) := by
    unfold Frame.key Frame.date Frame.date?
    rw [hbounds]
    rfl
  have hproduct : Operator.mul.apply d terms.notional = .ok .zero :=
    Operator.mul_of_isZero (by rw [hzero, Bool.true_or])
  simp only [gain, Amount.valueIn, bind_eq_ok, hkey, hspot, Operator.sub_eq_ok, hd, hproduct,
    Except.ok.injEq, Option.some.injEq, exists_eq_left']
  rfl

/-- So a settlement pays nothing, or `s.cap` if what is left of the target is negative. -/
theorem value_payout (hvars : frame.vars = counters s.uses s.cap)
    (hbounds : frame.bounds = some (start, finish))
    (hspot : env.observe (.spot terms.base terms.quoted finish) = .ok terms.strike) :
    terms.payout.valueIn env frame =
      .ok (if Relation.gt.holds s.uses .zero = true then Decimal.zero.min s.cap else .zero) := by
  refine bind_eq_ok.mpr ⟨_, state_uses hvars, bind_eq_ok.mpr ⟨_, rfl, ?_⟩⟩
  by_cases huses : Relation.gt.holds s.uses .zero = true
  · rw [if_pos huses, if_pos huses]
    exact bind_eq_ok.mpr ⟨_, value_gain hbounds hspot, bind_eq_ok.mpr ⟨_, state_cap hvars, rfl⟩⟩
  · rw [if_neg huses, if_neg huses]
    rfl

/-- In either case the rest of the target is a number: `s.cap.sub paid`. -/
theorem exists_payout (hvars : frame.vars = counters s.uses s.cap)
    (hbounds : frame.bounds = some (start, finish))
    (hspot : env.observe (.spot terms.base terms.quoted finish) = .ok terms.strike) :
    ∃ paid cap, terms.payout.valueIn env frame = .ok paid ∧ s.cap.sub paid = some cap := by
  have hrest : ∃ cap, s.cap.sub (if Relation.gt.holds s.uses .zero = true then
      Decimal.zero.min s.cap else .zero) = some cap := by
    split
    · exact s.cap.exists_sub_zero_min
    · exact s.cap.exists_sub_zero
  obtain ⟨cap, hcap⟩ := hrest
  exact ⟨_, cap, value_payout hvars hbounds hspot, hcap⟩

end

/-! #### Standings that are reached -/

/-- `s.uses` is a whole number of less than 32 bits, and below zero by no more than there were
periods. -/
def Standing.Counted (s : Standing) : Prop :=
  ∃ k : Int, s.uses.toRat = k ∧ -(s.period : Int) ≤ k ∧ k < UInt32.size

/-- So there is one use less. -/
theorem Standing.Counted.exists_sub (h : s.Counted) (hspan : s.period ≤ Schedule.span) :
    ∃ uses, s.uses.sub .one = some uses ∧
      ∀ cap exercised, (⟨s.period + 1, uses, cap, exercised⟩ : Standing).Counted := by
  obtain ⟨k, hk, hge, hlt⟩ := h
  obtain ⟨uses, huses, hless⟩ :=
    Option.map_eq_some_iff.mp (toRat_sub_one hk hlt (by omega))
  refine ⟨uses, huses, fun _ _ => ⟨k - 1, hless, ?_, by omega⟩⟩
  dsimp only
  omega

/-- An election keeps the uses `Counted`. -/
theorem LeadsTo.counted {next : Option Standing} {q : Position} (h : terms.LeadsTo s next q)
    (hs : s.Counted) (hspan : s.period ≤ Schedule.span) : ∀ s' ∈ next, s'.Counted := by
  intro s' hs'
  obtain ⟨hle, huses⟩ | ⟨hperiod, huses⟩ := h.uses_eq s' hs'
  · obtain ⟨k, hk, hge, hlt⟩ := hs
    exact ⟨k, huses ▸ hk, by omega, hlt⟩
  · obtain ⟨uses, hsome, hcounted⟩ := hs.exists_sub hspan
    cases huses.symm.trans hsome
    have hnext := hcounted s'.cap s'.exercised
    rw [hperiod] at hnext
    exact hnext

theorem period_le_span (h : (terms.position s).Valid) : s.period ≤ Schedule.span :=
  Nat.le_trans (Nat.le_of_lt (lt_periodCount h)) terms.schedule.periodCount_le_span

/-- **Every run leads to a standing with countable uses**, whatever the target is, or to `none`, the
end. -/
theorem exists_standing {t a : Arrangement} {made : List Election} (hbuild : terms.build = .ok t)
    (hrun : Run t made a) :
    ∃ next, a = terms.tree next ∧ ∀ s ∈ next, (terms.position s).Valid ∧ s.Counted := by
  induction hrun with
  | start =>
    obtain ⟨hvalid, htree⟩ := valid_first hbuild
    have hcounted : terms.first.Counted :=
      ⟨terms.uses.toNat, Decimal.toRat_ofNat _, by omega, by exact_mod_cast terms.uses.toNat_lt⟩
    exact ⟨some terms.first, htree.symm, fun s hs => by cases hs; exact ⟨hvalid, hcounted⟩⟩
  | elect _ helect ih =>
    obtain ⟨_ | s, rfl, hall⟩ := ih
    · -- nothing can be elected once the forward is over
      exact absurd helect Arrangement.elect_zero_ne_ok
    · obtain ⟨hvalid, hcounted⟩ := hall s rfl
      obtain ⟨payments, q, hq, rfl⟩ := hvalid.elect_tree_eq_ok.mp helect
      obtain ⟨_, next, -, hleads⟩ := leadsTo_of_elect hvalid hq
      refine ⟨next, hleads.tree_eq, fun s' hs' => ⟨?_, ?_⟩⟩
      · rw [← hleads.position_eq s' hs']
        exact hvalid.valid_elect hq
      · exact hleads.counted hcounted (period_le_span hvalid) s' hs'

/-- Before an exercise a standing is at `atStart` of its period. -/
theorem tree_eq_atStart (h : s.exercised = false) :
    terms.tree (some s) = terms.atStart s.period (counters s.uses s.cap) := by
  have hposition : terms.position s = ⟨terms.rolloutAt s.period s.uses s.cap, terms.body⟩ := by
    simp [position, h]
  refine (congrArg Position.tree hposition).trans ?_
  unfold Position.tree atStart Rollout.instantiate rolloutAt
  cases terms.schedule.period? s.period <;> rfl

/-- What is left of a forward is at the start of a period, or was exercised in one. -/
theorem atStart_or_exercised {t a : Arrangement} {made : List Election}
    (hbuild : terms.build = .ok t) (hrun : Run t made a) :
    (∃ i vars, a = terms.atStart i vars) ∨
      ∃ s : Standing, s.exercised = true ∧ a = terms.tree (some s) := by
  obtain ⟨_ | s, rfl, -⟩ := exists_standing hbuild hrun
  · have hnone : terms.schedule.period? terms.schedule.periodCount = none := by
      rw [← Option.not_isSome_iff_eq_none, Schedule.isSome_period?_iff_lt]
      exact Nat.lt_irrefl _
    exact .inl ⟨_, .empty, (atStart_of_none hnone).symm⟩
  · cases hexercised : s.exercised with
    | false => exact .inl ⟨_, _, tree_eq_atStart hexercised⟩
    | true => exact .inr ⟨s, hexercised, rfl⟩

/-- With a payout and the rests after it the settlement leads to the next period, or to the end. -/
theorem proceed_settlement {env : Environment} {paid uses cap : Decimal}
    (hvars : (terms.position s).rollout.frame.vars = counters s.uses s.cap)
    (hpaid : terms.payout.valueIn env (terms.position s).rollout.frame = .ok paid)
    (huses : s.uses.sub .one = some uses) (hcap : s.cap.sub paid = some cap) :
    ∃ q, Position.proceed env ⟨(terms.position s).rollout, .next
        [⟨"uses", .binary .sub (.state "uses") (.const .one)⟩,
          ⟨"cap", .binary .sub (.state "cap") terms.payout⟩]⟩ = .ok q ∧
      (q.tree = .zero ∨ q = terms.position ⟨s.period + 1, uses, cap, false⟩) := by
  cases hnext : (terms.position s).rollout.schedule.period? ((terms.position s).rollout.period + 1)
  with
  | none => exact ⟨_, Position.proceed_next_of_last _ hnext, .inl (Position.tree_zero _)⟩
  | some period =>
    have hvalues : rebindValues env (terms.position s).rollout.frame
        [⟨"uses", .binary .sub (.state "uses") (.const .one)⟩,
          ⟨"cap", .binary .sub (.state "cap") terms.payout⟩] =
        .ok [("uses", uses), ("cap", cap)] := by
      have hless : (Amount.binary .sub (.state "uses") (.const .one)).valueIn env
          (terms.position s).rollout.frame = .ok uses :=
        bind_eq_ok.mpr ⟨_, state_uses hvars, bind_eq_ok.mpr ⟨_, rfl, Operator.sub_eq_ok.mpr huses⟩⟩
      have hrest : (Amount.binary .sub (.state "cap") terms.payout).valueIn env
          (terms.position s).rollout.frame = .ok cap :=
        bind_eq_ok.mpr ⟨_, state_cap hvars, bind_eq_ok.mpr ⟨_, hpaid, Operator.sub_eq_ok.mpr hcap⟩⟩
      refine bind_eq_ok.mpr ⟨uses, hless, bind_eq_ok.mpr ⟨[("cap", cap)], ?_, rfl⟩⟩
      exact bind_eq_ok.mpr ⟨cap, hrest, rfl⟩
    refine ⟨_, ?_, .inr (terms.position_advance s uses cap)⟩
    rw [Position.proceed_next _ hnext, hvalues]
    exact Position.proceed_actions _ _

/-- After an exercise the settlement is open once the period has ended. -/
theorem open?_settlement (hexercised : s.exercised = true) {start finish : Date}
    (hbounds : (terms.position s).rollout.frame.bounds = some (start, finish))
    (hday : finish < day) :
    (terms.position s).open? "proceed" day = terms.settlement.choices.head? := by
  have hnode : (terms.position s).node = terms.settlement := by simp [position, hexercised]
  have hguard : (Guard.after .periodEnd).holdsIn (terms.position s).rollout.frame day = true := by
    unfold Guard.holdsIn Frame.date?
    rw [hbounds]
    exact decide_eq_true hday
  unfold Position.open?
  rw [hnode]
  exact List.find?_cons_of_pos (by rw [hguard]; rfl)

/-- **What was exercised can be settled** if spot is at the strike, which leads to the start of the
next period, or to the end. -/
theorem exists_elect_settlement (hvalid : (terms.position s).Valid) (hcounted : s.Counted)
    (hexercised : s.exercised = true) (hp : p = terms.bank ∨ p = terms.corp)
    (hday : terms.finish < day) :
    ∃ env e, (terms.tree (some s)).elect env e.actor e.label e.day = .ok e ∧ MadeBy p day env e ∧
      (e.successor = .zero ∨ ∃ i vars, e.successor = terms.atStart i vars) := by
  obtain ⟨period, hperiod, -, hframe⟩ := hvalid.exists_period
  have hended : period.finish < day :=
    Int.lt_of_le_of_lt (Schedule.finish_le_finish hperiod) hday
  have hbounds : (terms.position s).rollout.frame.bounds = some (period.start, period.finish) := by
    rw [hframe]
  have hvars : (terms.position s).rollout.frame.vars = counters s.uses s.cap := by
    rw [hframe]
    rfl
  have hspot := Environment.observe_singleton .empty
    (.spot terms.base terms.quoted period.finish) terms.strike
  obtain ⟨paid, cap, hpaid, hcap⟩ := exists_payout hvars hbounds hspot
  obtain ⟨uses, huses, -⟩ := hcounted.exists_sub (period_le_span hvalid)
  have hopen := open?_settlement hexercised hbounds hended
  obtain ⟨q, hq, hnext⟩ := proceed_settlement hvars hpaid huses hcap
  have helect := Position.elect_eq_ok.mpr ⟨_, hopen, Party.contains_or.mpr hp,
    bind_eq_ok.mpr ⟨_, hpaid, rfl⟩, hq⟩
  refine ⟨_, ⟨"proceed", p, day, _, q.tree⟩,
    hvalid.elect_tree_eq_ok.mpr ⟨_, q, helect, rfl⟩, ⟨rfl, rfl⟩, hnext.imp_right ?_⟩
  rintro rfl
  exact ⟨_, _, tree_eq_atStart rfl⟩

/-- **A target redemption forward can be brought to an end** by `bank` or `corp`: what was exercised
is settled, and the periods after it are skipped. -/
theorem endsBy_of_run {t a : Arrangement} {made : List Election} (hbuild : terms.build = .ok t)
    (hrun : Run t made a) (hp : p = terms.bank ∨ p = terms.corp) (hday : terms.finish < day) :
    a.EndsBy (MadeBy p day) := by
  have hstart (i : Nat) (vars : OrderedMap String Amount) :
      (terms.atStart i vars).EndsBy (MadeBy p day) :=
    (endsBy_skips hp hday ⟨.empty, .empty⟩).imp fun _ _ h => ⟨h.actor_eq, h.day_eq⟩
  obtain ⟨_ | s, rfl, hall⟩ := exists_standing hbuild hrun
  · exact .zero
  · obtain ⟨hvalid, hcounted⟩ := hall s rfl
    cases hexercised : s.exercised with
    | false =>
      rw [tree_eq_atStart hexercised]
      exact hstart _ _
    | true =>
      obtain ⟨env, e, helect, hmade, hsuccessor⟩ :=
        exists_elect_settlement hvalid hcounted hexercised hp hday
      refine .elect helect hmade ?_
      obtain hzero | ⟨i, vars, hnext⟩ := hsuccessor
      · rw [hzero]
        exact .zero
      · rw [hnext]
        exact hstart i vars

end TarfTerms
end Covenant
