/-
# The two settlements of a forward

A forward comes to an end with its first election, in which either party has it
delivered or settled in cash after maturity. As long as nothing is rounded both
are worth the same to the buyer: `(spot - forwardRate) * notional`, whatever the
signs of the three. In cash it is paid by the one side that it is against.

Key definitions: `FxForwardTerms.Delivers`, `FxForwardTerms.SettlesInCash`,
`FxForwardTerms.Unrounded`.
Key theorems: `FxForwardTerms.elect_eq_ok`, `FxForwardTerms.unrounded_iff`,
`FxForwardTerms.settlements_worth_same`.
-/
import Covenant.Proofs.Amount.Operator
import Covenant.Proofs.Arrangement.Settling
import Covenant.Proofs.Decimal.Rounding
import Covenant.Proofs.Election
import Covenant.Proofs.Ledger
import Covenant.Proofs.Party
import Covenant.Terms.FxForward
import Mathlib.Algebra.Order.Group.MinMax

namespace Covenant

open Decimal (IsDecimal)

namespace FxForwardTerms

/-! ### Elections -/

/-- What delivery pays: `notional` to the buyer, its price at `forwardRate` to the seller. -/
inductive Delivers (terms : FxForwardTerms) : List Payment → Prop where
  | intro {price : Decimal} : terms.notional.mul terms.forwardRate = some price →
      Delivers terms [⟨terms.seller, terms.buyer, terms.notional, terms.base⟩,
        ⟨terms.buyer, terms.seller, price, terms.quoted⟩]

/-- What a settlement in cash pays: the difference of spot and `forwardRate`, on the notional, to
the side that gains it. -/
inductive SettlesInCash (terms : FxForwardTerms) (env : Environment) : List Payment → Prop where
  | intro {spot difference gain : Decimal} :
      env.observe (.spot terms.base terms.quoted terms.maturity) = .ok spot →
      spot.sub terms.forwardRate = some difference →
      difference.mul terms.notional = some gain →
      SettlesInCash terms env [⟨terms.seller, terms.buyer, gain.max .zero, terms.quoted⟩,
        ⟨terms.buyer, terms.seller, gain.neg.max .zero, terms.quoted⟩]

variable {terms : FxForwardTerms}

/-- Every forward can be made. -/
theorem build_eq_ok {t : Arrangement} :
    terms.build = .ok t ↔ t = .actions [terms.deliver, terms.cashSettle] := by
  have hvalidate : (Arrangement.actions [terms.deliver, terms.cashSettle]).validate = .ok () := by
    refine Arrangement.check_actions_eq_ok.mpr ⟨rfl, fun action haction => ?_⟩
    rcases List.mem_pair.mp haction with rfl | rfl
    all_goals
      refine ⟨Scope.checkAction_eq_ok.mpr ⟨Party.isEmpty_or _ _, nofun, fun o ho => ?_⟩, rfl⟩
      rcases List.mem_pair.mp ho with rfl | rfl <;> exact ⟨rfl, rfl⟩
  have hbuild : terms.build = .ok (.actions [terms.deliver, terms.cashSettle]) :=
    andThen_eq_ok.mpr ⟨hvalidate, rfl⟩
  rw [hbuild, Except.ok.injEq, eq_comm]

section

variable {env : Environment} {payments : List Payment}

theorem value_difference_eq_ok {x : Decimal} : terms.difference.value env = .ok x ↔
    ∃ spot d, env.observe (.spot terms.base terms.quoted terms.maturity) = .ok spot ∧
      spot.sub terms.forwardRate = some d ∧ d.mul terms.notional = some x := by
  have hkey : (Observable.spot terms.base terms.quoted (.fixed terms.maturity)).key =
      .ok (.spot terms.base terms.quoted terms.maturity) := rfl
  simp only [difference, Amount.value, hkey, Except.mapError, bind_eq_ok, Operator.sub_eq_ok,
    Operator.mul_eq_ok, Except.ok.injEq, exists_eq_left']
  constructor
  · rintro ⟨d, ⟨spot, hspot, hdifference⟩, hproduct⟩
    exact ⟨spot, d, hspot, hdifference, hproduct⟩
  · rintro ⟨spot, d, hspot, hdifference, hproduct⟩
    exact ⟨d, ⟨spot, hspot, hdifference⟩, hproduct⟩

theorem resolveAll_deliver :
    resolveAll env terms.deliver.effects = .ok payments ↔ terms.Delivers payments := by
  rw [deliver, resolveAll_pair_eq_ok]
  simp only [Amount.value, bind_eq_ok, Operator.mul_eq_ok, Except.ok.injEq, exists_eq_left']
  constructor
  · rintro ⟨_, _, rfl, hprice, rfl⟩
    exact .intro hprice
  · rintro ⟨hprice⟩
    exact ⟨_, _, rfl, hprice, rfl⟩

theorem resolveAll_cashSettle :
    resolveAll env terms.cashSettle.effects = .ok payments ↔ terms.SettlesInCash env payments := by
  rw [cashSettle, resolveAll_pair_eq_ok]
  dsimp only
  simp only [Amount.value, bind_eq_ok, pure_eq_ok]
  constructor
  · rintro ⟨_, _, ⟨gain, hgain, rfl⟩, ⟨_, ⟨_, hsame, rfl⟩, rfl⟩, rfl⟩
    cases hgain.symm.trans hsame
    obtain ⟨spot, d, hspot, hdifference, hproduct⟩ := value_difference_eq_ok.mp hgain
    exact .intro hspot hdifference hproduct
  · rintro ⟨hspot, hdifference, hproduct⟩
    have hgain := value_difference_eq_ok.mpr ⟨_, _, hspot, hdifference, hproduct⟩
    exact ⟨_, _, ⟨_, hgain, rfl⟩, ⟨_, ⟨_, hgain, rfl⟩, rfl⟩, rfl⟩

/-- **What can be elected of a forward**: either party has it delivered, `Delivers`, or settled in
cash, `SettlesInCash`, after maturity, and nothing is left. -/
theorem elect_eq_ok {e : Election} :
    (Arrangement.actions [terms.deliver, terms.cashSettle]).elect env e.actor e.label e.day =
        .ok e ↔
      (e.actor = terms.buyer ∨ e.actor = terms.seller) ∧ terms.maturity < e.day ∧
        e.successor = .zero ∧ (e.label = "deliver" ∧ terms.Delivers e.payments ∨
          e.label = "cashSettle" ∧ terms.SettlesInCash env e.payments) := by
  have hlabels : ([terms.deliver, terms.cashSettle].map Action.label).Nodup := by
    simp [deliver, cashSettle]
  have hguard : (Guard.after (.fixed terms.maturity)).holds e.day = true ↔
      terms.maturity < e.day := decide_eq_true_iff
  have hsettle : Arrangement.zero.settle env = .ok e.successor ↔ e.successor = .zero := by
    rw [Arrangement.settle_zero, Except.ok.injEq, eq_comm]
  have hdeliver := @resolveAll_deliver terms env e.payments
  have hcash := @resolveAll_cashSettle terms env e.payments
  rw [Arrangement.elect_actions_eq_ok hlabels]
  constructor
  · rintro ⟨action, haction, hlabel, hday, hactor, hpayments, hsuccessor⟩
    rcases List.mem_pair.mp haction with rfl | rfl
    · exact ⟨Party.contains_or.mp hactor, hguard.mp hday, hsettle.mp hsuccessor,
        .inl ⟨hlabel, hdeliver.mp hpayments⟩⟩
    · exact ⟨Party.contains_or.mp hactor, hguard.mp hday, hsettle.mp hsuccessor,
        .inr ⟨hlabel, hcash.mp hpayments⟩⟩
  · rintro ⟨hactor, hday, hsuccessor, ⟨hlabel, hpayments⟩ | ⟨hlabel, hpayments⟩⟩
    · exact ⟨terms.deliver, by simp, hlabel, hguard.mpr hday, Party.contains_or.mpr hactor,
        hdeliver.mpr hpayments, hsettle.mpr hsuccessor⟩
    · exact ⟨terms.cashSettle, by simp, hlabel, hguard.mpr hday, Party.contains_or.mpr hactor,
        hcash.mpr hpayments, hsettle.mpr hsuccessor⟩

end

/-! ### What the settlements are worth -/

/-- Neither settlement is rounded at a spot rate: the difference, what is gained by it on the
notional, and the price of delivery are the numbers that they stand for. -/
structure Unrounded (terms : FxForwardTerms) (spot : Decimal) : Prop where
  difference : (spot.sub terms.forwardRate).map Decimal.toRat =
    some (spot.toRat - terms.forwardRate.toRat)
  gain : ((spot.sub terms.forwardRate).bind fun d => d.mul terms.notional).map Decimal.toRat =
    some ((spot.toRat - terms.forwardRate.toRat) * terms.notional.toRat)
  price : (terms.notional.mul terms.forwardRate).map Decimal.toRat =
    some (terms.notional.toRat * terms.forwardRate.toRat)

/-- A forward is `Unrounded` if, and only if, those numbers can be written. -/
theorem unrounded_iff {spot : Decimal} : terms.Unrounded spot ↔
    IsDecimal (spot.toRat - terms.forwardRate.toRat) ∧
      IsDecimal ((spot.toRat - terms.forwardRate.toRat) * terms.notional.toRat) ∧
        IsDecimal (terms.notional.toRat * terms.forwardRate.toRat) := by
  have hwritten {x : Option Decimal} {y : ℚ} (h : x.map Decimal.toRat = some y) : IsDecimal y :=
    let ⟨d, _, hd⟩ := Option.map_eq_some_iff.mp h
    ⟨d, hd⟩
  constructor
  · rintro ⟨hdifference, hgain, hprice⟩
    exact ⟨hwritten hdifference, hwritten hgain, hwritten hprice⟩
  · rintro ⟨hdifference, hgain, hprice⟩
    have hsub := Decimal.sub_exact hdifference
    obtain ⟨d, hd, hvalue⟩ := Option.map_eq_some_iff.mp hsub
    refine ⟨hsub, ?_, Decimal.mul_exact hprice⟩
    rw [hd, Option.bind_some, ← hvalue]
    exact Decimal.mul_exact (hvalue ▸ hgain)

/-- One side pays the other what it gains, and the positions are that and its opposite. -/
theorem exists_positions_cash (hparties : terms.buyer ≠ terms.seller) (gain : Decimal) :
    ∃ l, netPositions [⟨terms.seller, terms.buyer, gain.max .zero, terms.quoted⟩,
        ⟨terms.buyer, terms.seller, gain.neg.max .zero, terms.quoted⟩] = .ok l ∧
      (l.position ⟨terms.buyer, terms.quoted⟩).toRat = gain.toRat ∧
      (l.position ⟨terms.seller, terms.quoted⟩).toRat = -gain.toRat := by
  have hnet : (gain.max .zero).toRat - (gain.neg.max .zero).toRat = gain.toRat := by
    rw [Decimal.toRat_max, Decimal.toRat_max, Decimal.toRat_neg, Decimal.toRat_zero]
    exact max_zero_sub_eq_self _
  obtain ⟨l, hl, hexact⟩ := netPositions_exchange hparties.symm (gain.max .zero)
    (gain.neg.max .zero) terms.quoted terms.quoted fun _ => ⟨gain, hnet.symm⟩
  refine ⟨l, hl, ?_, ?_⟩
  · rw [hexact, ← hnet]
    simp [net_cons, net_nil, Payment.payeeAccount, Payment.payerAccount, hparties, sub_eq_add_neg]
  · rw [hexact, ← hnet]
    simp [net_cons, net_nil, Payment.payeeAccount, Payment.payerAccount, hparties.symm,
      sub_eq_neg_add]

/-- After delivery the buyer has the notional in one currency and owes its price in the other. -/
theorem exists_positions_delivery (hparties : terms.buyer ≠ terms.seller)
    (hcurrencies : terms.base ≠ terms.quoted) (price : Decimal) :
    ∃ l, netPositions [⟨terms.seller, terms.buyer, terms.notional, terms.base⟩,
        ⟨terms.buyer, terms.seller, price, terms.quoted⟩] = .ok l ∧
      (l.position ⟨terms.buyer, terms.base⟩).toRat = terms.notional.toRat ∧
      (l.position ⟨terms.buyer, terms.quoted⟩).toRat = -price.toRat := by
  obtain ⟨l, hl, hexact⟩ := netPositions_exchange hparties.symm terms.notional price terms.base
    terms.quoted fun h => absurd h hcurrencies
  refine ⟨l, hl, ?_, ?_⟩
  · rw [hexact]
    simp [net_cons, net_nil, Payment.payeeAccount, Payment.payerAccount, hparties, hcurrencies]
  · rw [hexact]
    simp [net_cons, net_nil, Payment.payeeAccount, Payment.payerAccount, hparties,
      hcurrencies.symm]

/-- **The two settlements of a forward are worth the same.** After maturity either party can elect
either, as long as the forward is `Unrounded` at the spot rate. `cashSettle` pays two amounts,
neither of them negative and one of them zero; by `netPositions` the buyer's position is the
difference of spot and agreed rate on the notional, the seller's its opposite. After `deliver` the
buyer's two positions come to the same, with the `base` currency valued at spot in the `quoted`
one. -/
theorem settlements_worth_same (terms : FxForwardTerms) (hparties : terms.buyer ≠ terms.seller)
    (hcurrencies : terms.base ≠ terms.quoted) {spot : Decimal}
    (hunrounded : terms.Unrounded spot) {env : Environment}
    (hspot : env.observe (.spot terms.base terms.quoted terms.maturity) = .ok spot)
    {actor : Party} (hactor : actor = terms.buyer ∨ actor = terms.seller) {day : Date}
    (hday : terms.maturity < day) :
    ∃ t, terms.build = .ok t ∧
      (∃ cash x y l, t.elect env actor "cashSettle" day = .ok cash ∧ cash.successor = .zero ∧
        cash.payments = [⟨terms.seller, terms.buyer, x, terms.quoted⟩,
          ⟨terms.buyer, terms.seller, y, terms.quoted⟩] ∧
        0 ≤ x.toRat ∧ 0 ≤ y.toRat ∧ (x.toRat = 0 ∨ y.toRat = 0) ∧
        netPositions cash.payments = .ok l ∧
        (l.position ⟨terms.buyer, terms.quoted⟩).toRat =
          (spot.toRat - terms.forwardRate.toRat) * terms.notional.toRat ∧
        (l.position ⟨terms.seller, terms.quoted⟩).toRat =
          -((spot.toRat - terms.forwardRate.toRat) * terms.notional.toRat)) ∧
      ∃ delivery price l, t.elect env actor "deliver" day = .ok delivery ∧
        delivery.successor = .zero ∧
        delivery.payments = [⟨terms.seller, terms.buyer, terms.notional, terms.base⟩,
          ⟨terms.buyer, terms.seller, price, terms.quoted⟩] ∧
        netPositions delivery.payments = .ok l ∧
        (l.position ⟨terms.buyer, terms.base⟩).toRat * spot.toRat +
            (l.position ⟨terms.buyer, terms.quoted⟩).toRat =
          (spot.toRat - terms.forwardRate.toRat) * terms.notional.toRat := by
  obtain ⟨gain, hgain, hvalue⟩ := Option.map_eq_some_iff.mp hunrounded.gain
  obtain ⟨d, hd, hgain⟩ := Option.bind_eq_some_iff.mp hgain
  obtain ⟨price, hprice, hcost⟩ := Option.map_eq_some_iff.mp hunrounded.price
  refine ⟨_, build_eq_ok.mpr rfl, ?_, ?_⟩
  · obtain ⟨l, hl, hbuyer, hseller⟩ := exists_positions_cash hparties gain
    rw [hvalue] at hbuyer hseller
    have helect := (@elect_eq_ok terms env ⟨"cashSettle", actor, day, _, .zero⟩).mpr
      ⟨hactor, hday, rfl, .inr ⟨rfl, .intro hspot hd hgain⟩⟩
    refine ⟨_, _, _, l, helect, rfl, rfl, ?_, ?_, ?_, hl, hbuyer, hseller⟩
    · rw [Decimal.toRat_max, Decimal.toRat_zero]
      exact le_max_right _ _
    · rw [Decimal.toRat_max, Decimal.toRat_zero]
      exact le_max_right _ _
    · rw [Decimal.toRat_max, Decimal.toRat_max, Decimal.toRat_neg, Decimal.toRat_zero]
      rcases le_total gain.toRat 0 with h | h
      · exact .inl (max_eq_right h)
      · exact .inr (max_eq_right (neg_nonpos.mpr h))
  · obtain ⟨l, hl, hbase, hquoted⟩ := exists_positions_delivery hparties hcurrencies price
    have helect := (@elect_eq_ok terms env ⟨"deliver", actor, day, _, .zero⟩).mpr
      ⟨hactor, hday, rfl, .inl ⟨rfl, .intro hprice⟩⟩
    refine ⟨_, price, l, helect, rfl, rfl, hl, ?_⟩
    rw [hbase, hquoted, hcost]
    ring

/-- At the `standard` terms, with spot at 1.09, the buyer loses 30,000 either way. -/
theorem standard_settlements_worth_same :
    standard.Unrounded (.literal 109 2) ∧ ∃ t, standard.build = .ok t ∧
      (∃ cash l, t.elect ⟨.empty, .ofList [(.spot .eur .usd (.literal 2015 6 30), .literal 109 2)]⟩
          standard.seller "cashSettle" (.literal 2015 7 1) = .ok cash ∧
        netPositions cash.payments = .ok l ∧
        (l.position ⟨standard.buyer, .usd⟩).toRat = -30000) ∧
      ∃ delivery l,
        t.elect ⟨.empty, .ofList [(.spot .eur .usd (.literal 2015 6 30), .literal 109 2)]⟩
          standard.seller "deliver" (.literal 2015 7 1) = .ok delivery ∧
        netPositions delivery.payments = .ok l ∧
        (l.position ⟨standard.buyer, .eur⟩).toRat * (109 / 100) +
          (l.position ⟨standard.buyer, .usd⟩).toRat = -30000 := by
  have hspot : (Decimal.literal 109 2).toRat = 109 / 100 :=
    (Decimal.toRat_literal _).trans (by norm_num [Decimal.tenTo])
  have hrate : standard.forwardRate.toRat = 112 / 100 :=
    (Decimal.toRat_literal _).trans (by norm_num [Decimal.tenTo])
  have hnotional : standard.notional.toRat = 1000000 :=
    (Decimal.toRat_literal _).trans (by norm_num [Decimal.tenTo])
  have hgain : ((Decimal.literal 109 2).toRat - standard.forwardRate.toRat) *
      standard.notional.toRat = -30000 := by
    rw [hspot, hrate, hnotional]
    norm_num
  have hunrounded : standard.Unrounded (.literal 109 2) := by
    refine unrounded_iff.mpr ⟨⟨⟨true, 3, 2, by decide, by decide⟩, ?_⟩,
      ⟨⟨true, 30000, 0, by decide, by decide⟩, ?_⟩, ⟨⟨false, 1120000, 0, by decide, by decide⟩, ?_⟩⟩
    · rw [hspot, hrate]
      norm_num [Decimal.toRat, Decimal.unscaled, Decimal.tenTo]
    · rw [hgain]
      norm_num [Decimal.toRat, Decimal.unscaled, Decimal.tenTo]
    · rw [hrate, hnotional]
      norm_num [Decimal.toRat, Decimal.unscaled, Decimal.tenTo]
  obtain ⟨t, ht, ⟨cash, -, -, l, hcash, -, -, -, -, -, hl, hbuyer, -⟩, delivery, -, l',
    hdelivery, -, -, hl', hworth⟩ := settlements_worth_same standard (by decide) (by decide)
      hunrounded (Environment.observe_singleton .empty (.spot .eur .usd (.literal 2015 6 30)) _)
      (.inr rfl) (show standard.maturity < .literal 2015 7 1 by decide)
  rw [hgain] at hbuyer hworth
  rw [hspot] at hworth
  exact ⟨hunrounded, t, ht, ⟨cash, l, hcash, hl, hbuyer⟩, delivery, l', hdelivery, hl', hworth⟩

end FxForwardTerms
end Covenant
