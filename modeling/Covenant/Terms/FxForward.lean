/-
# FX forward

After maturity the notional is either delivered against the agreed rate,
`deliver`, or the difference of spot and agreed rate on it is settled in cash,
`cashSettle`, by the side that it is against; the other side then pays nothing.

Key definitions: `FxForwardTerms`, `FxForwardTerms.build`.
-/
import Covenant.Arrangement.Validity

namespace Covenant

/-- The terms of a forward: the buyer receives `base` and pays `quoted`. -/
structure FxForwardTerms where
  buyer : Party
  seller : Party
  base : Currency
  quoted : Currency
  notional : Decimal
  forwardRate : Decimal
  maturity : Date

namespace FxForwardTerms

/-- The usual terms. -/
def standard : FxForwardTerms where
  buyer := ⟨"acmeCorp"⟩
  seller := ⟨"highStreetBank"⟩
  base := .eur
  quoted := .usd
  notional := .literal 1000000 0
  forwardRate := .literal 112 2
  maturity := .literal 2015 6 30

/-- What the buyer gains by the agreed rate: `(spot - forwardRate) * notional`. -/
def difference (terms : FxForwardTerms) : Amount :=
  let spot := Amount.observe (.spot terms.base terms.quoted (.fixed terms.maturity))
  .binary .mul (.binary .sub spot (.const terms.forwardRate)) (.const terms.notional)

/-- Delivery of both currencies: the notional in `base` against notional times rate in `quoted`. -/
def deliver (terms : FxForwardTerms) : Action Arrangement where
  label := "deliver"
  actors := terms.buyer.or terms.seller
  guard := .after (.fixed terms.maturity)
  effects := [
    ⟨terms.seller, terms.buyer, .const terms.notional, terms.base⟩,
    ⟨terms.buyer, terms.seller,
      .binary .mul (.const terms.notional) (.const terms.forwardRate), terms.quoted⟩]
  continuation := .zero

/-- Settlement of the `difference`: each side pays its positive part as it stands against that
side. -/
def cashSettle (terms : FxForwardTerms) : Action Arrangement where
  label := "cashSettle"
  actors := terms.buyer.or terms.seller
  guard := .after (.fixed terms.maturity)
  effects := [
    ⟨terms.seller, terms.buyer, .plus terms.difference, terms.quoted⟩,
    ⟨terms.buyer, terms.seller, .plus (.neg terms.difference), terms.quoted⟩]
  continuation := .zero

/-- The contract: `deliver` or `cashSettle`. -/
def build (terms : FxForwardTerms) : Except ConstructionError Arrangement :=
  Arrangement.arrange (.actions [terms.deliver, terms.cashSettle])

end FxForwardTerms
end Covenant
