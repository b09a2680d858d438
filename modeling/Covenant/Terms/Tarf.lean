/-
# Target redemption forward

Each period the client may exercise. The forward then settles at the end of the
period for the positive difference of spot and strike on the notional, but for no
more than what is left of the target (`cap`), and only as long as exercises are
left (`uses`). Both are carried from period to period.

Key definitions: `TarfTerms`, `TarfTerms.payout`, `TarfTerms.build`.
-/
import Covenant.Arrangement.Rollout

namespace Covenant

/-- The terms of a target redemption forward: at most `uses` exercises pay at most `target`. -/
structure TarfTerms where
  bank : Party
  corp : Party
  start : Date
  finish : Date
  frequency : Frequency
  base : Currency
  quoted : Currency
  strike : Decimal
  notional : Decimal
  target : Decimal
  uses : UInt32

namespace TarfTerms

/-- The usual terms. -/
def standard : TarfTerms where
  bank := ⟨"highStreetBank"⟩
  corp := ⟨"acmeCorp"⟩
  start := .literal 2015 1 1
  finish := .literal 2016 1 1
  frequency := .quarterly
  base := .eur
  quoted := .usd
  strike := .literal 110 2
  notional := .literal 1000000 0
  target := .literal 150000 0
  uses := 4

/-- What a settlement pays in the current period: the gain or the `cap`, whichever is less, if
`uses` are left. -/
def payout (terms : TarfTerms) : Amount :=
  let spot := Amount.observe (.spot terms.base terms.quoted .periodEnd)
  let gain := Amount.plus (.binary .mul (.binary .sub spot (.const terms.strike))
    (.const terms.notional))
  .select .gt (.state "uses") (.const .zero) (.binary .min gain (.state "cap")) (.const .zero)

/-- The settlement after an exercise: it pays the `payout` and takes it from `cap`, and one from
`uses`. -/
def settlement (terms : TarfTerms) : Arrangement :=
  .actions [
    { label := "proceed"
      actors := terms.bank.or terms.corp
      guard := .after .periodEnd
      effects := [⟨terms.bank, terms.corp, terms.payout, terms.quoted⟩]
      continuation := .next [
        ⟨"uses", .binary .sub (.state "uses") (.const .one)⟩,
        ⟨"cap", .binary .sub (.state "cap") terms.payout⟩] }]

/-- What is repeated every period: `exercise`, or `proceedWithoutExercise` after its end. -/
def body (terms : TarfTerms) : Arrangement :=
  .actions [
    { label := "exercise"
      actors := terms.corp.only
      guard := .anytime
      effects := []
      continuation := terms.settlement },
    { label := "proceedWithoutExercise"
      actors := terms.bank.or terms.corp
      guard := .after .periodEnd
      effects := []
      continuation := .next [] }]

/-- The number `uses` as a decimal. -/
def usesLeft (terms : TarfTerms) : Decimal :=
  .ofNat terms.uses.toNat (Nat.lt_trans terms.uses.toNat_lt (by decide))

/-- The schedule with the state variables `uses` and `cap`. -/
def schedule (terms : TarfTerms) : Schedule :=
  ⟨terms.start, terms.finish, terms.frequency,
    .ofList [("uses", .const terms.usesLeft), ("cap", .const terms.target)]⟩

/-- The contract: the `body` rolled out over the `schedule`. -/
def build (terms : TarfTerms) : Except ConstructionError Arrangement :=
  rollOut terms.schedule terms.body

end TarfTerms
end Covenant
