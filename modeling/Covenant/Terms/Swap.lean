/-
# Interest rate swap

A floating leg, at the fixing of an index over the period, against a fixed leg,
both paid after the end of each period of a schedule: `proceed`, period by
period.

Key definitions: `SwapTerms`, `SwapTerms.build`.
-/
import Covenant.Arrangement.Rollout

namespace Covenant

/-- The terms of a swap: the two legs, and the schedule of the periods. -/
structure SwapTerms where
  floatingPayer : Party
  fixedPayer : Party
  start : Date
  finish : Date
  frequency : Frequency
  notional : Decimal
  fixedRate : Decimal
  fixedDayCount : DayCount
  floatingIndex : String
  floatingDayCount : DayCount
  currency : Currency

namespace SwapTerms

/-- The usual terms. -/
def standard : SwapTerms where
  floatingPayer := ⟨"highStreetBank"⟩
  fixedPayer := ⟨"acmeCorp"⟩
  start := .literal 2015 1 1
  finish := .literal 2016 1 1
  frequency := .quarterly
  notional := .literal 10000000 0
  fixedRate := .literal 15 3
  fixedDayCount := .thirty360
  floatingIndex := "LIBOR"
  floatingDayCount := .act360
  currency := .usd

/-- What is repeated every period: `proceed` pays both legs and goes on with `next`. -/
def body (terms : SwapTerms) : Arrangement :=
  .actions [
    { label := "proceed"
      actors := terms.floatingPayer.or terms.fixedPayer
      guard := .after .periodEnd
      effects := [
        ⟨terms.floatingPayer, terms.fixedPayer,
          .floating (.const terms.notional) terms.floatingDayCount terms.floatingIndex
            .periodStart .periodEnd,
          terms.currency⟩,
        ⟨terms.fixedPayer, terms.floatingPayer,
          .interest (.const terms.notional) (.const terms.fixedRate) terms.fixedDayCount
            .periodStart .periodEnd,
          terms.currency⟩]
      continuation := .next [] }]

/-- The contract: the `body` rolled out over the schedule, without state variables. -/
def build (terms : SwapTerms) : Except ConstructionError Arrangement :=
  rollOut ⟨terms.start, terms.finish, terms.frequency, .empty⟩ terms.body

end SwapTerms
end Covenant
