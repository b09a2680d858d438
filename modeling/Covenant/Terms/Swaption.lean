/-
# Cancellable swap

LIBOR against a fixed coupon over consecutive accrual periods. Each `proceed` is
open once its period has ended and pays both legs of it; until the first one the
trade can be cancelled for a fee. Notional and coupon are variables.

Key definitions: `SwaptionTerms`, `SwaptionTerms.build`.
-/
import Covenant.Arrangement.Rollout

namespace Covenant

/-- The terms of a cancellable swap; consecutive accrual dates are the bounds of a period. -/
structure SwaptionTerms where
  bank : Party
  corp : Party
  accrualDates : List Date
  fixedDayCount : DayCount
  cancellationFee : Decimal
  currency : Currency

namespace SwaptionTerms

/-- The usual terms. -/
def standard : SwaptionTerms where
  bank := ⟨"highStreetBank"⟩
  corp := ⟨"acmeCorp"⟩
  accrualDates := [.literal 2015 4 1, .literal 2015 7 1, .literal 2015 10 1]
  fixedDayCount := .act365
  cancellationFee := .literal 10000 0
  currency := .usd

/-- Consecutive pairs of dates: each date but the last with the one after it. -/
def periods : List Date → List (Date × Date)
  | start :: finish :: rest => (start, finish) :: periods (finish :: rest)
  | _ => []

/-- The exchange of both legs over the period from `start` to `finish`, and what follows it. -/
def exchange (terms : SwaptionTerms) (start finish : Date) (continuation : Arrangement) :
    Action Arrangement where
  label := "proceed"
  actors := terms.bank.or terms.corp
  guard := .after (.fixed finish)
  effects := [
    ⟨terms.bank, terms.corp, .libor (.var "notional") (.fixed start) (.fixed finish),
      terms.currency⟩,
    ⟨terms.corp, terms.bank,
      .interest (.var "notional") (.var "coupon") terms.fixedDayCount (.fixed start)
        (.fixed finish),
      terms.currency⟩]
  continuation := continuation

/-- The exchanges of periods, each `proceed` the only way to the next. -/
def exchanges (terms : SwaptionTerms) : List (Date × Date) → Arrangement
  | [] => .zero
  | (start, finish) :: rest => .actions [terms.exchange start finish (exchanges terms rest)]

/-- The contract: the first exchange, or `cancel` for the fee. -/
def build (terms : SwaptionTerms) : Except ConstructionError Arrangement :=
  let all := periods terms.accrualDates
  if all.any fun p => decide (p.2 ≤ p.1) then
    .error (.malformedSchedule .datesNotIncreasing)
  else
    match all with
    | [] => .error (.malformedSchedule .tooFewDates)
    | (start, finish) :: rest =>
      Arrangement.arrange <| .actions [
        terms.exchange start finish (terms.exchanges rest),
        { label := "cancel"
          actors := terms.corp.only
          guard := .anytime
          effects := [⟨terms.corp, terms.bank, .const terms.cancellationFee, terms.currency⟩]
          continuation := .zero }]

end SwaptionTerms
end Covenant
