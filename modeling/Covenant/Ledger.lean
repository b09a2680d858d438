/-
# Net positions

The position of a party in a currency is what it received less what it paid. A
payment is first added to the payee and then taken from the payer,
`Ledger.post`; a total that has no decimal is an error that names the position.

Key definitions: `Account`, `Ledger`, `Ledger.post`, `netPositions`.
-/
import Covenant.Obligation

namespace Covenant

/-- What a position is held in: a `party` and a `currency`, ordered in this order. -/
structure Account where
  party : Party
  currency : Currency
deriving DecidableEq

instance : Ord Account :=
  ⟨compareLex (compareOn fun a => a.party.name) (compareOn fun a => a.currency.rank)⟩

instance : Std.TransOrd Account :=
  inferInstanceAs <| Std.TransCmp <|
    compareLex (compareOn fun a : Account => a.party.name)
      (compareOn fun a : Account => a.currency.rank)

/-- The position of each `Account` to which something was posted. -/
abbrev Ledger := OrderedMap Account Decimal

/-- A position that cannot be written as a decimal. -/
structure PositionOverflow where
  account : Account
deriving DecidableEq

/-- Names the party and the currency of the position. -/
def PositionOverflow.message (e : PositionOverflow) : String :=
  s!"arithmetic overflow: net position of {e.account.party.name} in {e.account.currency.code}"

namespace Ledger

/-- The position of `account` in `l`; zero if nothing was posted to it. -/
def position (l : Ledger) (account : Account) : Decimal := (l.get? account).getD .zero

/-- Sets the position of `account` to `total`, if there is one. -/
def update (l : Ledger) (account : Account) (total : Option Decimal) :
    Except PositionOverflow Ledger :=
  match total with
  | some x => .ok (l.insert account x)
  | none => .error ⟨account⟩

/-- The ledger `l` after the payment `p`. -/
def post (l : Ledger) (p : Payment) : Except PositionOverflow Ledger := do
  let payee : Account := ⟨p.payee, p.currency⟩
  let payer : Account := ⟨p.payer, p.currency⟩
  let received ← update l payee (Decimal.add (position l payee) p.amount)
  update received payer (Decimal.sub (position received payer) p.amount)

/-- The ledger `l` after payments, in order. -/
def postAll (l : Ledger) : List Payment → Except PositionOverflow Ledger
  | [] => .ok l
  | p :: rest => do
    let l ← post l p
    postAll l rest

end Ledger

/-- The net positions of `payments`: an empty ledger after all of them. -/
def netPositions (payments : List Payment) : Except PositionOverflow Ledger :=
  Ledger.postAll .empty payments

end Covenant
