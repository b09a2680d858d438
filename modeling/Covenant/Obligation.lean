/-
# Obligations and payments

An `Obligation` is to pay an amount still to be valued; a `Payment` is an
obligation with its value, `o.resolve env`.

Key definitions: `Obligation`, `Payment`, `Obligation.resolve`.
-/
import Covenant.Amount.Value
import Covenant.Party

namespace Covenant

/-- A promise of `payer` to pay an amount to `payee`. -/
structure Obligation where
  payer : Party
  payee : Party
  amount : Amount
  currency : Currency
deriving DecidableEq

/-- An obligation with its value. -/
structure Payment where
  payer : Party
  payee : Party
  amount : Decimal
  currency : Currency
deriving DecidableEq

namespace Obligation

/-- The obligation in words, with its amount in its written form. -/
def toText (o : Obligation) : String :=
  o.payer.name ++ " gives " ++ o.payee.name ++ " " ++ o.amount.toText ++ " " ++ o.currency.code

/-- The payment of the value that the amount has in `env`. -/
def resolve (env : Environment) (o : Obligation) : Except EvalError Payment := do
  let amount ← o.amount.value env
  return ⟨o.payer, o.payee, amount, o.currency⟩

/-- The obligation for the period from `start` to `finish` and the values `vars` of the state
variables. -/
def bind (start finish : Date) (vars : OrderedMap String Amount) (o : Obligation) : Obligation :=
  { o with amount := o.amount.bind start finish vars }

/-- Whether `o` and `o'` are the same up to the written form of constants. -/
def agrees (o o' : Obligation) : Bool :=
  decide (o.payer = o'.payer ∧ o.payee = o'.payee ∧ o.currency = o'.currency) &&
    o.amount.agrees o'.amount

end Obligation

/-- The payment in words: payer, payee, value and currency. -/
def Payment.toText (p : Payment) : String :=
  p.payer.name ++ " -> " ++ p.payee.name ++ ": " ++ p.amount.toText ++ " " ++ p.currency.code

end Covenant
