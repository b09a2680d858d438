/-
# Values of amounts

An amount has a value in an `Environment` of bound variables and market data,
`a.value env`. Operands are valued from left to right, the first failure is the
answer, and a choice values only the branch it takes. Nothing unavailable counts
as zero.

Key definitions: `Environment`, `EvalError`, `Amount.value`, `Amount.compare`.
-/
import Covenant.Amount.Basic

namespace Covenant

/-- What amounts are valued in: the `bindings` of variables and the `market` data. -/
structure Environment where
  bindings : Bindings
  market : Market

/-- Why an amount or a continuation has no value. -/
inductive EvalError where
  | divisionByZero (dividend divisor : Decimal)
  | overflow (op : Operator) (left right : Decimal)
  | unavailable (key : ObservableKey)
  | unboundVariable (name : String)
  | unboundState (name : String)
  | unboundPeriodDate (date : ContractDate)
  | unboundDirective (rebinds : List Rebind)
deriving DecidableEq

/-- The sign that messages put between the operands of an operation. -/
def Operator.sign : Operator → String
  | add => "+"
  | sub => "-"
  | mul => "*"
  | div => "/"
  | min => "min"
  | max => "max"

/-- Names the operands of the operation that failed, the observable or variable that has no value,
or what is used outside a rollout. -/
def EvalError.message : EvalError → String
  | divisionByZero a b => "division by zero: " ++ a.toText ++ " / " ++ b.toText
  | overflow op a b =>
    "arithmetic overflow: " ++ a.toText ++ " " ++ op.sign ++ " " ++ b.toText
  | unavailable key => "observable unavailable: " ++ key.keyText
  | unboundVariable name => s!"unbound variable '{name}'"
  | unboundState name => s!"state variable 'vars.{name}' used outside a rollout period"
  | unboundPeriodDate date =>
    "period date '" ++ date.toText ++ "' used outside a rollout period"
  | unboundDirective rebinds =>
    "continuation directive is not bound to a rollout: " ++ Rebind.directiveText rebinds

/-- The result of the operation on `a` and `b`, or the error that names them. -/
def Operator.apply (op : Operator) (a b : Decimal) : Except EvalError Decimal :=
  let checked (result : Option Decimal) : Except EvalError Decimal :=
    match result with
    | some x => .ok x
    | none => .error (.overflow op a b)
  match op with
  | .add => checked (a.add b)
  | .sub => checked (a.sub b)
  | .mul => checked (a.mul b)
  | .div => if b.isZero then .error (.divisionByZero a b) else checked (a.div b)
  | .min => .ok (a.min b)
  | .max => .ok (a.max b)

namespace Environment

/-- The value of the variable `name`. -/
def lookup (env : Environment) (name : String) : Except EvalError Decimal :=
  match env.bindings.get? name with
  | some x => .ok x
  | none => .error (.unboundVariable name)

/-- The value of the observable `key`. -/
def observe (env : Environment) (key : ObservableKey) : Except EvalError Decimal :=
  match env.market.get? key with
  | some x => .ok x
  | none => .error (.unavailable key)

end Environment

/-- The calendar date of `d`, if it does not depend on a period. -/
def ContractDate.calendarDate (d : ContractDate) : Except EvalError Date :=
  (Observable.fixedDate d).mapError .unboundPeriodDate

/-- Interest on `principal` at `rate`: principal times rate times days, over the days of a year. -/
def DayCount.interest (convention : DayCount) (principal rate : Decimal) (start finish : Date) :
    Except EvalError Decimal := do
  let days := Decimal.ofInt (convention.accrualDays start finish)
    (Nat.lt_trans (convention.accrualDays_natAbs_lt start finish) (by decide))
  let basis := Decimal.ofNat convention.basis (by cases convention <;> decide)
  let accrual ← Operator.mul.apply principal rate
  let accrual ← Operator.mul.apply accrual days
  Operator.div.apply accrual basis

namespace Amount

/-- The value of an amount in `env`, or the first failure on the way. -/
def value (env : Environment) : Amount → Except EvalError Decimal
  | const value => .ok value
  | var name => env.lookup name
  | state name => .error (.unboundState name)
  | observe observable => do
    let key ← observable.key.mapError .unboundPeriodDate
    env.observe key
  | binary op left right => do
    let a ← left.value env
    let b ← right.value env
    op.apply a b
  | neg x => do return (← x.value env).neg
  | plus x => do return (← x.value env).max .zero
  | interest principal rate dayCount start finish => do
    let principal ← principal.value env
    let rate ← rate.value env
    let start ← start.calendarDate
    let finish ← finish.calendarDate
    dayCount.interest principal rate start finish
  | select relation left right whenTrue otherwise => do
    let a ← left.value env
    let b ← right.value env
    if relation.holds a b then whenTrue.value env else otherwise.value env

/-- Whether `relation` holds between the values of `left` and `right`. -/
def compare (env : Environment) (relation : Relation) (left right : Amount) :
    Except EvalError Bool := do
  let a ← left.value env
  let b ← right.value env
  return relation.holds a b

end Amount
end Covenant
