/-
# Amounts and their parts in JSON

Decimals and dates are strings, a decimal with its scale as `Decimal.toText`
writes it, so that nothing is lost. A decimal is also read from a number.

Key definitions: `Decimal.toJson`, `Decimal.ofJson?`, `Amount.toJson`,
`Amount.ofJson?`.
-/
import Covenant.Amount.Basic
import Covenant.Canonical.Fields
import Covenant.Guard
import Covenant.Schedule

namespace Covenant

/-! ### Decimals, dates and words -/

namespace Decimal

/-- A decimal in JSON: the string of its `toText`. -/
def toJson (d : Decimal) : Json := .string d.toText

/-- A decimal from a string or a number. -/
def ofJson? : Json → Option Decimal
  | .string s => (read s).toOption
  | .number n => n.decimal?
  | _ => none

end Decimal

namespace Date

/-- A date in JSON: the string of its `isoText`. -/
def toJson (d : Date) : Json := .string d.isoText

/-- A date from a string. -/
def ofJson? : Json → Option Date
  | .string s => readIso? s
  | _ => none

end Date

namespace Currency

/-- A currency in JSON: its `code`. -/
def toJson (c : Currency) : Json := .string c.code

/-- A currency from its code. -/
def ofJson? (j : Json) : Option Currency := do ofCode? (← j.word?)

end Currency

namespace DayCount

/-- The tag of a convention. -/
def tag : DayCount → String
  | act365 => "Act365"
  | act360 => "Act360"
  | thirty360 => "Thirty360"

/-- A convention in JSON. -/
def toJson (c : DayCount) : Json := .string c.tag

/-- A convention from its tag. -/
def ofJson? (j : Json) : Option DayCount := do
  match ← j.word? with
  | "Act365" => some act365
  | "Act360" => some act360
  | "Thirty360" => some thirty360
  | _ => none

end DayCount

namespace Frequency

/-- The tag of a frequency. -/
def tag : Frequency → String
  | daily => "Daily"
  | weekly => "Weekly"
  | monthly => "Monthly"
  | quarterly => "Quarterly"
  | annually => "Annually"

/-- A frequency in JSON. -/
def toJson (f : Frequency) : Json := .string f.tag

/-- A frequency from its tag. -/
def ofJson? (j : Json) : Option Frequency := do
  match ← j.word? with
  | "Daily" => some daily
  | "Weekly" => some weekly
  | "Monthly" => some monthly
  | "Quarterly" => some quarterly
  | "Annually" => some annually
  | _ => none

end Frequency

/-! ### Contract dates, guards and observables -/

namespace ContractDate

/-- A contract date in JSON. -/
def toJson : ContractDate → Json
  | fixed date => .tagged "Fixed" date.toJson
  | periodStart => .string "PeriodStart"
  | periodEnd => .string "PeriodEnd"

/-- A contract date that depends on a period, from its tag. -/
def ofWord? : String → Option ContractDate
  | "PeriodStart" => some periodStart
  | "PeriodEnd" => some periodEnd
  | _ => none

/-- A contract date from JSON. -/
def ofJson? (j : Json) : Option ContractDate :=
  match j.tagged? with
  | some ("Fixed", x) => (Date.ofJson? x).map fixed
  | _ => do ofWord? (← j.word?)

end ContractDate

namespace Guard

/-- A guard in JSON. -/
def toJson : Guard → Json
  | anytime => .string "Anytime"
  | before date => .tagged "Before" date.toJson
  | after date => .tagged "After" date.toJson

/-- A guard from JSON. -/
def ofJson? (j : Json) : Option Guard :=
  match j.tagged? with
  | some ("Before", x) => (ContractDate.ofJson? x).map before
  | some ("After", x) => (ContractDate.ofJson? x).map after
  | _ => if j.word? = some "Anytime" then some anytime else none

end Guard

namespace Observable

variable {δ : Type}

/-- An observable in JSON, its dates written by `f`. -/
def toJson (f : δ → Json) : Observable δ → Json
  | fixing index start finish =>
    .tagged "Fixing" (.object [("index", .string index), ("start", f start), ("end", f finish)])
  | spot base quoted on =>
    .tagged "FxSpot" (.object [("base", base.toJson), ("quote", quoted.toJson), ("on", f on)])
  | .quote name on => .tagged "Quote" (.object [("name", .string name), ("on", f on)])

/-- An observable from JSON, its dates read by `f`. -/
def ofJson? (f : Json → Option δ) (j : Json) : Option (Observable δ) := do
  match ← j.tagged? with
  | ("Fixing", x) =>
    match ← x.fields? ["index", "start", "end"] with
    | [index, start, finish] => return fixing (← index.string?) (← f start) (← f finish)
    | _ => none
  | ("FxSpot", x) =>
    match ← x.fields? ["base", "quote", "on"] with
    | [base, quoted, on] =>
      return spot (← Currency.ofJson? base) (← Currency.ofJson? quoted) (← f on)
    | _ => none
  | ("Quote", x) =>
    match ← x.fields? ["name", "on"] with
    | [name, on] => return .quote (← name.string?) (← f on)
    | _ => none
  | _ => none

end Observable

/-! ### Amounts -/

namespace Operator

/-- The tag of an operation. -/
def tag : Operator → String
  | add => "Add"
  | sub => "Sub"
  | mul => "Mul"
  | div => "Div"
  | min => "Min"
  | max => "Max"

/-- An operation in JSON. -/
def toJson (op : Operator) : Json := .string op.tag

/-- An operation from its tag. -/
def ofJson? (j : Json) : Option Operator := do
  match ← j.word? with
  | "Add" => some add
  | "Sub" => some sub
  | "Mul" => some mul
  | "Div" => some div
  | "Min" => some min
  | "Max" => some max
  | _ => none

end Operator

namespace Relation

/-- The tag of a relation. -/
def tag : Relation → String
  | lt => "Lt"
  | le => "Le"
  | gt => "Gt"
  | ge => "Ge"
  | eq => "Eq"
  | ne => "Ne"

/-- A relation in JSON. -/
def toJson (relation : Relation) : Json := .string relation.tag

/-- A relation from its tag. -/
def ofJson? (j : Json) : Option Relation := do
  match ← j.word? with
  | "Lt" => some lt
  | "Le" => some le
  | "Gt" => some gt
  | "Ge" => some ge
  | "Eq" => some eq
  | "Ne" => some ne
  | _ => none

end Relation

namespace Amount

/-- An amount in JSON: an object tagged with the constructor. -/
def toJson : Amount → Json
  | const value => .tagged "Const" value.toJson
  | var name => .tagged "Var" (.string name)
  | state name => .tagged "State" (.string name)
  | observe observable => .tagged "Observe" (observable.toJson ContractDate.toJson)
  | binary op left right => .tagged "Binary" (.array [op.toJson, left.toJson, right.toJson])
  | neg x => .tagged "Neg" x.toJson
  | plus x => .tagged "Plus" x.toJson
  | interest principal rate dayCount start finish =>
    .tagged "Interest" (.object [("principal", principal.toJson), ("rate", rate.toJson),
      ("day_count", dayCount.toJson), ("start", start.toJson), ("end", finish.toJson)])
  | select relation left right whenTrue otherwise =>
    .tagged "Select" (.object [
      ("test", .object [("op", relation.toJson), ("lhs", left.toJson), ("rhs", right.toJson)]),
      ("then", whenTrue.toJson), ("otherwise", otherwise.toJson)])

/-- An amount from JSON that nests at most so deep. -/
def decode : Nat → Json → Option Amount
  | 0, _ => none
  | bound + 1, j => do
    match ← j.tagged? with
    | ("Const", x) => (Decimal.ofJson? x).map const
    | ("Var", x) => x.string?.map var
    | ("State", x) => x.string?.map state
    | ("Observe", x) => (Observable.ofJson? ContractDate.ofJson? x).map observe
    | ("Binary", x) =>
      match ← x.items? with
      | [op, left, right] =>
        return binary (← Operator.ofJson? op) (← decode bound left) (← decode bound right)
      | _ => none
    | ("Neg", x) => (decode bound x).map neg
    | ("Plus", x) => (decode bound x).map plus
    | ("Interest", x) =>
      match ← x.fields? ["principal", "rate", "day_count", "start", "end"] with
      | [principal, rate, dayCount, start, finish] =>
        return interest (← decode bound principal) (← decode bound rate)
          (← DayCount.ofJson? dayCount) (← ContractDate.ofJson? start)
          (← ContractDate.ofJson? finish)
      | _ => none
    | ("Select", x) =>
      match ← x.fields? ["test", "then", "otherwise"] with
      | [test, whenTrue, otherwise] =>
        match ← test.fields? ["op", "lhs", "rhs"] with
        | [relation, left, right] =>
          return select (← Relation.ofJson? relation) (← decode bound left) (← decode bound right)
            (← decode bound whenTrue) (← decode bound otherwise)
        | _ => none
      | _ => none
    | _ => none

/-- An amount from JSON; `j.depth` bounds how deep it can nest. -/
def ofJson? (j : Json) : Option Amount := decode j.depth j

end Amount

namespace Rebind

/-- A rebind in JSON: an object of `name` and `value`. -/
def toJson (r : Rebind) : Json := .object [("name", .string r.name), ("value", r.value.toJson)]

/-- A rebind from JSON. -/
def ofJson? (j : Json) : Option Rebind := do
  match ← j.fields? ["name", "value"] with
  | [name, value] => return ⟨← name.string?, ← Amount.ofJson? value⟩
  | _ => none

end Rebind
end Covenant
