/-
# Market observables

What an amount can observe: the `fixing` of an index over a range of dates, an
exchange rate, `spot`, or a quoted price. An observable in a contract has dates
of type `ContractDate`; with calendar dates it is an `ObservableKey`, the key of
a value in a `Market`. Keys are ordered by kind, then by their parts from left
to right.

Key definitions: `Observable`, `Observable.key`, `Market`.
-/
import Covenant.ContractDate
import Covenant.Currency
import Covenant.Decimal.Basic
import Covenant.Ordered.Map

namespace Covenant

/-- Something observed in the market, with dates of type `δ`. -/
inductive Observable (δ : Type) where
  | fixing (index : String) (start finish : δ)
  | spot (base quoted : Currency) (on : δ)
  | quote (name : String) (on : δ)
deriving DecidableEq

/-- An observable on calendar dates, by which a `Market` is looked up. -/
abbrev ObservableKey := Observable Date

namespace Observable

variable {δ : Type}

/-- The observable with `f` applied to each of its dates. -/
def map {ε : Type} (f : δ → ε) : Observable δ → Observable ε
  | fixing index start finish => fixing index (f start) (f finish)
  | spot base quoted on => spot base quoted (f on)
  | .quote name on => .quote name (f on)

/-- The dates, in the order in which they are written. -/
def dates : Observable δ → List δ
  | fixing _ start finish => [start, finish]
  | spot _ _ on => [on]
  | .quote _ on => [on]

/-- The observable as it is shown, its dates by `text`. -/
def render (text : δ → String) : Observable δ → String
  | fixing index start finish => index ++ "[" ++ text start ++ ".." ++ text finish ++ "]"
  | spot base quoted on => base.code ++ "/" ++ quoted.code ++ "@" ++ text on
  | .quote name on => name ++ "@" ++ text on

/-- An observable of a contract: `INDEX[start..end]`, `BASE/QUOTE@date` or `NAME@date`. -/
def toText (o : Observable ContractDate) : String := o.render ContractDate.toText

/-- A key in the same form, its dates as `dd/MM/yyyy`. -/
def keyText (o : ObservableKey) : String := o.render Date.slashText

/-- Whether one of the `dates` depends on a period. -/
def ofPeriod (o : Observable ContractDate) : Bool := o.dates.any ContractDate.ofPeriod

/-- The observable for the period from `start` to `finish`. -/
def bind (start finish : Date) (o : Observable ContractDate) : Observable ContractDate :=
  o.map (ContractDate.bind start finish)

/-- The calendar date of `d`, or `d` itself as the obstacle. -/
def fixedDate (d : ContractDate) : Except ContractDate Date :=
  match d.date? with
  | some date => .ok date
  | none => .error d

/-- The key of an observable, or the first of its `dates` that depends on a period. -/
def key : Observable ContractDate → Except ContractDate ObservableKey
  | fixing index start finish => do
    let start ← fixedDate start
    let finish ← fixedDate finish
    return fixing index start finish
  | spot base quoted on => do return spot base quoted (← fixedDate on)
  | .quote name on => do return .quote name (← fixedDate on)

/-! ### Order of keys -/

/-- The place of the kind in the order of keys: `fixing`, `spot`, then `quote`. -/
def kindRank : ObservableKey → Nat
  | fixing .. => 0
  | spot .. => 1
  | .quote .. => 2

/-- The index or name; of a `spot` the empty text. -/
def label : ObservableKey → String
  | fixing index _ _ => index
  | spot .. => ""
  | .quote name _ => name

/-- The `rank` of the base currency, or zero. -/
def baseRank : ObservableKey → Nat
  | spot base _ _ => base.rank
  | _ => 0

/-- The `rank` of the quoted currency, or zero. -/
def quoteRank : ObservableKey → Nat
  | spot _ quoted _ => quoted.rank
  | _ => 0

/-- The `dayNumber` of the first date. -/
def firstDay : ObservableKey → Int
  | fixing _ start _ => start.dayNumber
  | spot _ _ on => on.dayNumber
  | .quote _ on => on.dayNumber

/-- The `dayNumber` of the last date. -/
def lastDay : ObservableKey → Int
  | fixing _ _ finish => finish.dayNumber
  | spot _ _ on => on.dayNumber
  | .quote _ on => on.dayNumber

instance : Ord ObservableKey :=
  ⟨compareLex (compareOn kindRank) <| compareLex (compareOn label) <|
    compareLex (compareOn baseRank) <| compareLex (compareOn quoteRank) <|
    compareLex (compareOn firstDay) (compareOn lastDay)⟩

instance : Std.TransOrd ObservableKey :=
  inferInstanceAs <| Std.TransCmp <|
    compareLex (compareOn kindRank) <| compareLex (compareOn label) <|
    compareLex (compareOn baseRank) <| compareLex (compareOn quoteRank) <|
    compareLex (compareOn firstDay) (compareOn lastDay)

end Observable

/-- Market data: a decimal for each `ObservableKey` that is known. -/
abbrev Market := OrderedMap ObservableKey Decimal

/-- Decimals for the names of variables. -/
abbrev Bindings := OrderedMap String Decimal

/-- Whether two lists of entries have the same keys, and values that `Decimal.agrees` takes for
equal. -/
def entriesAgree {κ : Type} [DecidableEq κ] : List (κ × Decimal) → List (κ × Decimal) → Bool
  | [], [] => true
  | (k, x) :: l, (k', y) :: l' => decide (k = k') && x.agrees y && entriesAgree l l'
  | _, _ => false

/-- Whether `m` and `m'` have the same keys and numerically equal values. -/
def OrderedMap.agrees {κ : Type} [Ord κ] [DecidableEq κ] (m m' : OrderedMap κ Decimal) : Bool :=
  entriesAgree m.entries m'.entries

end Covenant
