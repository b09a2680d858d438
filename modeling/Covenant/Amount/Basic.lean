/-
# Amounts

An `Amount` is an expression for a sum of money: constants, variables bound by
name, state variables of a repeated contract, market observables, arithmetic,
interest over a range of dates, and a choice by comparison, `select`.

Key definitions: `Amount`, `Amount.bind`, `Amount.stateRefs`,
`Amount.ofPeriod`, `Amount.toText`, `Amount.agrees`.
-/
import Covenant.DayCount
import Covenant.Decimal.Text
import Covenant.Observable
import Covenant.Ordered.Set

namespace Covenant

/-- An operation on two amounts; `min` and `max` are the ones that always have a result. -/
inductive Operator where
  | add | sub | mul | div | min | max
deriving DecidableEq

/-- A comparison of two amounts. -/
inductive Relation where
  | lt | le | gt | ge | eq | ne
deriving DecidableEq

namespace Relation

/-- Whether the `relation` holds between `a` and `b`, compared as numbers. -/
def holds (relation : Relation) (a b : Decimal) : Bool :=
  match relation, a.compare b with
  | lt, .lt | le, .lt | le, .eq | gt, .gt | ge, .gt | ge, .eq | eq, .eq | ne, .lt | ne, .gt => true
  | _, _ => false

/-- The sign of the relation, such as `<=`. -/
def symbol : Relation → String
  | lt => "<"
  | le => "<="
  | gt => ">"
  | ge => ">="
  | eq => "=="
  | ne => "!="

end Relation

/-- An expression for a sum of money. -/
inductive Amount where
  | const (value : Decimal)
  | var (name : String)
  | state (name : String)
  | observe (observable : Observable ContractDate)
  | binary (op : Operator) (left right : Amount)
  | neg (x : Amount)
  | plus (x : Amount)
  | interest (principal rate : Amount) (dayCount : DayCount) (start finish : ContractDate)
  | select (relation : Relation) (left right whenTrue otherwise : Amount)
deriving DecidableEq

namespace Amount

instance : Inhabited Amount := ⟨const .zero⟩

/-- Interest on `notional` at the fixing of `index` over the same dates. -/
def floating (notional : Amount) (dayCount : DayCount) (index : String)
    (start finish : ContractDate) : Amount :=
  interest notional (observe (.fixing index start finish)) dayCount start finish

/-- Interest on `notional` at LIBOR, by act/360. -/
def libor (notional : Amount) (start finish : ContractDate) : Amount :=
  floating notional .act360 "LIBOR" start finish

/-- The amount for the period from `start` to `finish` and the values `vars` of the state variables;
one without a value stays. -/
def bind (start finish : Date) (vars : OrderedMap String Amount) : Amount → Amount
  | const value => const value
  | var name => var name
  | state name => (vars.get? name).getD (state name)
  | observe observable => observe (observable.bind start finish)
  | binary op left right => binary op (left.bind start finish vars) (right.bind start finish vars)
  | neg x => neg (x.bind start finish vars)
  | plus x => plus (x.bind start finish vars)
  | interest principal rate dayCount s f =>
    interest (principal.bind start finish vars) (rate.bind start finish vars) dayCount
      (s.bind start finish) (f.bind start finish)
  | select relation left right whenTrue otherwise =>
    select relation (left.bind start finish vars) (right.bind start finish vars)
      (whenTrue.bind start finish vars) (otherwise.bind start finish vars)

/-- The state variables that occur, from left to right. -/
def stateNames : Amount → List String
  | const _ | var _ | observe _ => []
  | state name => [name]
  | binary _ left right => left.stateNames ++ right.stateNames
  | neg x | plus x => x.stateNames
  | interest principal rate _ _ _ => principal.stateNames ++ rate.stateNames
  | select _ left right whenTrue otherwise =>
    left.stateNames ++ right.stateNames ++ whenTrue.stateNames ++ otherwise.stateNames

/-- The `stateNames` of the amount as a set. -/
def stateRefs (a : Amount) : OrderedSet String := .ofList a.stateNames

/-- Whether a date in the amount is `periodStart` or `periodEnd`. -/
def ofPeriod : Amount → Bool
  | const _ | var _ | state _ => false
  | observe observable => observable.ofPeriod
  | binary _ left right => left.ofPeriod || right.ofPeriod
  | neg x | plus x => x.ofPeriod
  | interest principal rate _ start finish =>
    start.ofPeriod || finish.ofPeriod || principal.ofPeriod || rate.ofPeriod
  | select _ left right whenTrue otherwise =>
    left.ofPeriod || right.ofPeriod || whenTrue.ofPeriod || otherwise.ofPeriod

/-- The amount in infix form, operations in brackets, state variables as `vars.NAME`. -/
def toText : Amount → String
  | const value => value.toText
  | var name => name
  | state name => "vars." ++ name
  | observe observable => observable.toText
  | binary .add left right => "(" ++ left.toText ++ " + " ++ right.toText ++ ")"
  | binary .sub left right => "(" ++ left.toText ++ " - " ++ right.toText ++ ")"
  | binary .mul left right => "(" ++ left.toText ++ " * " ++ right.toText ++ ")"
  | binary .div left right => "(" ++ left.toText ++ " / " ++ right.toText ++ ")"
  | binary .min left right => "min(" ++ left.toText ++ ", " ++ right.toText ++ ")"
  | binary .max left right => "max(" ++ left.toText ++ ", " ++ right.toText ++ ")"
  | neg x => "-" ++ x.toText
  | plus x => "plus(" ++ x.toText ++ ")"
  | interest principal rate dayCount start finish =>
    "interest(" ++ principal.toText ++ ", " ++ dayCount.name ++ ", " ++ rate.toText ++ ", " ++
      start.toText ++ ", " ++ finish.toText ++ ")"
  | select relation left right whenTrue otherwise =>
    "if " ++ left.toText ++ " " ++ relation.symbol ++ " " ++ right.toText ++ " then " ++
      whenTrue.toText ++ " else " ++ otherwise.toText

/-- Whether two amounts are the same expression up to the written form of their constants, which
`Decimal.agrees` compares. -/
def agrees : Amount → Amount → Bool
  | const x, const y => x.agrees y
  | binary op l r, binary op' l' r' => decide (op = op') && l.agrees l' && r.agrees r'
  | neg x, neg x' => x.agrees x'
  | plus x, plus x' => x.agrees x'
  | interest p r c s f, interest p' r' c' s' f' =>
    p.agrees p' && r.agrees r' && decide (c = c' ∧ s = s' ∧ f = f')
  | select rel l r t o, select rel' l' r' t' o' =>
    decide (rel = rel') && l.agrees l' && r.agrees r' && t.agrees t' && o.agrees o'
  | var n, var n' => decide (n = n')
  | state n, state n' => decide (n = n')
  | observe o, observe o' => decide (o = o')
  | _, _ => false

end Amount

/-- A new `value` for a state variable, carried into the next period. -/
structure Rebind where
  name : String
  value : Amount
deriving DecidableEq

namespace Rebind

/-- The rebind as `vars.NAME to VALUE`. -/
def toText (r : Rebind) : String := "vars." ++ r.name ++ " to " ++ r.value.toText

/-- The directive that carries `rebinds` out, in text. -/
def directiveText (rebinds : List Rebind) : String :=
  "next(" ++ ", ".intercalate (rebinds.map toText) ++ ")"

/-- The rebind for the period from `start` to `finish` and the values `vars` of the state
variables. -/
def bind (start finish : Date) (vars : OrderedMap String Amount) (r : Rebind) : Rebind :=
  ⟨r.name, r.value.bind start finish vars⟩

end Rebind
end Covenant
