/-
# Market data sheets

A sheet has the columns `kind`, `name`, `start`, `end` and `value`; `end` may be
missing. A row is the fixing of an index over a range of dates, an exchange rate
(its name is `BASE/QUOTE`) or a quoted price, on the date `start`. No two rows
may be of the same observable. The first row that fails is the answer.

Key definitions: `Market.SheetRow.entry`, `Market.addRows`, `Market.readSheet`.
-/
import Covenant.Csv.Row
import Covenant.Decimal.Text
import Covenant.Observable

namespace Covenant
namespace Market

/-- Why a sheet cannot be loaded. -/
inductive SheetError where
  | csv (cause : Csv.Error)
  | invalidValue (text name : String) (cause : DecimalError)
  | invalidDate (cause : Date.Unreadable)
  | unknownKind (kind : String)
  | notAPair (name : String)
  | unknownCurrency (cause : UnknownWord)
  | duplicate (key : ObservableKey) (previous value : Decimal)
deriving DecidableEq

/-- Names the value, the kind, the pair or the currency that cannot be read, or the observable that
has both values; or the fault of the table or of a date. -/
def SheetError.message : SheetError → String
  | csv cause => cause.message
  | invalidValue text name cause => s!"Invalid value '{text}' for {name}: " ++ cause.message
  | invalidDate cause => cause.message
  | unknownKind kind => s!"Unknown observable kind: {kind}"
  | notAPair name => s!"FX pair must be BASE/QUOTE, got: {name}"
  | unknownCurrency cause => cause.message
  | duplicate key previous value =>
    "Duplicate market data for " ++ key.keyText ++ " (" ++ previous.toText ++ " and " ++
      value.toText ++ ")"

/-- A row of a sheet, field by field as it is written. -/
structure SheetRow where
  kind : String
  name : String
  start : String
  finish : String
  value : String
deriving DecidableEq

namespace SheetRow

/-- The date in a field, as `dd/MM/yyyy`. -/
def date (s : String) : Except SheetError Date := (Date.readSlash s).mapError .invalidDate

/-- The observable that the row `r` is about. -/
def key (r : SheetRow) : Except SheetError ObservableKey :=
  match Text.lower r.kind with
  | "fixing" => do return .fixing r.name (← date r.start) (← date r.finish)
  | "fx" =>
    match Text.splitAt? (· == '/') r.name with
    | none => .error (.notAPair r.name)
    | some (base, quoted) => do
      let base ← (Currency.read base).mapError .unknownCurrency
      let quoted ← (Currency.read quoted).mapError .unknownCurrency
      return .spot base quoted (← date r.start)
  | "quote" => do return .quote r.name (← date r.start)
  | kind => .error (.unknownKind kind)

/-- The observable of `r` and its value; the value is looked at first. -/
def entry (r : SheetRow) : Except SheetError (ObservableKey × Decimal) := do
  let value ← (Decimal.read r.value).mapError (.invalidValue r.value r.name)
  return (← r.key, value)

end SheetRow

/-- Adds rows to the market data `m`, one after the other; none of an observable that `m` has. -/
def addRows (m : Market) : List (Except SheetError SheetRow) → Except SheetError Market
  | [] => .ok m
  | row :: rest => do
    let row ← row
    let (key, value) ← row.entry
    match m.get? key with
    | some previous => .error (.duplicate key previous value)
    | none => addRows (m.insert key value) rest

/-- The columns of a sheet; only `end` may be missing. -/
def columns : Vector Csv.Column 5 :=
  #v[⟨"kind", true⟩, ⟨"name", true⟩, ⟨"start", true⟩, ⟨"end", false⟩, ⟨"value", true⟩]

/-- The row with these `values` in the `columns`. -/
def SheetRow.ofValues (values : Vector String 5) : SheetRow :=
  ⟨values[0], values[1], values[2], values[3], values[4]⟩

/-- The rows of a sheet, each with its five values or the error of the table. -/
def sheetRows (bytes : List UInt8) : List (Except SheetError SheetRow) :=
  (Csv.rows columns bytes).map fun r => (r.map SheetRow.ofValues).mapError .csv

/-- The market data of a sheet: its rows added to none. -/
def readSheet (bytes : List UInt8) : Except SheetError Market :=
  addRows OrderedMap.empty (sheetRows bytes)

end Market
end Covenant
