/-
# Election logs

A log has the columns `actor`, `action` and `date`; each row is one `LogStep`,
in the order in which the elections were made. The first row that fails is the
answer.

Key definitions: `LogStep`, `LogError`, `readLog`.
-/
import Covenant.Calendar.Text
import Covenant.Csv.Row
import Covenant.Party

namespace Covenant

/-- One recorded election: who made it, its label and its day. -/
structure LogStep where
  actor : Party
  label : String
  day : Date
deriving DecidableEq

/-- Why a log cannot be loaded. -/
inductive LogError where
  | csv (cause : Csv.Error)
  | noActor
  | noLabel (actor : String)
  | invalidDate (cause : Date.Unreadable)
deriving DecidableEq

/-- Names the actor whose label is missing, or the fault of the table or of the date. -/
def LogError.message : LogError → String
  | csv cause => cause.message
  | noActor => "Election row has no actor"
  | noLabel actor => s!"Election by {actor} has no action label"
  | invalidDate cause => cause.message

namespace LogStep

/-- The columns of a log. -/
def columns : Vector Csv.Column 3 := #v[⟨"actor", true⟩, ⟨"action", true⟩, ⟨"date", true⟩]

/-- The election that `actor`, `label` and `date` record, the date as `dd/MM/yyyy`. -/
def ofWords (actor label date : String) : Except LogError LogStep :=
  if actor = "" then .error .noActor
  else if label = "" then .error (.noLabel actor)
  else do
    let day ← (Date.readSlash date).mapError .invalidDate
    return ⟨⟨actor⟩, label, day⟩

/-- The election with these `values` in its `columns`. -/
def ofValues (values : Vector String 3) : Except LogError LogStep :=
  ofWords values[0] values[1] values[2]

/-- The elections of rows, one after the other. -/
def ofRows : List (Except Csv.Error (Vector String 3)) → Except LogError (List LogStep)
  | [] => .ok []
  | row :: rest => do
    let values ← row.mapError .csv
    let step ← ofValues values
    let steps ← ofRows rest
    return step :: steps

end LogStep

/-- The elections of a table with the `LogStep.columns`. -/
def readLog (bytes : List UInt8) : Except LogError (List LogStep) :=
  LogStep.ofRows (Csv.rows LogStep.columns bytes)

end Covenant
