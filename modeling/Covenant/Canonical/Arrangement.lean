/-
# Contracts in JSON

The canonical form of a contract is the compact text of its JSON,
`a.toJson.compact`; holders compare contracts by its digest. A contract that is
read is checked as if it had just been put together.

Key definitions: `Arrangement.toJson`, `Arrangement.ofJson?`,
`Arrangement.canonical`, `Arrangement.digest`, `Arrangement.read`,
`Digest.toJson`, `Digest.ofJson?`.
-/
import Covenant.Arrangement.Validity
import Covenant.Canonical.Amount
import Covenant.Digest
import Covenant.Json.Reader

namespace Covenant

/-- A party in JSON: its name. -/
def Party.toJson (p : Party) : Json := .string p.name

/-- A party from JSON. -/
def Party.ofJson? (j : Json) : Option Party := j.string?.map Party.mk

/-- A set of parties in JSON. -/
def PartySet.toJson (s : PartySet) : Json := .array (s.members.map Party.toJson)

/-- A set of parties from a JSON list; a name that is repeated counts once. -/
def PartySet.ofJson? (j : Json) : Option PartySet := (j.list? Party.ofJson?).map OrderedSet.ofList

namespace Obligation

/-- An obligation in JSON. -/
def toJson (o : Obligation) : Json :=
  .object [("payer", o.payer.toJson), ("payee", o.payee.toJson), ("amount", o.amount.toJson),
    ("currency", o.currency.toJson)]

/-- An obligation from JSON. -/
def ofJson? (j : Json) : Option Obligation := do
  match ← j.fields? ["payer", "payee", "amount", "currency"] with
  | [payer, payee, amount, currency] =>
    return ⟨← Party.ofJson? payer, ← Party.ofJson? payee, ← Amount.ofJson? amount,
      ← Currency.ofJson? currency⟩
  | _ => none

end Obligation

/-- A payment in JSON. -/
def Payment.toJson (p : Payment) : Json :=
  .object [("payer", p.payer.toJson), ("payee", p.payee.toJson), ("amount", p.amount.toJson),
    ("currency", p.currency.toJson)]

namespace Digest

/-- A digest in JSON. -/
def toJson (d : Digest) : Json := .string d.toText

/-- A digest from a JSON string, if `Digest.read` takes it. -/
def ofJson? : Json → Option Digest
  | .string s => (read s).toOption
  | _ => none

end Digest

namespace Schedule

/-- A schedule in JSON. -/
def toJson (s : Schedule) : Json :=
  .object [("start", s.start.toJson), ("end", s.finish.toJson),
    ("frequency", s.frequency.toJson), ("variables", .ofMap Amount.toJson s.initial)]

/-- A schedule from JSON. -/
def ofJson? (j : Json) : Option Schedule := do
  match ← j.fields? ["start", "end", "frequency", "variables"] with
  | [start, finish, frequency, initial] =>
    return ⟨← Date.ofJson? start, ← Date.ofJson? finish, ← Frequency.ofJson? frequency,
      ← initial.map? Amount.ofJson?⟩
  | _ => none

end Schedule

namespace Arrangement

/-! ### Writing -/

/-- An action in JSON, its `continuation` by then written. -/
def actionJson (label : String) (actors : PartySet) (guard : Guard) (effects : List Obligation)
    (continuation : Json) : Json :=
  .object [("label", .string label), ("actors", actors.toJson), ("guard", guard.toJson),
    ("effects", .array (effects.map Obligation.toJson)), ("continuation", continuation)]

/-- A bound directive in JSON, its `body` by then written. -/
def resumeJson (schedule : Schedule) (body : Json) (period : Nat) (vars : OrderedMap String Amount)
    (rebinds : List Rebind) : Json :=
  .object [
    ("rollout", .object [("schedule", schedule.toJson), ("body", body), ("period", .ofNat period),
      ("vars", .ofMap Amount.toJson vars)]),
    ("rebinds", .array (rebinds.map Rebind.toJson))]

mutual

/-- An arrangement in JSON: `"Zero"`, or an object tagged `"Actions"`, `"Next"` or `"Resume"`. -/
def toJson : Arrangement → Json
  | zero => .string "Zero"
  | actions choices => .tagged "Actions" (.array (choicesJson choices))
  | next rebinds =>
    .tagged "Next" (.object [("rebinds", .array (rebinds.map Rebind.toJson))])
  | resume ⟨⟨schedule, body, period, vars⟩, rebinds⟩ =>
    .tagged "Resume" (resumeJson schedule body.toJson period vars rebinds)

/-- The actions of a node in JSON, one after the other. -/
def choicesJson : List (Action Arrangement) → List Json
  | [] => []
  | ⟨label, actors, guard, effects, continuation⟩ :: rest =>
    actionJson label actors guard effects continuation.toJson :: choicesJson rest

end

/-- The canonical text of `a`: its JSON without blanks. -/
def canonical (a : Arrangement) : String := a.toJson.compact

/-- The digest of `a.canonical`. -/
def digest (a : Arrangement) : Digest := .ofText a.canonical

/-! ### Reading -/

/-- An action from JSON, its continuation by `read`. -/
def decodeAction (read : Json → Option Arrangement) (j : Json) : Option (Action Arrangement) := do
  match ← j.fields? ["label", "actors", "guard", "effects", "continuation"] with
  | [label, actors, guard, effects, continuation] =>
    return ⟨← label.string?, ← PartySet.ofJson? actors, ← Guard.ofJson? guard,
      ← effects.list? Obligation.ofJson?, ← read continuation⟩
  | _ => none

/-- A rollout from JSON, its body by `read`. -/
def decodeRollout (read : Json → Option Arrangement) (j : Json) : Option (Rollout Arrangement) := do
  match ← j.fields? ["schedule", "body", "period", "vars"] with
  | [schedule, body, period, vars] =>
    return ⟨← Schedule.ofJson? schedule, ← read body, ← period.natural?,
      ← vars.map? Amount.ofJson?⟩
  | _ => none

/-- An arrangement from JSON, where at most so many arrangements stand inside one another. -/
def decode : Nat → Json → Option Arrangement
  | 0, j => if j.word? = some "Zero" then some zero else none
  | bound + 1, j =>
    match j.tagged? with
    | some ("Actions", x) => (x.list? (decodeAction (decode bound))).map actions
    | some ("Next", x) => do
      match ← x.fields? ["rebinds"] with
      | [rebinds] => return next (← rebinds.list? Rebind.ofJson?)
      | _ => none
    | some ("Resume", x) => do
      match ← x.fields? ["rollout", "rebinds"] with
      | [rollout, rebinds] =>
        return resume ⟨← decodeRollout (decode bound) rollout, ← rebinds.list? Rebind.ofJson?⟩
      | _ => none
    | _ => if j.word? = some "Zero" then some zero else none

/-- An arrangement from JSON, not checked; `j.depth` bounds how deep it can nest. -/
def ofJson? (j : Json) : Option Arrangement := decode j.depth j

end Arrangement

/-- Why a stored contract is refused. -/
inductive StoredError where
  | malformed
  | invalid (cause : ConstructionError)
deriving DecidableEq

/-- Says that the text is no JSON of a contract, or which rule the contract breaks. -/
def StoredError.message : StoredError → String
  | malformed => "JSON error"
  | invalid cause => "decoded arrangement is invalid: " ++ cause.message

namespace Arrangement

/-- The arrangement `a` itself, if it passes `a.validate`. -/
def checked (a : Arrangement) : Except StoredError Arrangement :=
  match a.validate with
  | .ok () => .ok a
  | .error cause => .error (.invalid cause)

/-- Reads a contract from `bytes`: JSON of an arrangement that passes its checks. -/
def read (bytes : List UInt8) : Except StoredError Arrangement :=
  match Json.read? bytes >>= ofJson? with
  | some a => a.checked
  | none => .error .malformed

end Arrangement
end Covenant
