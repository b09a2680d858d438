/-
# Replaying election logs

A log is applied to a contract one election after the other, `Replay.run`; the
`Outcome` holds the elections, what is left and the net positions. Several
holders replay a log each from their own copy of a snapshot, read from its
canonical text, and must come to the same digest, `Replay.runHolders`.

Key definitions: `Replay.Options`, `Replay.Outcome`, `Replay.run`,
`Replay.runHolders`.
-/
import Covenant.Canonical.Snapshot
import Covenant.Election
import Covenant.ElectionLog
import Covenant.Ledger

namespace Covenant

/-- An election in JSON. -/
def Election.toJson (e : Election) : Json :=
  .object [("label", .string e.label), ("actor", e.actor.toJson), ("at", e.day.toJson),
    ("effects", .array (e.payments.map Payment.toJson)), ("successor", e.successor.toJson)]

namespace Replay

/-- What is asked of a replay: the number of `holders`, and which checks are made. -/
structure Options where
  holders : Nat
  verifyAgreement : Bool
  requireChronological : Bool
  requireTerminal : Bool
deriving DecidableEq

/-- Three holders that must agree, and nothing asked of the log. -/
def Options.standard : Options := ⟨3, true, false, false⟩

/-- Five holders, and a log that is in order and discharges the contract. -/
def Options.strict : Options := ⟨5, true, true, true⟩

/-- Why a log cannot be replayed. -/
inductive Failure where
  | election (step : Nat) (actor : Party) (label : String) (cause : ElectionError)
  | outOfOrder (step : Nat) (day : Date)
  | notTerminal
  | disagreement (digests : List Digest)
  | noHolders
  | positions (cause : PositionOverflow)
  | stored (cause : StoredError)
deriving DecidableEq

/-- Numbers the step that fails, with the label, the actor and the cause, or the step whose day
comes before the last one; or says that obligations are left, which digests the holders came to, or
what else stands in the way. -/
def Failure.message : Failure → String
  | election step actor label cause =>
    "step " ++ Digits.text step ++ s!": '{label}' by {actor.name} failed: " ++ cause.message
  | outOfOrder step day =>
    "step " ++ Digits.text step ++ ": date " ++ day.slashText ++
      " is earlier than the previous election"
  | notTerminal => "log ended with obligations outstanding"
  | disagreement digests =>
    "holders disagree on the final state: " ++ ", ".intercalate (digests.map Digest.toText)
  | noHolders => "no holders configured"
  | positions cause => "net positions: " ++ cause.message
  | stored cause => cause.message

/-- What a replay comes to. -/
structure Outcome where
  elections : List Election
  final : Arrangement
  positions : Ledger

namespace Outcome

/-- The digest of what is left, `o.final`. -/
def digest (o : Outcome) : Digest := o.final.digest

/-- The payments of all elections, in order. -/
def payments (o : Outcome) : List Payment := o.elections.flatMap Election.payments

/-- A position in JSON. -/
def positionJson (account : Account) (amount : Decimal) : Json :=
  .object [("party", account.party.toJson), ("currency", account.currency.toJson),
    ("amount", amount.toJson)]

/-- An outcome in JSON: elections, what is left and its digest, and positions. -/
def toJson (o : Outcome) : Json :=
  .object [("elections", .array (o.elections.map Election.toJson)),
    ("final_state", o.final.toJson), ("final_hash", o.digest.toJson),
    ("positions", .array (o.positions.entries.map fun e => positionJson e.1 e.2))]

end Outcome

/-- Whether `day` is before the day `last` of the step before it, if there is one. -/
def goesBack (last : Option Date) (day : Date) : Bool := last.any fun t => decide (day < t)

/-- The elections of steps numbered from `index`, with `last` the day before the first of them, and
what is left of `current` after them. -/
def elections (options : Options) (env : Environment) (index : Nat) (last : Option Date)
    (current : Arrangement) : List LogStep → Except Failure (List Election × Arrangement)
  | [] => .ok ([], current)
  | step :: rest =>
    if options.requireChronological && goesBack last step.day then
      .error (.outOfOrder index step.day)
    else
      match current.elect env step.actor step.label step.day with
      | .error cause => .error (.election index step.actor step.label cause)
      | .ok election => do
        let (later, final) ←
          elections options env (index + 1) (some step.day) election.successor rest
        return (election :: later, final)

/-- Applies the log `steps` to `start` in `env`: elections, the check that nothing is left if that
is asked for, and the net positions. -/
def run (options : Options) (env : Environment) (start : Arrangement) (steps : List LogStep) :
    Except Failure Outcome := do
  let (made, final) ← elections options env 0 none start steps
  if options.requireTerminal && !final.isZero then .error .notTerminal
  else
    let positions ← (netPositions (made.flatMap Election.payments)).mapError .positions
    return ⟨made, final, positions⟩

/-- What one holder comes to, from the `bytes` of a snapshot. -/
def runHolder (options : Options) (market : Market) (bytes : List UInt8) (steps : List LogStep) :
    Except Failure Outcome := do
  let copy ← (Snapshot.read bytes).mapError .stored
  run options ⟨copy.bindings, market⟩ copy.arrangement steps

/-- What all holders come to together: the first outcome, if their digests are one; else a
`disagreement`. -/
def settleHolders (options : Options) (held : List (Outcome × Digest)) : Except Failure Outcome :=
  let digests := OrderedSet.ofList (held.map (·.2))
  if options.verifyAgreement && decide (1 < digests.size) then
    .error (.disagreement digests.members)
  else
    match held with
    | [] => .error .noHolders
    | (outcome, _) :: _ => .ok outcome

/-- Replays a log for each of `options.holders`, each from its own copy of `snapshot`. -/
def runHolders (options : Options) (market : Market) (snapshot : Snapshot) (steps : List LogStep) :
    Except Failure Outcome :=
  if options.holders = 0 then .error .noHolders
  else
    match runHolder options market (Text.bytes snapshot.canonical) steps with
    | .error e => .error e
    | .ok outcome =>
      settleHolders options (List.replicate options.holders (outcome, outcome.digest))

end Replay
end Covenant
