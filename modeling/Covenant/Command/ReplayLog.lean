/-
# The command `replay_log`

Reads a snapshot and an election log, replays the log for several holders by
`Replay.runHolders` and prints the elections, the net positions and the digest
of what is left. The outcome can be written to a file.

Key definitions: `ReplayCommand`, `ReplayCommand.read`, `ReplayCommand.script`.
-/
import Covenant.Command.Elect

namespace Covenant

/-- What is asked of the command: the values of its `flags`. -/
structure ReplayCommand where
  snapshot : String
  log : String
  fixings : Option String
  holders : Option Nat
  strict : Bool
  output : Option String
deriving DecidableEq

namespace ReplayCommand

/-- The flags that the command knows. -/
def flags : List Flag :=
  [⟨"snapshot", .once, .path⟩, ⟨"log", .once, .path⟩, ⟨"fixings", .once, .path⟩,
    ⟨"holders", .once, .count⟩, ⟨"strict", .switch, .text⟩, ⟨"output", .once, .path⟩]

/-- Reads the command line. -/
def read (words : List String) : Except Refusal ReplayCommand := do
  let given ← Flags.scan flags [] words
  let snapshot ← Flags.required given "snapshot"
  let log ← Flags.required given "log"
  return ⟨snapshot, log, Flags.optional given "fixings",
    (Flags.optional given "holders").bind Form.count?,
    !(Flags.values given "strict").isEmpty, Flags.optional given "output"⟩

/-- The options of the replay: those of `--strict` or the usual ones, with the holders of
`--holders`. -/
def options (c : ReplayCommand) : Replay.Options :=
  let usual := if c.strict then Replay.Options.strict else Replay.Options.standard
  { usual with holders := c.holders.getD usual.holders }

/-- The lines of elections, numbered from `index`. -/
def electionLines (index : Nat) : List Election → List Step
  | [] => []
  | e :: rest =>
    .print (Text.alignRight 3 (Digits.text index) ++ " " ++ e.actor.name ++ " \"" ++ e.label ++
      "\" on " ++ e.day.slashText) ::
      ElectCommand.paymentLines "      " e.payments ++ electionLines (index + 1) rest

/-- One line of the table of positions. -/
def tableLine (party currency amount : String) : Step :=
  .print (Text.alignLeft 20 party ++ " " ++ Text.alignRight 4 currency ++ " " ++
    Text.alignRight 18 amount)

/-- The table of `positions`, amounts rounded to two places. -/
def table (positions : Ledger) : List Step :=
  [.print "\nNet positions:", tableLine "Party" "Ccy" "Amount",
    .print (String.ofList (List.replicate 44 '-'))] ++
  positions.entries.map fun e =>
    tableLine e.1.party.name e.1.currency.code (e.2.roundTo 2).toText

/-- The steps that show the outcome `o` and, if `--output` is given, write it. -/
def report (c : ReplayCommand) (o : Replay.Outcome) : List Step :=
  .print ("Replayed " ++ Digits.text o.elections.length ++ " election(s) for " ++
    Digits.text c.options.holders ++ " holder(s)") ::
  electionLines 0 o.elections ++ table o.positions ++
  .print ("\nFinal state " ++ o.digest.toText ++ (if o.final.isZero then " (zero)" else "")) ::
  match c.output with
  | none => []
  | some path => [.write path o.toJson.pretty, .print s!"Outcome written to {path}"]

/-- What the command does with `files`, if nothing is wrong. -/
def steps (c : ReplayCommand) (files : Files) : Except CommandError (List Step) := do
  let snapshot ← files.snapshot c.snapshot
  let log ← files.log c.log
  let market ← files.market c.fixings
  let outcome ← (Replay.runHolders c.options market snapshot log).mapError .replay
  return c.report outcome

/-- The script of the `steps`. -/
def script (c : ReplayCommand) (files : Files) : Script := .of (c.steps files)

end ReplayCommand
end Covenant
