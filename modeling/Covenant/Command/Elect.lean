/-
# The command `elect`

Reads a snapshot, elects one action and writes the snapshot of what is left,
with the bindings that the election was made under. Without `--action` it lists
the actions open on the day, the ones that the actor may elect marked with a
star.

Key definitions: `ElectCommand`, `ElectCommand.read`, `ElectCommand.script`.
-/
import Covenant.Command.Flags
import Covenant.Command.Script

namespace Covenant

/-- What is asked of the command: the values of its `flags`. -/
structure ElectCommand where
  snapshot : String
  actor : String
  action : Option String
  date : String
  fixings : Option String
  bindings : List String
  output : String
deriving DecidableEq

namespace ElectCommand

/-- The flags that the command knows, of which only `--bind` may be repeated. -/
def flags : List Flag :=
  [⟨"snapshot", .once, .path⟩, ⟨"actor", .once, .text⟩, ⟨"action", .once, .text⟩,
    ⟨"date", .once, .text⟩, ⟨"fixings", .once, .path⟩, ⟨"bind", .many, .text⟩,
    ⟨"output", .once, .path⟩]

/-- Reads the command line; without `--output` the successor goes to `successor.json`. -/
def read (words : List String) : Except Refusal ElectCommand := do
  let given ← Flags.scan flags [] words
  let snapshot ← Flags.required given "snapshot"
  let actor ← Flags.required given "actor"
  let date ← Flags.required given "date"
  return ⟨snapshot, actor, Flags.optional given "action", date, Flags.optional given "fixings",
    Flags.values given "bind", (Flags.optional given "output").getD "successor.json"⟩

/-- The `bindings` with entries `NAME=VALUE` added, one after the other. -/
def bindAll (bindings : Bindings) : List String → Except CommandError Bindings
  | [] => .ok bindings
  | entry :: rest =>
    match Text.splitAt? (· == '=') entry with
    | none => .error (.notABinding entry)
    | some (name, value) =>
      match Decimal.read (Text.trim value) with
      | .error _ => .error (.invalidBinding name)
      | .ok d => bindAll (bindings.insert (Text.trim name) d) rest

/-- The lines that list `choices`, those of `actor` with a star. -/
def listing (actor : Party) (date : String) (choices : List (Action Arrangement)) : List Step :=
  .print s!"Enabled on {date}:" :: choices.map fun a =>
    .print (" " ++ (if a.actors.contains actor then "*" else " ") ++ " " ++ a.label ++ " (" ++
      a.actors.toText ++ ")")

/-- One line for each of the `payments`. -/
def paymentLines (indent : String) (payments : List Payment) : List Step :=
  payments.map fun p => .print (indent ++ p.toText)

/-- The steps of an election `e` that was made under `bindings`: lines, the write and a last
line. -/
def report (c : ElectCommand) (bindings : Bindings) (e : Election) : List Step :=
  let successor : Snapshot := ⟨e.successor, bindings⟩
  .print (c.actor ++ " elected \"" ++ e.label ++ "\" on " ++ c.date) ::
    (if e.payments.isEmpty then [.print "  no payments"] else paymentLines "  " e.payments) ++
    [.write c.output successor.pretty,
      .print ("Successor " ++ successor.digest.toText ++ " written to " ++ c.output)]

/-- What the command does with `files`, if nothing is wrong. -/
def steps (c : ElectCommand) (files : Files) : Except CommandError (List Step) := do
  let snapshot ← files.snapshot c.snapshot
  let market ← files.market c.fixings
  let bindings ← bindAll snapshot.bindings c.bindings
  let day ← (Date.readSlash c.date).mapError .invalidDate
  match c.action with
  | none => return listing ⟨c.actor⟩ c.date (snapshot.arrangement.available day)
  | some label =>
    let e ← (snapshot.arrangement.elect ⟨bindings, market⟩ ⟨c.actor⟩ label day).mapError .election
    return c.report bindings e

/-- The script of the `steps`. -/
def script (c : ElectCommand) (files : Files) : Script := .of (c.steps files)

end ElectCommand
end Covenant
