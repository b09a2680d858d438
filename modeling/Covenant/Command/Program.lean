/-
# The three commands

Key definitions: `Program`, `Program.read`, `Request.script`, `Request.paths`.
-/
import Covenant.Command.ReplayLog
import Covenant.Command.Showcase

namespace Covenant

/-- The commands. -/
inductive Program where
  | showcase
  | elect
  | replayLog
deriving DecidableEq

/-- What is asked for on a command line: a program with what its flags say. -/
inductive Request where
  | showcase
  | elect (command : ElectCommand)
  | replayLog (command : ReplayCommand)
deriving DecidableEq

/-- Reads the `words` of a command line for `program`; the showcase does not look at them. -/
def Program.read (program : Program) (words : List String) : Except Refusal Request :=
  match program with
  | showcase => .ok .showcase
  | elect => (ElectCommand.read words).map .elect
  | replayLog => (ReplayCommand.read words).map .replayLog

namespace Request

/-- The paths of the files that are looked at. -/
def paths : Request → List String
  | showcase => []
  | elect c => c.snapshot :: c.fixings.toList
  | replayLog c => c.snapshot :: c.log :: c.fixings.toList

/-- The script of a request, from what reading its `paths` gave. -/
def script (files : Files) : Request → Script
  | showcase => Showcase.script
  | elect c => c.script files
  | replayLog c => c.script files

end Request
end Covenant
