/-
# The command line

Runs `elect`, `replay_log` or, without one of these words, the showcase, on the
files of the working directory: `Host.run` on the host `machine`.
-/
import Covenant.Command.Host

namespace Covenant

/-- Whether an error's `code` is this `number`; some operations report the number negated. -/
def hasNumber (code number : UInt32) : Bool := code == number || code == 0 - number

/-- The `PathFault` that an error in reading a file comes from. -/
def PathFault.ofError : IO.Error → PathFault
  | .inappropriateType _ code _ => if hasNumber code 20 then .throughFile else .folder
  | .invalidArgument _ code _ => if hasNumber code 36 then .nameTooLong else .missing
  | _ => .missing

/-- The files of the machine, and its terminal, as a `Host`. -/
def machine : Host IO where
  read path := do
    try
      let content ← IO.FS.readBinFile path
      return .ok content.toList
    catch e => return .error (.ofError e)
  perform step := do
    try
      match step with
      | .print text => IO.println text
      | .makeFolder path => IO.FS.createDirAll path
      | .write path content => IO.FS.writeFile path content
      return true
    catch _ => return false

/-- Runs `program` on the `machine`, says how it ended and returns the exit code. -/
def runProgram (program : Program) (words : List String) : IO UInt32 := do
  let ending ← machine.run program words
  match ending with
  | .done => pure ()
  | .refused .help => IO.println "usage: elect | replay_log, with flags --name value"
  | .refused .mistake => IO.eprintln "error: unexpected command line"
  | .failed message => IO.eprintln s!"Error: {message}"
  return ending.exit.toUInt32

end Covenant

/-- Runs the command named by the first word. -/
def main (words : List String) : IO UInt32 :=
  match words with
  | "elect" :: rest => Covenant.runProgram .elect rest
  | "replay_log" :: rest => Covenant.runProgram .replayLog rest
  | rest => Covenant.runProgram .showcase rest
