/-
# Running a command

A command runs on a `Host m`: a monad `m` with one operation that reads a file
and one that does a step of a script. `Host.run` reads the files that are asked
for, `Request.paths`, and then carries out the script, step by step; the first
step that cannot be done ends it. There is one such run for every host, the
machine or a `Directory` that is given.

Key definitions: `Host`, `Ending`, `Host.readAll`, `Host.carryOut`, `Host.run`.
-/
import Covenant.Command.Program

namespace Covenant

/-- Where commands run: how the file at a path is read, and how a step is done, which answers
whether it could be. -/
structure Host (m : Type → Type) where
  read : String → m (Except PathFault (List UInt8))
  perform : Step → m Bool

/-- How a run ends: `done`, `refused` before it starts to work, or `failed` with a message. -/
inductive Ending where
  | done
  | refused (refusal : Refusal)
  | failed (message : String)
deriving DecidableEq

namespace Ending

/-- The exit code: `2` for a mistake on the command line, `1` for a failure, else `0`. -/
def exit : Ending → Nat
  | done => 0
  | refused .help => 0
  | refused .mistake => 2
  | failed _ => 1

/-- The message of a run that failed. -/
def failure? : Ending → Option String
  | done => none
  | refused _ => none
  | failed message => some message

/-- The end of a run all of whose steps are done, with the error of its script. -/
def ofError : Option CommandError → Ending
  | none => done
  | some e => failed e.message

end Ending

namespace Host

variable {m : Type → Type} [Monad m] (host : Host m)

/-- Reads the files at some paths; at every other path there is none. -/
def readAll : List String → m Files
  | [] => return fun _ => .error .missing
  | path :: rest => do
    let content ← host.read path
    let files ← readAll rest
    return fun other => if other = path then content else files other

/-- Carries out steps, and then fails with `error` if there is one. -/
def carryOut (error : Option CommandError) : List Step → m Ending
  | [] => return .ofError error
  | step :: rest => do
    if ← host.perform step then carryOut error rest
    else return .failed step.failure

/-- Runs `program` with the `words` of a command line: reads, looks for the script and carries it
out. -/
def run (program : Program) (words : List String) : m Ending := do
  match program.read words with
  | .error refusal => return .refused refusal
  | .ok request =>
    let files ← host.readAll request.paths
    let script := request.script files
    host.carryOut script.error script.steps

end Host
end Covenant
