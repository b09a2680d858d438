/-
# What a command does

A command looks at the `Files` it is given and then does all its work as a
`Script`: lines to print, folders to make and files to write, in order, and
possibly a failure at the end. Only carrying out the script touches anything.

Key definitions: `Step`, `Script`, `CommandError.message`.
-/
import Covenant.Market.Sheet
import Covenant.Replay

namespace Covenant

/-- Why there is no file at a path. -/
inductive PathFault where
  | missing
  | throughFile
  | folder
  | nameTooLong
deriving DecidableEq

/-- What the system says of the fault, with its number; the path is not named. -/
def PathFault.message : PathFault → String
  | missing => "No such file or directory (os error 2)"
  | throughFile => "Not a directory (os error 20)"
  | folder => "Is a directory (os error 21)"
  | nameTooLong => "File name too long (os error 36)"

/-- What reading each path gives: bytes, or why there is no file. -/
abbrev Files := String → Except PathFault (List UInt8)

/-- One thing that a command does: it prints a line, makes a folder or writes a file. -/
inductive Step where
  | print (text : String)
  | makeFolder (path : String)
  | write (path content : String)
deriving DecidableEq

/-- What is said when the step cannot be done: it names the path. -/
def Step.failure : Step → String
  | print _ => "Failed to print"
  | makeFolder path => s!"Failed to create {path} directory"
  | write path _ => s!"Failed to write {path}"

/-- Why a command fails. -/
inductive CommandError where
  | unreadable (path : String)
  | unloadable (path : String) (fault : PathFault)
  | sheet (path : String) (cause : Market.SheetError)
  | log (path : String) (cause : LogError)
  | stored (cause : StoredError)
  | notABinding (entry : String)
  | invalidBinding (name : String)
  | invalidDate (cause : Date.Unreadable)
  | election (cause : ElectionError)
  | replay (cause : Replay.Failure)
  | construction (cause : ConstructionError)
deriving DecidableEq

/-- Names the file that cannot be read or loaded, with the cause, or the binding that cannot be; of
everything else, the message of the cause. -/
def CommandError.message : CommandError → String
  | unreadable path => s!"Failed to read {path}"
  | unloadable path fault => s!"Failed to load {path}: " ++ fault.message
  | sheet path cause => s!"Failed to load {path}: " ++ cause.message
  | log path cause => s!"Failed to load {path}: " ++ cause.message
  | stored cause => cause.message
  | notABinding entry => s!"Binding must be NAME=VALUE, got: {entry}"
  | invalidBinding name => s!"Invalid value for binding {name}"
  | invalidDate cause => cause.message
  | election cause => cause.message
  | replay cause => cause.message
  | construction cause => cause.message

/-- All `steps` of a command, and the `error` with which it then fails, if it does. -/
structure Script where
  steps : List Step
  error : Option CommandError

/-- The script of steps that are done only if all of them can be found: of `.error e` there are
none. -/
def Script.of : Except CommandError (List Step) → Script
  | .ok steps => ⟨steps, none⟩
  | .error e => ⟨[], some e⟩

/-! ### Files that commands read -/

namespace Files

/-- The snapshot in the file at `path`. -/
def snapshot (files : Files) (path : String) : Except CommandError Snapshot :=
  match files path with
  | .error _ => .error (.unreadable path)
  | .ok bytes => (Snapshot.read bytes).mapError .stored

/-- The bytes of the data file at `path`; a folder is taken for a file without any. -/
def data (files : Files) (path : String) : Except CommandError (List UInt8) :=
  match files path with
  | .ok bytes => .ok bytes
  | .error .folder => .ok []
  | .error fault => .error (.unloadable path fault)

/-- The market data in a file; without a path there are none. -/
def market (files : Files) : Option String → Except CommandError Market
  | none => .ok OrderedMap.empty
  | some path => do (Market.readSheet (← files.data path)).mapError (.sheet path)

/-- The election log in the file at `path`. -/
def log (files : Files) (path : String) : Except CommandError (List LogStep) := do
  (readLog (← files.data path)).mapError (.log path)

end Files
end Covenant
