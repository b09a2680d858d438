/-
# Commands in a directory

A directory holds files, in folders or not. No file is found in the folders
around it, and what is written to them is lost sight of. With what has been
printed so far it is a host of commands, `Directory.host`.

Key definitions: `Directory`, `Directory.read`, `Directory.write?`,
`Directory.host`, `Directory.run`.
-/
import Covenant.Command.Host
import Covenant.Command.Location

namespace Covenant

/-- The `files` by their paths, and the paths of `folders`. -/
structure Directory where
  files : OrderedMap String (List UInt8)
  folders : OrderedSet String

namespace Directory

/-! ### Following a path -/

/-- Whether there is a folder at `place`. -/
def isFolder (d : Directory) (place : Location) : Bool :=
  match place.inside? with
  | some path => path == "" || d.folders.contains path
  | none => place.isSystemFolder

/-- Whether there is a file at a `path` without detours. -/
def isFile (d : Directory) (path : String) : Bool := (d.files.get? path).isSome

/-- Where a path leads, if not to a folder: to a name in the directory, to one in a folder around
it, or to a device. -/
inductive Target where
  | name (path : String)
  | outside
  | device (device : Device)
deriving DecidableEq

/-- What a `place` that is not a folder stands for. -/
def target (place : Location) : Target :=
  match place.inside?, Device.at? place with
  | some path, _ => .name path
  | none, some device => .device device
  | none, none => .outside

/-- Whether `place` is known to be taken by something that is not a folder. -/
def isTaken (d : Directory) (place : Location) : Bool :=
  match target place with
  | .name path => d.isFile path
  | .device _ => true
  | .outside => false

/-- The most bytes that a name can have. -/
def nameLimit : Nat := 255

/-- The least number of bytes that a path cannot have. -/
def pathLimit : Nat := 4096

/-- Follows the parts of a path from the folder `here`, through folders that are there, to a name in
one. -/
def follow (d : Directory) (here : Location) : List String → Except PathFault Target
  | [] => .error .folder
  | part :: rest =>
    if part = "" ∨ part = "." then d.follow here rest
    else if part = ".." then d.follow here.tail rest
    else if nameLimit < part.utf8ByteSize then .error .nameTooLong
    else if d.isFolder (part :: here) then d.follow (part :: here) rest
    else if rest = [] then .ok (target (part :: here))
    else .error (if d.isTaken (part :: here) then .throughFile else .missing)

/-- Where a `path` leads, if it is not too long: what following its parts comes to. -/
def resolve (d : Directory) (path : String) : Except PathFault Target :=
  if pathLimit ≤ path.utf8ByteSize then .error .nameTooLong
  else d.follow (Location.start path) (Location.parts path)

/-! ### Reading and writing -/

/-- The bytes of the file that `path` leads to. -/
def read (d : Directory) (path : String) : Except PathFault (List UInt8) := do
  match ← d.resolve path with
  | .name path =>
    match d.files.get? path with
    | some bytes => .ok bytes
    | none => .error .missing
  | .device .null => .ok []
  | _ => .error .missing

/-- The directory with `content` written where `path` leads, and what that prints, if it can be
done. -/
def write? (d : Directory) (path content : String) : Option (Directory × List String) :=
  match d.resolve path with
  | .error _ => none
  | .ok (.name path) => some ({ d with files := d.files.insert path (Text.bytes content) }, [])
  | .ok (.device .full) => none
  | .ok (.device .screen) => some (d, [content])
  | .ok _ => some (d, [])

/-- The directory with a folder made at `path`, if there is no file of its name. -/
def makeFolder? (d : Directory) (path : String) : Option Directory :=
  if d.isFile path then none else some { d with folders := d.folders.insert path }

/-- The folders around a file, from its path. -/
def around (path : String) : List String :=
  let all := Location.parts path
  (List.range (all.length - 1)).map fun n => "/".intercalate (all.take (n + 1))

/-- The directory of these files, each in the folders that its path names. -/
def ofFiles (files : List (String × List UInt8)) : Directory :=
  ⟨.ofList files, .ofList (files.flatMap fun f => around f.1)⟩

/-! ### Commands -/

/-- The directory after one `Step`, and what the step prints; `none` if it cannot be done. -/
def step? (d : Directory) : Step → Option (Directory × List String)
  | .print text => some (d, [text ++ "\n"])
  | .makeFolder path => (d.makeFolder? path).map fun d => (d, [])
  | .write path content => d.write? path content

/-- A directory in which commands run, and the pieces of text printed so far. -/
structure Session where
  directory : Directory
  output : List String

/-- The directory as a `Host`: it is read as it is, and a step leaves what `step?` gives. -/
def host : Host (StateM Session) where
  read path := return (← get).directory.read path
  perform step := do
    let s ← get
    match s.directory.step? step with
    | none => return false
    | some (d, printed) =>
      set (Session.mk d (s.output ++ printed))
      return true

/-- What came of a command: its `exit` code, the pieces of text that it printed, why it failed, and
the directory. -/
structure Report where
  exit : Nat
  output : List String
  error : Option String
  directory : Directory

/-- What comes of an `action` that starts in the directory `d`, with nothing printed. -/
def report (d : Directory) (action : StateM Session Ending) : Report :=
  let (ending, s) := action.run ⟨d, []⟩
  ⟨ending.exit, s.output, ending.failure?, s.directory⟩

/-- Runs a `program` in the directory `d`, with the words of a command line: `Host.run` on
`host`. -/
def run (d : Directory) (program : Program) (words : List String) : Report :=
  d.report (host.run program words)

end Directory
end Covenant
