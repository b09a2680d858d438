/-
# Flags of a command line

A flag is written `--name value` or `--name=value`, a switch just `--name`. A
value that is a word of its own does not start with a hyphen, unless it is the
hyphen alone. Only some flags may be repeated. Anything else on the command line
is a `mistake`. Words are looked at one after the other, so a request for help
counts only if there is no mistake before it.

Key definitions: `Flag`, `Form.accepts`, `Flags.scan`.
-/
import Covenant.Text.Blank
import Covenant.Text.Digits

namespace Covenant

/-- What follows a flag, and how often it may come. -/
inductive Arity where
  | switch
  | once
  | many
deriving DecidableEq

/-- What the value of a flag stands for. -/
inductive Form where
  | text
  | path
  | count
deriving DecidableEq

/-- The number that `word` denotes, if it has 64 bits. -/
def Form.count? (word : String) : Option Nat :=
  match Digits.natural? word.toList with
  | some n => if n < UInt64.size then some n else none
  | none => none

/-- Whether `word` can be the value: a path is not empty, a count is a number. -/
def Form.accepts (word : String) : Form → Bool
  | text => true
  | path => word != ""
  | count => (count? word).isSome

/-- A flag that a command knows. -/
structure Flag where
  name : String
  arity : Arity
  form : Form

/-- Why a command does not start to work. -/
inductive Refusal where
  | mistake
  | help
deriving DecidableEq

namespace Flags

/-- Whether `word` can stand alone as a value. -/
def isValue (word : String) : Bool := word == "-" || word.toList.head? != some '-'

/-- The name of a flag as it is written in `word`, and the value attached to it. -/
def split (word : String) : Option (String × Option String) :=
  match word.toList with
  | '-' :: '-' :: body =>
    let body := String.ofList body
    match Text.splitAt? (· == '=') body with
    | some (name, value) => some (name, some value)
    | none => some (body, none)
  | _ => none

/-- Whether a word asks for help. -/
def isHelp (word : String) : Bool :=
  match word.toList with
  | '-' :: 'h' :: _ => true
  | _ => word == "--help"

/-- The flags with their values, in the order in which they are written; those in `seen` are
behind. -/
def scan (flags : List Flag) (seen : List String) :
    List String → Except Refusal (List (String × String))
  | [] => .ok []
  | word :: rest =>
    if isHelp word then .error .help
    else if word = "--" then if rest.isEmpty then .ok [] else .error .mistake
    else
      match split word with
      | none => .error .mistake
      | some (name, attached) =>
        match flags.find? fun f => f.name == name with
        | none => .error .mistake
        | some flag =>
          if flag.arity ≠ .many ∧ seen.contains name then .error .mistake
          else
            match flag.arity, attached with
            | .switch, none => (scan flags (name :: seen) rest).map ((name, "") :: ·)
            | .switch, some _ => .error .mistake
            | _, some value =>
              if flag.form.accepts value then
                (scan flags (name :: seen) rest).map ((name, value) :: ·)
              else .error .mistake
            | _, none =>
              match rest with
              | [] => .error .mistake
              | value :: rest =>
                if isValue value && flag.form.accepts value then
                  (scan flags (name :: seen) rest).map ((name, value) :: ·)
                else .error .mistake

/-- All values of the flag `name`. -/
def values (given : List (String × String)) (name : String) : List String :=
  (given.filter fun g => g.1 == name).map (·.2)

/-- The value of the flag `name`, which must be there. -/
def required (given : List (String × String)) (name : String) : Except Refusal String :=
  match values given name with
  | value :: _ => .ok value
  | [] => .error .mistake

/-- The value of the flag `name`, if it is there. -/
def optional (given : List (String × String)) (name : String) : Option String :=
  (values given name).head?

end Flags
end Covenant
