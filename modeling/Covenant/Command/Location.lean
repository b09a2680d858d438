/-
# Locations in the file system

A path is followed part by part from where it starts: the root, or the directory
that a command works in, `Location.home`. That directory stands among the
temporary files, under a name that no path can spell. Around it only the usual
folders and some devices are known to be there.

Key definitions: `Location`, `Location.parts`, `Location.home`, `Location.isSystemFolder`,
`Device.at?`.
-/
import Covenant.Command.Script

namespace Covenant

/-- The parts of a path from the root, innermost first; the root has none. -/
abbrev Location := List String

namespace Location

/-- The parts of `path` between slashes. -/
def parts (path : String) : List String :=
  (path.toList.splitOn '/').map String.ofList

/-- The directory that a command works in; no path has an empty part, so none spells it out. -/
def home : Location := ["", "tmp"]

/-- Where the parts of `path` start: at the root if it begins with a slash, else at `home`. -/
def start (path : String) : Location :=
  if path.toList.head? = some '/' then [] else home

/-- The path from `home` to a `place` in it. -/
def inside? (place : Location) : Option String :=
  if home.isSuffixOf place then
    some ("/".intercalate (place.take (place.length - home.length)).reverse)
  else none

/-- The usual folders of a system, around `home`. -/
def systemFolders : List String :=
  ["bin", "boot", "dev", "etc", "home", "lib", "media", "mnt", "opt", "proc", "root", "run",
    "sbin", "srv", "sys", "tmp", "usr", "var"]

/-- Whether a place around the directory is known to be a folder. -/
def isSystemFolder : Location → Bool
  | [] => true
  | [name] => systemFolders.contains name
  | _ => false

end Location

/-- Devices: one is empty and takes everything, one takes nothing, and one prints what it takes. -/
inductive Device where
  | null
  | full
  | screen
deriving DecidableEq

/-- The device at a place. -/
def Device.at? : Location → Option Device
  | ["null", "dev"] => some null
  | ["stdin", "dev"] => some null
  | ["full", "dev"] => some full
  | ["stdout", "dev"] => some screen
  | _ => none

end Covenant
