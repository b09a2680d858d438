/-
# The showcase

Walks the usual swaption through an exchange and a cancellation, and writes
snapshots of all ready-made contracts for the other commands.

Key definitions: `Showcase.script`.
-/
import Covenant.Arrangement.Text
import Covenant.Command.Elect
import Covenant.Terms.FxForward
import Covenant.Terms.Swap
import Covenant.Terms.Swaption
import Covenant.Terms.Tarf

namespace Covenant
namespace Showcase

/-- The tree `a` under a `title` with its digest. -/
def treeLines (title : String) (a : Arrangement) : List Step :=
  [.print (title ++ " [" ++ a.digest.toText ++ "]"), .print a.toText]

/-- The variables of the swaption. -/
def bindings : Bindings :=
  .ofList [("notional", .literal 10000000 0), ("coupon", .literal 15 3)]

/-- The LIBOR fixings of the swaption's periods. -/
def market : Market :=
  .ofList [
    (.fixing "LIBOR" (.literal 2015 4 1) (.literal 2015 7 1), .literal 36 4),
    (.fixing "LIBOR" (.literal 2015 7 1) (.literal 2015 10 1), .literal 41 4)]

/-- The line of what is open on `day`. -/
def openLine (a : Arrangement) (day : Date) : Step :=
  let labels := (a.available day).map fun action => "\"" ++ action.label ++ "\""
  .print ("Available on " ++ day.slashText ++ ": [" ++ ", ".intercalate labels ++ "]")

/-- The lines of the election `e`: who elected what, and the payments. -/
def electionLines (e : Election) : List Step :=
  .print (e.actor.name ++ " elects \"" ++ e.label ++ "\" on " ++ e.day.slashText ++ ":") ::
    ElectCommand.paymentLines "  " e.payments

/-- Writes the snapshot `s` into the folder of snapshots, under `name`. -/
def save (name : String) (s : Snapshot) : List Step :=
  let path := "snapshots/" ++ name
  [.write path s.pretty, .print ("Wrote " ++ path ++ " (" ++ s.digest.toText ++ ")")]

/-- A ready-made contract, or the error that its construction comes to. -/
def built (a : Except ConstructionError Arrangement) : Except CommandError Arrangement :=
  a.mapError .construction

/-- An election on the swaption, under `bindings` and `market`. -/
def elect (a : Arrangement) (actor : Party) (label : String) (day : Date) :
    Except CommandError Election :=
  (a.elect ⟨bindings, market⟩ actor label day).mapError .election

/-- What the showcase does. -/
def steps : Except CommandError (List Step) := do
  let terms := SwaptionTerms.standard
  let swaption ← built terms.build
  let tarf ← built TarfTerms.standard.build
  let swap ← built SwapTerms.standard.build
  let fxForward ← built FxForwardTerms.standard.build
  let proceed ← elect swaption terms.bank "proceed" (.literal 2015 7 2)
  let cancel ← elect swaption terms.corp "cancel" (.literal 2015 3 15)
  return [.print "Arrangement Engine v0.1.0", .print "=========================\n"] ++
    treeLines "Swaption" swaption ++
    [openLine swaption (.literal 2015 7 1), openLine swaption (.literal 2015 7 2), .print ""] ++
    electionLines proceed ++ treeLines "Successor" proceed.successor ++
    electionLines cancel ++
    [.print ("Successor is zero: " ++ toString cancel.successor.isZero ++ "\n"),
      .makeFolder "snapshots"] ++
    save "swaption.json" ⟨swaption, bindings⟩ ++ save "tarf.json" ⟨tarf, .empty⟩ ++
    save "swap.json" ⟨swap, .empty⟩ ++ save "fx_forward.json" ⟨fxForward, .empty⟩

/-- The script of the `steps`. -/
def script : Script := .of steps

end Showcase
end Covenant
