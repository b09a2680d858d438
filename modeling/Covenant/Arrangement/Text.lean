/-
# Arrangements as they are shown

One line for a node, one for each action and effect, each level two blanks
further in than the action it follows: `Arrangement.lines depth`.

Key definitions: `Arrangement.toText`, `Resume.toText`.
-/
import Covenant.Arrangement.Basic

namespace Covenant

/-- A bound directive in text: `Rebind.directiveText` of its rebinds, and the period that it goes on
to. -/
def Resume.toText {α : Type} (r : Resume α) : String :=
  Rebind.directiveText r.rebinds ++ " -> period " ++ Digits.text (r.rollout.period + 1)

namespace Arrangement

/-- The line `s` behind two blanks for each level of `depth`. -/
def indented (depth : Nat) (s : String) : String :=
  String.ofList (List.replicate (2 * depth) ' ') ++ s ++ "\n"

/-- The line of an action: its `label`, and who may elect it when. -/
def headline (label : String) (actors : PartySet) (guard : Guard) : String :=
  "(" ++ actors.toText ++ ") may \"" ++ label ++ "\" " ++ guard.toText

mutual

/-- The lines of an arrangement, from `depth` on. -/
def lines (depth : Nat) : Arrangement → String
  | zero => indented depth "zero"
  | actions choices => indented depth "actions" ++ choiceLines depth choices
  | next rebinds => indented depth (Rebind.directiveText rebinds)
  | resume r => indented depth r.toText

/-- The lines of a node's actions at `depth`, each with its effects and what follows it. -/
def choiceLines (depth : Nat) : List (Action Arrangement) → String
  | [] => ""
  | ⟨label, actors, guard, effects, continuation⟩ :: rest =>
    indented (depth + 1) (headline label actors guard) ++
      String.join (effects.map fun o => indented (depth + 2) o.toText) ++
      continuation.lines (depth + 2) ++ choiceLines depth rest

end

/-- The lines of the arrangement `a`, a line break after each. -/
def toText (a : Arrangement) : String := a.lines 0

end Arrangement
end Covenant
