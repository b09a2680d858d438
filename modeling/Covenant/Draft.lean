/-
# Drafts

How an author puts a contract together, call by call: the parties of an action
are joined one to another, the variables of a rollout are declared one after the
other, and what follows an action is put together before it. `Draft.build` makes
the calls; the first one that is refused is the answer.

Key definitions: `Joined`, `Draft`, `Draft.build`.
-/
import Covenant.Arrangement.Rollout

namespace Covenant

/-- Parties of whom any one may act, as they are joined one to another by `either`. -/
inductive Joined where
  | one (party : Party)
  | either (left right : Joined)

namespace Joined

/-- The parties as they are named, from left to right. -/
def parties : Joined → List Party
  | one party => [party]
  | either left right => left.parties ++ right.parties

/-- The set of the `parties`. -/
def set : Joined → PartySet
  | one party => party.only
  | either left right => left.set.union right.set

end Joined

/-- One action as it is written, with what `α` is to follow. -/
structure DraftAction (α : Type) where
  label : String
  actors : Joined
  guard : Guard
  effects : List Obligation
  continuation : α

/-- A contract as it is written. A part of it may be a `tree` that is there already. -/
inductive Draft where
  | tree (tree : Arrangement)
  | zero
  | next (rebinds : List Rebind)
  | actions (items : List (DraftAction Draft))
  | rolledOut (start finish : Date) (frequency : Frequency) (declared : List (String × Amount))
      (body : Draft)
  | arranged (draft : Draft)

namespace Draft

mutual

/-- The tree that the draft comes to, or the first call that is refused. -/
def build : Draft → Except ConstructionError Arrangement
  | tree t => .ok t
  | zero => .ok .zero
  | next rebinds => .ok (.next rebinds)
  | actions items => do
    let choices ← buildItems items
    Arrangement.ofActions choices
  | rolledOut start finish frequency declared body => do
    let body ← body.build
    rollOut ⟨start, finish, frequency, .ofList declared⟩ body
  | arranged draft => do
    let t ← draft.build
    t.arrange

/-- What the actions of a node come to, each continuation before its action. -/
def buildItems : List (DraftAction Draft) → Except ConstructionError (List (Action Arrangement))
  | [] => .ok []
  | ⟨label, actors, guard, effects, continuation⟩ :: rest => do
    let successor ← continuation.build
    let choices ← buildItems rest
    return ⟨label, actors.set, guard, effects, successor⟩ :: choices

end

end Draft
end Covenant
