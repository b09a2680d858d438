/-
# Parties

A party is a name. Sets of parties, those who may elect an action, are ordered
by name, so it does not matter how a set was put together: `p.or q` is `q.or p`.

Key definitions: `Party`, `PartySet`, `PartySet.toText`.
-/
import Covenant.Ordered.Set

namespace Covenant

/-- A party to a contract. -/
structure Party where
  name : String
deriving DecidableEq

instance : Ord Party := ⟨compareOn Party.name⟩

instance : Std.TransOrd Party := inferInstanceAs (Std.TransCmp (compareOn Party.name))

/-- The parties of whom any one may act. -/
abbrev PartySet := OrderedSet Party

/-- The set of `p` alone. -/
def Party.only (p : Party) : PartySet := OrderedSet.empty.insert p

/-- The set of `p` and `q`, either of whom may act. -/
def Party.or (p q : Party) : PartySet := p.only.union q.only

/-- The names in their order, with `" or "` between them. -/
def PartySet.toText (s : PartySet) : String := " or ".intercalate (s.members.map Party.name)

end Covenant
