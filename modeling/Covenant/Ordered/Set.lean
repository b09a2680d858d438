/-
# Finite sets kept in order

A set is the list of its members, strictly increasing: two sets with the same
members are equal, however they were put together.

Key definitions: `OrderedSet`, `OrderedSet.insert`, `OrderedSet.union`.
-/

namespace Covenant

/-- A finite set: each member once, in increasing order. -/
structure OrderedSet (κ : Type) [Ord κ] where
  members : List κ
  increasing : members.Pairwise fun a b => compare a b = .lt

namespace OrderedSet

variable {κ : Type} [Ord κ]

instance [DecidableEq κ] : DecidableEq (OrderedSet κ) := fun a b =>
  decidable_of_iff (a.members = b.members) ⟨fun h => by cases a; cases b; congr, fun h => h ▸ rfl⟩

/-- The set without members. -/
def empty : OrderedSet κ := ⟨[], .nil⟩

instance : Inhabited (OrderedSet κ) := ⟨empty⟩

/-- Puts `x` at its place in an increasing list that may hold it already. -/
def insertMember (x : κ) : List κ → List κ
  | [] => [x]
  | y :: rest =>
    match compare x y with
    | .lt => x :: y :: rest
    | .eq => y :: rest
    | .gt => y :: insertMember x rest

theorem mem_insertMember {x y : κ} : ∀ {l : List κ}, y ∈ insertMember x l → y = x ∨ y ∈ l
  | [], h => by simpa [insertMember] using h
  | z :: rest, h => by
    unfold insertMember at h
    split at h
    · simpa using h
    · exact .inr h
    · rcases List.mem_cons.mp h with h | h
      · exact .inr (h ▸ List.mem_cons_self)
      · exact (mem_insertMember h).imp id (List.mem_cons_of_mem _)

theorem pairwise_insertMember [Std.TransOrd κ] (x : κ) : ∀ {l : List κ},
    l.Pairwise (fun a b => compare a b = .lt) →
    (insertMember x l).Pairwise fun a b => compare a b = .lt
  | [], _ => by simp [insertMember]
  | y :: rest, h => by
    have hhead := (List.pairwise_cons.mp h).1
    unfold insertMember
    split
    · rename_i hlt
      refine h.cons fun z hz => ?_
      rcases List.mem_cons.mp hz with rfl | hz
      · exact hlt
      · exact Std.TransCmp.lt_trans hlt (hhead z hz)
    · exact h
    · rename_i hgt
      refine (pairwise_insertMember x h.of_cons).cons fun z hz => ?_
      rcases mem_insertMember hz with rfl | hz
      · exact Std.OrientedCmp.lt_of_gt hgt
      · exact hhead z hz

/-- The set `s` with `x` as a member. -/
def insert [Std.TransOrd κ] (s : OrderedSet κ) (x : κ) : OrderedSet κ :=
  ⟨insertMember x s.members, pairwise_insertMember x s.increasing⟩

/-- The set of a list's elements. -/
def ofList [Std.TransOrd κ] (l : List κ) : OrderedSet κ := l.foldl insert empty

/-- The members of `s` or of `t`. -/
def union [Std.TransOrd κ] (s t : OrderedSet κ) : OrderedSet κ := t.members.foldl insert s

/-- Whether `x` is a member. -/
def contains (s : OrderedSet κ) (x : κ) : Bool := s.members.any fun y => (compare x y).isEq

/-- The number of members. -/
def size (s : OrderedSet κ) : Nat := s.members.length

/-- Whether there is no member. -/
def isEmpty (s : OrderedSet κ) : Bool := s.members.isEmpty

end OrderedSet
end Covenant
