/-
# Who may act

Parties are told apart by their names alone, so whether one is in a set of
parties is whether it is one of those that were joined.

Key theorems: `Party.contains_only`, `Party.contains_or`.
-/
import Covenant.Party
import Covenant.Proofs.Ordered

namespace Covenant

namespace Party

instance : Std.LawfulEqOrd Party where
  eq_of_compare {p q} h := by
    have hname : p.name = q.name := Std.LawfulEqOrd.eq_of_compare h
    cases p
    cases q
    cases hname
    rfl

theorem mem_only {p q : Party} : p ∈ q.only.members ↔ p = q := by
  rw [only, OrderedSet.insert, OrderedSet.mem_insertMember_iff]
  exact or_iff_left List.not_mem_nil

theorem mem_or {p q r : Party} : p ∈ (q.or r).members ↔ p = q ∨ p = r := by
  rw [Party.or, OrderedSet.mem_union, mem_only, mem_only]

@[simp] theorem contains_only {p q : Party} : q.only.contains p = true ↔ p = q := by
  rw [OrderedSet.contains_iff, mem_only]

@[simp] theorem contains_or {p q r : Party} : (q.or r).contains p = true ↔ p = q ∨ p = r := by
  rw [OrderedSet.contains_iff, mem_or]

theorem forall_contains_or (q r : Party) : ∀ p ∈ [q, r], (q.or r).contains p = true :=
  fun _ hp => contains_or.mpr (List.mem_pair.mp hp)

theorem isEmpty_or (p q : Party) : (p.or q).isEmpty = false := by
  rw [OrderedSet.isEmpty, List.isEmpty_eq_false_iff]
  exact List.ne_nil_of_mem (mem_or.mpr (.inl rfl))

theorem isEmpty_only (p : Party) : p.only.isEmpty = false := by
  rw [OrderedSet.isEmpty, List.isEmpty_eq_false_iff]
  exact List.ne_nil_of_mem (mem_only.mpr rfl)

end Party
end Covenant
