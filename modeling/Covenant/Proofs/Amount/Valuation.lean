/-
# What a valuation reaches

To value an amount its parts are valued one after another, each only if those
before it have values, and of a choice only the branch that is taken: `a.Visits
env b`. So the failure of a part that is reached is the failure of the whole,
and a failure comes from a part that is reached and whose own parts have values:
it is the first.

Key definitions: `Amount.Visits`, `Amount.Reaches`.
Key theorems: `Amount.Reaches.error`, `Amount.exists_first_failure`.
-/
import Covenant.Amount.Value
import Covenant.Proofs.Except
import Covenant.Proofs.Ordered

namespace Covenant

/-- An observable has a value where it is the only one that has. -/
theorem Environment.observe_singleton (bindings : Bindings) (key : ObservableKey) (x : Decimal) :
    observe ⟨bindings, .ofList [(key, x)]⟩ key = .ok x := by
  rw [observe, OrderedMap.get?_singleton]

namespace Amount

/-- `a.value env` values `b`, directly inside `a`, with all before it valued and, if `a` is a
choice, on the branch that is taken. -/
inductive Visits (env : Environment) : Amount → Amount → Prop where
  | left {op : Operator} {left right : Amount} : Visits env (.binary op left right) left
  | right {op : Operator} {left right : Amount} {x : Decimal} : left.value env = .ok x →
      Visits env (.binary op left right) right
  | neg {a : Amount} : Visits env (.neg a) a
  | plus {a : Amount} : Visits env (.plus a) a
  | principal {principal rate : Amount} {dayCount : DayCount} {start finish : ContractDate} :
      Visits env (.interest principal rate dayCount start finish) principal
  | rate {principal rate : Amount} {dayCount : DayCount} {start finish : ContractDate}
      {x : Decimal} : principal.value env = .ok x →
      Visits env (.interest principal rate dayCount start finish) rate
  | selectLeft {relation : Relation} {left right whenTrue otherwise : Amount} :
      Visits env (.select relation left right whenTrue otherwise) left
  | selectRight {relation : Relation} {left right whenTrue otherwise : Amount} {x : Decimal} :
      left.value env = .ok x → Visits env (.select relation left right whenTrue otherwise) right
  | whenTrue {relation : Relation} {left right whenTrue otherwise : Amount} {x y : Decimal} :
      left.value env = .ok x → right.value env = .ok y → relation.holds x y = true →
      Visits env (.select relation left right whenTrue otherwise) whenTrue
  | otherwise {relation : Relation} {left right whenTrue otherwise : Amount} {x y : Decimal} :
      left.value env = .ok x → right.value env = .ok y → relation.holds x y = false →
      Visits env (.select relation left right whenTrue otherwise) otherwise

/-- `a.value env` values `b` at some point: `Visits`, any number of times. -/
inductive Reaches (env : Environment) : Amount → Amount → Prop where
  | refl (a : Amount) : Reaches env a a
  | head {a b c : Amount} : Visits env a b → Reaches env b c → Reaches env a c

variable {env : Environment} {a b c : Amount} {e : EvalError}

theorem value_binary {op : Operator} {left right : Amount} {x y : Decimal}
    (hx : left.value env = .ok x) (hy : right.value env = .ok y) :
    (binary op left right).value env = op.apply x y := by
  rw [value, hx, hy]
  rfl

theorem value_interest {principal rate : Amount} {dayCount : DayCount} {start finish : ContractDate}
    {x y : Decimal} (hx : principal.value env = .ok x) (hy : rate.value env = .ok y) :
    (interest principal rate dayCount start finish).value env = (do
      let start ← start.calendarDate
      let finish ← finish.calendarDate
      dayCount.interest x y start finish) := by
  rw [value, hx, hy]
  rfl

theorem value_select {relation : Relation} {left right whenTrue otherwise : Amount} {x y : Decimal}
    (hx : left.value env = .ok x) (hy : right.value env = .ok y) :
    (select relation left right whenTrue otherwise).value env =
      if relation.holds x y then whenTrue.value env else otherwise.value env := by
  rw [value, hx, hy]
  rfl

/-- A choice has a value if the parts it `Visits` have. -/
theorem exists_value_select {relation : Relation} {left right whenTrue otherwise : Amount}
    {x y : Decimal} (hx : left.value env = .ok x) (hy : right.value env = .ok y)
    (hparts : ∀ b, (select relation left right whenTrue otherwise).Visits env b →
      ∃ z, b.value env = .ok z) :
    ∃ z, (select relation left right whenTrue otherwise).value env = .ok z := by
  rw [value_select hx hy]
  cases hholds : relation.holds x y with
  | true => exact hparts whenTrue (.whenTrue hx hy hholds)
  | false => exact hparts otherwise (.otherwise hx hy hholds)

/-- The failure of a part that is valued is the failure of the whole. -/
theorem Visits.error (h : a.Visits env b) (hb : b.value env = .error e) :
    a.value env = .error e := by
  cases h with
  | left => exact bind_eq_error.mpr (.inl hb)
  | right hx => exact bind_eq_error.mpr (.inr ⟨_, hx, bind_eq_error.mpr (.inl hb)⟩)
  | neg => exact bind_eq_error.mpr (.inl hb)
  | plus => exact bind_eq_error.mpr (.inl hb)
  | principal => exact bind_eq_error.mpr (.inl hb)
  | rate hx => exact bind_eq_error.mpr (.inr ⟨_, hx, bind_eq_error.mpr (.inl hb)⟩)
  | selectLeft => exact bind_eq_error.mpr (.inl hb)
  | selectRight hx => exact bind_eq_error.mpr (.inr ⟨_, hx, bind_eq_error.mpr (.inl hb)⟩)
  | whenTrue hx hy hholds => rwa [value_select hx hy, if_pos hholds]
  | otherwise hx hy hholds => rwa [value_select hx hy, if_neg (Bool.eq_false_iff.mp hholds)]

/-- **The failure of a part that is reached** is the failure of the whole. -/
theorem Reaches.error (h : a.Reaches env b) (hb : b.value env = .error e) :
    a.value env = .error e := by
  induction h with
  | refl => exact hb
  | head hvisits _ ih => exact hvisits.error (ih hb)

/-- What is inherited along `Visits` holds of all that is reached. -/
theorem Reaches.keeps {P : Amount → Prop} (hstep : ∀ {a b}, P a → a.Visits env b → P b)
    (h : a.Reaches env b) (ha : P a) : P b := by
  induction h with
  | refl => exact ha
  | head hvisits _ ih => exact ih (hstep ha hvisits)

theorem Visits.sizeOf_lt (h : a.Visits env b) : sizeOf b < sizeOf a := by
  cases h <;> simp <;> omega

/-- **A failure starts somewhere**: at a part that is reached, fails, and whose own parts that are
valued have values. -/
theorem exists_first_failure {a : Amount} (ha : a.value env = .error e) :
    ∃ b, a.Reaches env b ∧ b.value env = .error e ∧
      ∀ c, b.Visits env c → ∃ x, c.value env = .ok x := by
  by_cases hparts : ∀ c, a.Visits env c → ∃ x, c.value env = .ok x
  · exact ⟨a, .refl a, ha, hparts⟩
  · obtain ⟨c, hc⟩ := Classical.not_forall.mp hparts
    obtain ⟨hvisits, hnone⟩ := Classical.not_imp.mp hc
    cases hvalue : c.value env with
    | ok x => exact absurd ⟨x, hvalue⟩ hnone
    | error e' =>
      cases (hvisits.error hvalue).symm.trans ha
      obtain ⟨b, hreaches, hfails, hok⟩ := exists_first_failure hvalue
      exact ⟨b, .head hvisits hreaches, hfails, hok⟩
termination_by sizeOf a
decreasing_by exact hvisits.sizeOf_lt

end Amount
end Covenant
