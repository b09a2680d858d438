/-
# Amounts up to the sign of zeros

`Amount.normal` takes the sign off every zero that is a constant of an amount.
It changes no variable that is mentioned and no date, and an amount stays
related by `Decimal.Same` to all that it was related to: what
`Amount.Related.value` says of related amounts holds of an amount and of what
storage leaves of it.

Key definitions: `Amount.normal`, `Rebind.normal`, `Obligation.normal`.
Key theorems: `Amount.normal_normal`, `Amount.Related.normal_left`.
-/
import Covenant.Proofs.Amount.Related
import Covenant.Proofs.Decimal.Normal

namespace Covenant

open Decimal (Same)

namespace Amount

/-- The amount, its constants without a sign if they are zero. -/
def normal : Amount → Amount
  | const value => const value.normal
  | var name => var name
  | state name => state name
  | observe observable => observe observable
  | binary op left right => binary op left.normal right.normal
  | neg x => neg x.normal
  | plus x => plus x.normal
  | interest principal rate dayCount start finish =>
    interest principal.normal rate.normal dayCount start finish
  | select relation left right whenTrue otherwise =>
    select relation left.normal right.normal whenTrue.normal otherwise.normal

@[simp] theorem normal_normal (a : Amount) : a.normal.normal = a.normal := by
  induction a <;> simp_all [normal]

@[simp] theorem stateNames_normal (a : Amount) : a.normal.stateNames = a.stateNames := by
  induction a <;> simp_all [normal, stateNames]

@[simp] theorem stateRefs_normal (a : Amount) : a.normal.stateRefs = a.stateRefs := by
  simp [stateRefs]

@[simp] theorem ofPeriod_normal (a : Amount) : a.normal.ofPeriod = a.ofPeriod := by
  induction a <;> simp_all [normal, ofPeriod]

/-- `a.normal` is the same as whatever `a` is the same as. -/
theorem Related.normal_left {a b : Amount} (h : a.Related Same b) : a.normal.Related Same b := by
  induction h with
  | @const x _ hxy => exact .const (x.same_normal.trans hxy)
  | var name => exact .var name
  | state name => exact .state name
  | observe o => exact .observe o
  | binary op _ _ ihl ihr => exact .binary op ihl ihr
  | neg _ ih => exact .neg ih
  | plus _ ih => exact .plus ih
  | interest dayCount start finish _ _ ihp ihr => exact .interest dayCount start finish ihp ihr
  | select relation _ _ _ _ ihl ihr iht iho => exact .select relation ihl ihr iht iho

end Amount

namespace Rebind

/-- The rebind, its value without signs of zeros. -/
def normal (r : Rebind) : Rebind := ⟨r.name, r.value.normal⟩

@[simp] theorem normal_normal (r : Rebind) : r.normal.normal = r.normal := by
  simp [normal]

theorem Related.normal_left {r r' : Rebind} (h : r.Related Same r') : r.normal.Related Same r' :=
  ⟨h.name_eq, h.value_related.normal_left⟩

end Rebind

namespace Obligation

/-- The obligation, its amount without signs of zeros. -/
def normal (o : Obligation) : Obligation := { o with amount := o.amount.normal }

@[simp] theorem normal_normal (o : Obligation) : o.normal.normal = o.normal := by
  simp [normal]

theorem Related.normal_left {o o' : Obligation} (h : o.Related Same o') :
    o.normal.Related Same o' :=
  ⟨h.payer_eq, h.payee_eq, h.currency_eq, h.amount_related.normal_left⟩

end Obligation
end Covenant
