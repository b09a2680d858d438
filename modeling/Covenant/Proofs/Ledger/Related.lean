/-
# Ledgers with related positions

Payments whose amounts are related by `R` come to positions that are, or both to
no position of the same account, if sums and differences keep `R`: it is
`Decimal.Additive`.

Key definitions: `Payment.Related`.
Key theorems: `Ledger.alike_postAll`, `alike_netPositions`.
-/
import Covenant.Ledger
import Covenant.Proofs.Decimal.Congruence
import Covenant.Proofs.Except
import Covenant.Proofs.Ordered

namespace Covenant

/-- Payments of related amounts in the same currency between the same parties. -/
structure Payment.Related (R : Decimal → Decimal → Prop) (p p' : Payment) : Prop where
  payer_eq : p.payer = p'.payer
  payee_eq : p.payee = p'.payee
  currency_eq : p.currency = p'.currency
  amount_related : R p.amount p'.amount

variable {R : Decimal → Decimal → Prop}

namespace Ledger

variable {l l' : Ledger}

theorem related_position (hR : Decimal.Additive R) (h : OrderedMap.Related R l l')
    (account : Account) : R (position l account) (position l' account) := by
  unfold position
  rcases rel_cases (h.get? account) with ⟨hx, hx'⟩ | ⟨x, x', hx, hx', hxx⟩
  · rw [hx, hx']
    exact hR.zero
  · rw [hx, hx']
    exact hxx

theorem alike_update (h : OrderedMap.Related R l l') (account : Account)
    {total total' : Option Decimal} (htotal : Option.Rel R total total') :
    Alike (· = ·) (OrderedMap.Related R) (update l account total) (update l' account total') := by
  cases htotal with
  | none => exact .error rfl
  | some hx => exact .ok (h.insert account hx)

theorem alike_post (hR : Decimal.Additive R) (h : OrderedMap.Related R l l') {p p' : Payment}
    (hp : p.Related R p') :
    Alike (· = ·) (OrderedMap.Related R) (post l p) (post l' p') := by
  obtain ⟨payer, payee, amount, currency⟩ := p
  obtain ⟨payer', payee', amount', currency'⟩ := p'
  obtain ⟨rfl, rfl, rfl, hamount⟩ := hp
  unfold post
  refine (alike_update h _ (hR.add (related_position hR h _) hamount)).bind fun _ _ hreceived => ?_
  exact alike_update hreceived _ (hR.sub (related_position hR hreceived _) hamount)

theorem alike_postAll (hR : Decimal.Additive R) {payments payments' : List Payment}
    (h : List.Forall₂ (Payment.Related R) payments payments') : ∀ {l l' : Ledger},
    OrderedMap.Related R l l' →
    Alike (· = ·) (OrderedMap.Related R) (postAll l payments) (postAll l' payments') := by
  induction h with
  | nil => exact fun hl => .ok hl
  | cons hp _ ih => exact fun hl => (alike_post hR hl hp).bind fun _ _ hposted => ih hposted

end Ledger

/-- Payments of related amounts come to related `netPositions`. -/
theorem alike_netPositions (hR : Decimal.Additive R) {payments payments' : List Payment}
    (h : List.Forall₂ (Payment.Related R) payments payments') :
    Alike (· = ·) (OrderedMap.Related R) (netPositions payments) (netPositions payments') :=
  Ledger.alike_postAll hR h .nil

end Covenant
