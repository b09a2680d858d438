/-
# Net positions conserve money

A payment moves its amount from one account to another of the same currency, so
what the accounts of a currency `received` is what they `paid`. The ledger `l`
of `netPositions payments` has one entry for each account that a payment names.
As long as every running total can be written as a decimal the entries are
exact, and those of a currency sum to zero: `l.total c = 0`. A running total
that is too large is an error. One that is not too large but has too many digits
is rounded, by a half at most: there a position can differ from what was
received less what was paid.

Key definitions: `received`, `paid`, `turnover`, `Ledger.total`, `TotalsFit`,
`Ledger.Overflows`.
Key theorems: `Ledger.mem_keys_postAll`, `Ledger.postAll_exact`,
`Ledger.postAll_near`, `netPositions_exchange`, `totalsFit_of_turnover_lt`,
`netPositions_conserve`.
-/
import Covenant.Ledger
import Covenant.Proofs.Currency
import Covenant.Proofs.Decimal.Rational
import Covenant.Proofs.Except
import Covenant.Proofs.Ordered
import Mathlib.Algebra.BigOperators.Group.List.Basic

namespace Covenant

open Decimal (IsDecimal TooLarge)

/-! ### Accounts -/

instance : Std.LawfulEqOrd Account where
  eq_of_compare {a b} h := by
    obtain ⟨hname, hrank⟩ := compareLex_eq_eq.mp h
    obtain ⟨⟨name⟩, currency⟩ := a
    obtain ⟨⟨name'⟩, currency'⟩ := b
    have hname : name = name' := Std.LawfulEqCmp.eq_of_compare hname
    have hcurrency : currency = currency' :=
      Currency.eq_of_rank_eq (Std.LawfulEqCmp.eq_of_compare hrank)
    rw [hname, hcurrency]

namespace Payment

/-- The account that a payment goes to, in its `currency`. -/
def payeeAccount (p : Payment) : Account := ⟨p.payee, p.currency⟩

/-- The account that a payment comes from, in its `currency`. -/
def payerAccount (p : Payment) : Account := ⟨p.payer, p.currency⟩

end Payment

/-! ### What payments move -/

/-- What the payments that name the account on a `side` come to. -/
def volume (side : Payment → Account) (payments : List Payment) (account : Account) : ℚ :=
  ((payments.filter fun p => side p = account).map fun p => p.amount.toRat).sum

/-- Everything that was paid to an account. -/
def received : List Payment → Account → ℚ := volume Payment.payeeAccount

/-- Everything that was paid from an account. -/
def paid : List Payment → Account → ℚ := volume Payment.payerAccount

/-- What is left to an account: `received` less `paid`. -/
def net (payments : List Payment) (account : Account) : ℚ :=
  received payments account - paid payments account

/-- Everything that was paid, whatever the sign. -/
def turnover (payments : List Payment) : ℚ := (payments.map fun p => |p.amount.toRat|).sum

/-- The number of times that an account is named. -/
def postings (payments : List Payment) (account : Account) : Nat :=
  payments.countP (fun p => p.payeeAccount = account) +
    payments.countP (fun p => p.payerAccount = account)

section

variable (side : Payment → Account) (payments : List Payment) (p : Payment) (account : Account)

theorem volume_cons : volume side (p :: payments) account =
    (if account = side p then p.amount.toRat else 0) + volume side payments account := by
  by_cases h : side p = account
  · simp [volume, h]
  · simp [volume, h, Ne.symm h]

theorem net_nil : net [] account = 0 := sub_self _

theorem net_cons : net (p :: payments) account =
    (if account = p.payeeAccount then p.amount.toRat else 0) +
      (if account = p.payerAccount then -p.amount.toRat else 0) + net payments account := by
  unfold net received paid
  rw [volume_cons, volume_cons]
  split <;> split <;> ring

theorem volume_append (payments' : List Payment) : volume side (payments ++ payments') account =
    volume side payments account + volume side payments' account := by
  simp [volume]

theorem volume_append_singleton : volume side (payments ++ [p]) account =
    volume side payments account + if account = side p then p.amount.toRat else 0 := by
  by_cases h : side p = account
  · simp [volume, h]
  · simp [volume, h, Ne.symm h]

theorem net_append_singleton : net (payments ++ [p]) account =
    net payments account + (if account = p.payeeAccount then p.amount.toRat else 0) +
      if account = p.payerAccount then -p.amount.toRat else 0 := by
  unfold net received paid
  rw [volume_append_singleton, volume_append_singleton]
  split <;> split <;> ring

theorem postings_append_singleton : postings (payments ++ [p]) account =
    postings payments account + (if account = p.payeeAccount then 1 else 0) +
      if account = p.payerAccount then 1 else 0 := by
  unfold postings
  rw [List.countP_append, List.countP_append, List.countP_singleton, List.countP_singleton]
  simp only [decide_eq_true_eq, @eq_comm _ account]
  omega

end

/-- At a place at which every amount has ended what is moved is a whole number of units. -/
theorem exists_volume_mul_tenTo {s : Nat} (side : Payment → Account) (account : Account) :
    ∀ {payments : List Payment}, (∀ p ∈ payments, p.amount.scale ≤ s) →
      ∃ k : Int, volume side payments account * Decimal.tenTo s = k
  | [], _ => ⟨0, by simp [volume]⟩
  | p :: rest, h => by
    obtain ⟨k, hk⟩ :=
      exists_volume_mul_tenTo side account fun q hq => h q (List.mem_cons_of_mem p hq)
    have hp := Decimal.toRat_mul_tenTo (h p List.mem_cons_self)
    generalize p.amount.unscaled * (Decimal.tenTo (s - p.amount.scale) : Int) = amount at hp
    refine ⟨(if account = side p then amount else 0) + k, ?_⟩
    rw [volume_cons, add_mul, hk, ite_mul, hp, zero_mul]
    push_cast
    rfl

/-- So is a position. -/
theorem exists_net_mul_tenTo {s : Nat} (account : Account) {payments : List Payment}
    (h : ∀ p ∈ payments, p.amount.scale ≤ s) :
    ∃ k : Int, net payments account * Decimal.tenTo s = k := by
  obtain ⟨k, hk⟩ := exists_volume_mul_tenTo Payment.payeeAccount account h
  obtain ⟨l, hl⟩ := exists_volume_mul_tenTo Payment.payerAccount account h
  exact ⟨k - l, by rw [net, sub_mul, received, paid, hk, hl, Int.cast_sub]⟩

theorem turnover_nonneg (payments : List Payment) : 0 ≤ turnover payments :=
  List.sum_nonneg fun x hx => by
    obtain ⟨p, -, rfl⟩ := List.mem_map.mp hx
    exact abs_nonneg _

theorem turnover_append (payments payments' : List Payment) :
    turnover (payments ++ payments') = turnover payments + turnover payments' := by
  rw [turnover, List.map_append, List.sum_append]
  rfl

theorem turnover_cons (p : Payment) (payments : List Payment) :
    turnover (p :: payments) = |p.amount.toRat| + turnover payments := by
  rw [turnover, List.map_cons, List.sum_cons]
  rfl

/-- A position is at most everything that was paid. -/
theorem abs_net_le (account : Account) : ∀ payments : List Payment,
    |net payments account| ≤ turnover payments
  | [] => by simp [net, received, paid, volume, turnover]
  | p :: rest => by
    have hmove : |(if account = p.payeeAccount then p.amount.toRat else 0) +
        (if account = p.payerAccount then -p.amount.toRat else 0)| ≤ |p.amount.toRat| := by
      split <;> split <;> simp
    rw [net_cons, turnover_cons]
    exact (abs_add_le _ _).trans (add_le_add hmove (abs_net_le account rest))

/-- Over accounts that include all those on a side, the volumes in a currency sum to the payments
in it. -/
theorem sum_volume (side : Payment → Account) {accounts : List Account} (hnodup : accounts.Nodup)
    (c : Currency) : ∀ {payments : List Payment}, (∀ p ∈ payments, side p ∈ accounts) →
    ((accounts.filter fun a => a.currency = c).map (volume side payments)).sum =
      ((payments.filter fun p => (side p).currency = c).map fun p => p.amount.toRat).sum
  | [], _ => by
    have hzero : volume side [] = fun _ => 0 := rfl
    simp [hzero]
  | p :: rest, h => by
    have hrest := sum_volume side hnodup c fun x hx => h x (List.mem_cons_of_mem p hx)
    have hone : accounts.count (side p) = 1 :=
      List.count_eq_one_of_mem hnodup (h p List.mem_cons_self)
    have hsingle : ((accounts.filter fun a => a.currency = c).map fun a =>
        if a = side p then p.amount.toRat else 0).sum =
          (accounts.filter fun a => a.currency = c).count (side p) • p.amount.toRat := by
      rw [List.sum_map_eq_nsmul_single (side p) _ fun a ha _ => if_neg ha, if_pos rfl]
    have hvolume : volume side (p :: rest) = fun a =>
        (if a = side p then p.amount.toRat else 0) + volume side rest a :=
      funext (volume_cons side rest p)
    rw [hvolume, List.sum_map_add, hsingle, hrest]
    by_cases hc : (side p).currency = c
    · rw [List.count_filter (by simpa using hc), hone, one_nsmul,
        List.filter_cons_of_pos (by simpa using hc), List.map_cons, List.sum_cons]
    · have hnone : side p ∉ accounts.filter fun a => a.currency = c := by simp [hc]
      rw [List.count_eq_zero_of_not_mem hnone, zero_nsmul, zero_add,
        List.filter_cons_of_neg (by simpa using hc)]

namespace Ledger

variable {l l' : Ledger} {p : Payment} {e : PositionOverflow}

/-! ### One posting -/

theorem position_insert (l : Ledger) (a account : Account) (x : Decimal) :
    position (l.insert a x) account = if account = a then x else position l account := by
  unfold position
  rw [OrderedMap.get?_insert]
  split <;> rfl

theorem position_of_mem_entries {entry : Account × Decimal} (h : entry ∈ l.entries) :
    position l entry.1 = entry.2 := by
  rw [position, OrderedMap.get?_of_mem_entries h, Option.getD_some]

section

variable {a : Account} {total : Option Decimal}

theorem update_eq_ok : update l a total = .ok l' ↔ ∃ x, total = some x ∧ l.insert a x = l' := by
  cases total <;> simp [update]

theorem update_eq_error : update l a total = .error e ↔ total = none ∧ e.account = a := by
  obtain ⟨account⟩ := e
  cases total <;> simp [update, eq_comm]

/-- An exact total is posted exactly. -/
theorem update_exact {change : ℚ}
    (h : total.map Decimal.toRat = some ((position l a).toRat + change)) :
    ∃ l', update l a total = .ok l' ∧ ∀ account, (position l' account).toRat =
      (position l account).toRat + if account = a then change else 0 := by
  obtain ⟨x, rfl, hx⟩ := Option.map_eq_some_iff.mp h
  refine ⟨l.insert a x, rfl, fun account => ?_⟩
  rw [position_insert]
  by_cases haccount : account = a
  · rw [if_pos haccount, if_pos haccount, haccount, hx]
  · rw [if_neg haccount, if_neg haccount, add_zero]

/-- A rounded total, within `1 / 2` of the sum, changes nothing else. -/
theorem update_near {change : ℚ} (h : update l a total = .ok l')
    (hnear : ∀ x, total = some x → |x.toRat - ((position l a).toRat + change)| ≤ 1 / 2)
    (account : Account) :
    |(position l' account).toRat -
      ((position l account).toRat + if account = a then change else 0)| ≤
        if account = a then 1 / 2 else 0 := by
  obtain ⟨x, hx, rfl⟩ := update_eq_ok.mp h
  rw [position_insert]
  by_cases haccount : account = a
  · rw [if_pos haccount, if_pos haccount, if_pos haccount, haccount]
    exact hnear x hx
  · rw [if_neg haccount, if_neg haccount, if_neg haccount, add_zero, sub_self, abs_zero]

end

/-! ### One payment -/

/-- The total of `account` is too large when `p` is posted: that of the payee, or, once the payee
has been credited, that of the payer. -/
def Overflows (l : Ledger) (p : Payment) (account : Account) : Prop :=
  account = p.payeeAccount ∧ TooLarge ((position l p.payeeAccount).toRat + p.amount.toRat) ∨
    ∃ l', update l p.payeeAccount ((position l p.payeeAccount).add p.amount) = .ok l' ∧
      account = p.payerAccount ∧ TooLarge ((position l' p.payerAccount).toRat - p.amount.toRat)

theorem post_eq_ok : post l p = .ok l' ↔
    ∃ r, update l p.payeeAccount ((position l p.payeeAccount).add p.amount) = .ok r ∧
      update r p.payerAccount ((position r p.payerAccount).sub p.amount) = .ok l' :=
  bind_eq_ok

theorem post_eq_error : post l p = .error e ↔ Overflows l p e.account := by
  have hbind : post l p = .error e ↔
      update l p.payeeAccount ((position l p.payeeAccount).add p.amount) = .error e ∨
        ∃ r, update l p.payeeAccount ((position l p.payeeAccount).add p.amount) = .ok r ∧
          update r p.payerAccount ((position r p.payerAccount).sub p.amount) = .error e :=
    bind_eq_error
  rw [hbind, Overflows, update_eq_error, Decimal.add_eq_none_iff, and_comm]
  refine or_congr Iff.rfl (exists_congr fun r => and_congr_right fun _ => ?_)
  rw [update_eq_error, Decimal.sub_eq_none_iff, and_comm]

/-- After `post` the accounts are those before it and the two of the payment. -/
theorem mem_keys_post (h : post l p = .ok l') (account : Account) :
    account ∈ l'.keys ↔
      account ∈ l.keys ∨ account = p.payeeAccount ∨ account = p.payerAccount := by
  obtain ⟨r, hpayee, hpayer⟩ := post_eq_ok.mp h
  obtain ⟨x, -, rfl⟩ := update_eq_ok.mp hpayee
  obtain ⟨y, -, rfl⟩ := update_eq_ok.mp hpayer
  rw [OrderedMap.mem_keys_insert, OrderedMap.mem_keys_insert]
  tauto

/-! ### Exact positions -/

/-- Every position is `net payments account`, what was received less what was paid. -/
def Exact (l : Ledger) (payments : List Payment) : Prop :=
  ∀ account, (position l account).toRat = net payments account

/-- After `before`, both totals that `p` runs up are decimals: that of the payee once it is
credited, and that of the payer once it is debited as well. -/
def Fits (before : List Payment) (p : Payment) : Prop :=
  IsDecimal (net before p.payeeAccount + p.amount.toRat) ∧
    IsDecimal (net (before ++ [p]) p.payerAccount)

theorem exact_empty : Ledger.Exact .empty [] := fun account => by
  rw [net_nil]
  exact Decimal.toRat_zero

/-- A payment that `Fits` keeps positions exact. -/
theorem post_exact {before : List Payment} (hl : l.Exact before) (hfits : Fits before p) :
    ∃ l', post l p = .ok l' ∧ l'.Exact (before ++ [p]) := by
  obtain ⟨hpayee, hpayer⟩ := hfits
  rw [← hl] at hpayee
  obtain ⟨r, hr, hcredit⟩ := update_exact (Decimal.add_exact hpayee)
  have htotal : (position r p.payerAccount).toRat - p.amount.toRat =
      net (before ++ [p]) p.payerAccount := by
    rw [net_append_singleton, if_pos rfl, hcredit, hl, sub_eq_add_neg]
  have hdebit := Decimal.sub_exact (htotal ▸ hpayer)
  rw [sub_eq_add_neg] at hdebit
  obtain ⟨l', hl', hdebit⟩ := update_exact hdebit
  refine ⟨l', post_eq_ok.mpr ⟨r, hr, hl'⟩, fun account => ?_⟩
  rw [hdebit, hcredit, hl, net_append_singleton]

/-- Every position is within a half for each of its `postings` of what was received less what was
paid. -/
def Near (l : Ledger) (payments : List Payment) : Prop :=
  ∀ account, |(position l account).toRat - net payments account| ≤ postings payments account / 2

/-- Whatever its totals, a payment that is posted moves positions by its amount up to a half for
each posting. -/
theorem post_near {before : List Payment} (hl : l.Near before) (h : post l p = .ok l') :
    l'.Near (before ++ [p]) := by
  obtain ⟨r, hr, hl'⟩ := post_eq_ok.mp h
  intro account
  have hcredit := update_near hr (fun x hx => Decimal.add_nearest hx) account
  have hdebit := update_near hl' (fun x hx => by
    rw [← sub_eq_add_neg]
    exact Decimal.sub_nearest hx) account
  have hbefore := hl account
  rw [net_append_singleton, postings_append_singleton]
  generalize (position l account).toRat = x₀ at *
  generalize (position r account).toRat = x₁ at *
  generalize (position l' account).toRat = x₂ at *
  generalize net before account = n at *
  generalize postings before account = k at *
  generalize p.amount.toRat = amount at *
  generalize hc : (if account = p.payeeAccount then amount else 0) = credit at *
  generalize hd : (if account = p.payerAccount then -amount else 0) = debit at *
  calc |x₂ - (n + credit + debit)|
      = |(x₂ - (x₁ + debit)) + (x₁ - (x₀ + credit)) + (x₀ - n)| := by
        congr 1
        ring
    _ ≤ |x₂ - (x₁ + debit)| + |x₁ - (x₀ + credit)| + |x₀ - n| := abs_add_three _ _ _
    _ ≤ (if account = p.payerAccount then 1 / 2 else 0) +
        (if account = p.payeeAccount then 1 / 2 else 0) + k / 2 :=
        add_le_add (add_le_add hdebit hcredit) hbefore
    _ = ((k + (if account = p.payeeAccount then 1 else 0) +
        if account = p.payerAccount then 1 else 0 : Nat) : ℚ) / 2 := by
        push_cast
        split <;> split <;> ring

/-! ### All payments -/

theorem postAll_cons_eq_ok {rest : List Payment} :
    postAll l (p :: rest) = .ok l' ↔ ∃ r, post l p = .ok r ∧ postAll r rest = .ok l' :=
  bind_eq_ok

theorem postAll_cons_eq_error {rest : List Payment} :
    postAll l (p :: rest) = .error e ↔
      post l p = .error e ∨ ∃ r, post l p = .ok r ∧ postAll r rest = .error e :=
  bind_eq_error

/-- The accounts after `postAll` are those before it and those that payments named. -/
theorem mem_keys_postAll (account : Account) : ∀ {payments : List Payment} {l l' : Ledger},
    postAll l payments = .ok l' →
    (account ∈ l'.keys ↔
      account ∈ l.keys ∨ ∃ p ∈ payments, account = p.payeeAccount ∨ account = p.payerAccount)
  | [], l, l', h => by
    cases h
    simp
  | p :: rest, l, l', h => by
    obtain ⟨r, hpost, hrest⟩ := postAll_cons_eq_ok.mp h
    rw [mem_keys_postAll account hrest, mem_keys_post hpost, List.exists_mem_cons_iff, or_assoc]

/-- Payments that fit, one after another, keep positions `Exact`. -/
theorem postAll_exact : ∀ {payments before : List Payment} {l : Ledger}, l.Exact before →
    (∀ sofar p after, payments = sofar ++ p :: after → Fits (before ++ sofar) p) →
    ∃ l', postAll l payments = .ok l' ∧ l'.Exact (before ++ payments)
  | [], before, l, hl, _ => ⟨l, rfl, (List.append_nil before).symm ▸ hl⟩
  | p :: rest, before, l, hl, hfits => by
    have hp : Fits before p := by simpa using hfits [] p rest rfl
    obtain ⟨r, hpost, hr⟩ := post_exact hl hp
    have hrest : ∀ sofar q after, rest = sofar ++ q :: after →
        Fits (before ++ [p] ++ sofar) q := fun sofar q after hq => by
      rw [List.append_assoc, List.singleton_append]
      exact hfits (p :: sofar) q after (by rw [hq, List.cons_append])
    obtain ⟨l', hrest, hl'⟩ := postAll_exact hr hrest
    refine ⟨l', postAll_cons_eq_ok.mpr ⟨r, hpost, hrest⟩, ?_⟩
    rwa [List.append_assoc, List.singleton_append] at hl'

/-- Payments keep positions `Near`, whether they fit or not. -/
theorem postAll_near : ∀ {payments before : List Payment} {l l' : Ledger}, l.Near before →
    postAll l payments = .ok l' → l'.Near (before ++ payments)
  | [], before, l, l', hl, h => by
    cases h
    rwa [List.append_nil]
  | p :: rest, before, l, l', hl, h => by
    obtain ⟨r, hpost, hrest⟩ := postAll_cons_eq_ok.mp h
    have hl' := postAll_near (post_near hl hpost) hrest
    rwa [List.append_assoc, List.singleton_append] at hl'

/-- `postAll` fails at the first payment that overflows. -/
theorem postAll_eq_error : ∀ {payments : List Payment} {l : Ledger},
    postAll l payments = .error e ↔ ∃ before p after r, payments = before ++ p :: after ∧
      postAll l before = .ok r ∧ r.Overflows p e.account
  | [], l => by
    refine iff_of_false nofun ?_
    rintro ⟨before, p, after, r, h, -⟩
    cases before <;> cases h
  | p :: rest, l => by
    rw [postAll_cons_eq_error]
    constructor
    · rintro (hp | ⟨r, hpost, hrest⟩)
      · exact ⟨[], p, rest, l, rfl, rfl, post_eq_error.mp hp⟩
      · obtain ⟨before, q, after, s, rfl, hs, hq⟩ := postAll_eq_error.mp hrest
        exact ⟨p :: before, q, after, s, rfl, postAll_cons_eq_ok.mpr ⟨r, hpost, hs⟩, hq⟩
    · rintro ⟨_ | ⟨p', before⟩, q, after, s, h, hs, hq⟩
      · cases h
        cases hs
        exact .inl (post_eq_error.mpr hq)
      · cases h
        obtain ⟨r, hpost, hrest⟩ := postAll_cons_eq_ok.mp hs
        exact .inr ⟨r, hpost, postAll_eq_error.mpr ⟨before, q, after, s, rfl, hrest, hq⟩⟩

/-! ### Totals of a currency -/

/-- What the positions in a currency sum to. -/
def total (l : Ledger) (c : Currency) : ℚ :=
  ((l.entries.filter fun entry => entry.1.currency = c).map fun entry => entry.2.toRat).sum

/-- What the accounts received is what they paid. -/
theorem total_eq_zero {payments : List Payment} (hl : l.Exact payments)
    (hpayee : ∀ p ∈ payments, p.payeeAccount ∈ l.keys)
    (hpayer : ∀ p ∈ payments, p.payerAccount ∈ l.keys) (c : Currency) : l.total c = 0 := by
  have hentries : (l.entries.filter fun entry => entry.1.currency = c).map
        (fun entry => entry.2.toRat) =
      (l.keys.filter fun a => a.currency = c).map (net payments) := by
    rw [OrderedMap.keys, List.filter_map, List.map_map]
    refine List.map_congr_left fun entry h => ?_
    rw [← position_of_mem_entries (List.mem_of_mem_filter h), hl]
    rfl
  calc l.total c
      = ((l.keys.filter fun a => a.currency = c).map (received payments)).sum -
          ((l.keys.filter fun a => a.currency = c).map (paid payments)).sum := by
        rw [total, hentries, eq_sub_iff_add_eq, ← List.sum_map_add]
        simp only [net, sub_add_cancel]
    _ = ((payments.filter fun p => p.currency = c).map fun p => p.amount.toRat).sum -
          ((payments.filter fun p => p.currency = c).map fun p => p.amount.toRat).sum :=
        congrArg₂ _ (sum_volume _ l.nodup_keys c hpayee) (sum_volume _ l.nodup_keys c hpayer)
    _ = 0 := sub_self _

end Ledger

/-! ### Net positions -/

/-- Every total that the payments run up, in their order, is a decimal: each payment `Fits` after
those before it. -/
def TotalsFit (payments : List Payment) : Prop :=
  ∀ before p after, payments = before ++ p :: after → Ledger.Fits before p

/-- `netPositions` are exact if every total fits. -/
theorem netPositions_exact {payments : List Payment} (hfits : TotalsFit payments) :
    ∃ l, netPositions payments = .ok l ∧ l.Exact payments :=
  Ledger.postAll_exact Ledger.exact_empty hfits

theorem totalsFit_pair {p q : Payment} (hp : Ledger.Fits [] p) (hq : Ledger.Fits [p] q) :
    TotalsFit [p, q] := by
  rintro (_ | ⟨_, _ | ⟨_, before⟩⟩) r after h
  · cases h
    exact hp
  · cases h
    exact hq
  · cases before <;> cases h

/-- Two payments that go opposite ways come to exact positions, in one currency if their difference
is a decimal. -/
theorem netPositions_exchange {a b : Party} (hab : a ≠ b) (x y : Decimal) (c c' : Currency)
    (h : c = c' → IsDecimal (x.toRat - y.toRat)) :
    ∃ l, netPositions [⟨a, b, x, c⟩, ⟨b, a, y, c'⟩] = .ok l ∧
      l.Exact [⟨a, b, x, c⟩, ⟨b, a, y, c'⟩] := by
  have hneg {z : ℚ} : IsDecimal z → IsDecimal (-z) := fun ⟨d, hd⟩ =>
    ⟨d.neg, by rw [Decimal.toRat_neg, hd]⟩
  have hba := hab.symm
  have hx : IsDecimal x.toRat := ⟨x, rfl⟩
  have hy : IsDecimal y.toRat := ⟨y, rfl⟩
  refine netPositions_exact (totalsFit_pair ⟨?_, ?_⟩ ⟨?_, ?_⟩)
  · simpa [net_nil] using hx
  · simpa [net_nil, net_cons, Payment.payeeAccount, Payment.payerAccount, hab] using hneg hx
  · by_cases hc : c' = c
    · have hyx : -(x.toRat - y.toRat) = -x.toRat + y.toRat := by ring
      simpa [net_nil, net_cons, Payment.payeeAccount, Payment.payerAccount, hab, hc, hyx] using
        hneg (h hc.symm)
    · simpa [net_nil, net_cons, Payment.payeeAccount, Payment.payerAccount, hab, hc] using hy
  · by_cases hc : c' = c
    · simpa [net_nil, net_cons, Payment.payeeAccount, Payment.payerAccount, hba, hc,
        sub_eq_add_neg] using h hc.symm
    · simpa [net_nil, net_cons, Payment.payeeAccount, Payment.payerAccount, hba, hc] using hneg hy

/-- Totals fit as long as the `turnover`, in units of a place `s` at which every amount has ended,
is below the limit. -/
theorem totalsFit_of_turnover_lt {payments : List Payment} {s : Nat} (hs : s ≤ 28)
    (hscale : ∀ p ∈ payments, p.amount.scale ≤ s)
    (hsum : turnover payments * Decimal.tenTo s < Decimal.limit) : TotalsFit payments := by
  rintro before p after rfl
  have hbound : ∀ {x : ℚ}, |x| ≤ turnover before + |p.amount.toRat| →
      |x| * Decimal.tenTo s < Decimal.limit := fun {x} hx => by
    refine lt_of_le_of_lt (mul_le_mul_of_nonneg_right (hx.trans ?_) (Nat.cast_nonneg _)) hsum
    have hafter := turnover_nonneg after
    rw [turnover_append, turnover_cons]
    linarith
  have hbefore : ∀ q ∈ before, q.amount.scale ≤ s := fun q hq =>
    hscale q (List.mem_append_left _ hq)
  have hp : p.amount.scale ≤ s := hscale p (by simp)
  constructor
  · obtain ⟨k, hk⟩ := exists_net_mul_tenTo p.payeeAccount hbefore
    have hunits : (net before p.payeeAccount + p.amount.toRat) * Decimal.tenTo s =
        (k + p.amount.unscaled * Decimal.tenTo (s - p.amount.scale) : Int) := by
      rw [add_mul, hk, Decimal.toRat_mul_tenTo hp, Int.cast_add]
    refine Decimal.isDecimal_of_mul_tenTo hunits (hbound ?_) hs
    exact (abs_add_le _ _).trans (add_le_add_left (abs_net_le _ before) _)
  · have hall : ∀ q ∈ before ++ [p], q.amount.scale ≤ s := fun q hq =>
      hscale q (by simp only [List.mem_append, List.mem_cons] at hq ⊢; tauto)
    obtain ⟨k, hk⟩ := exists_net_mul_tenTo p.payerAccount hall
    refine Decimal.isDecimal_of_mul_tenTo hk (hbound ?_) hs
    have hnet := abs_net_le p.payerAccount (before ++ [p])
    have hnil : turnover [] = 0 := rfl
    rwa [turnover_append, turnover_cons, hnil, add_zero] at hnet

/-- The `netPositions` of payments have exactly one entry for each account that a payment names.
**Money is conserved** if `TotalsFit`: there is a result, each position is exactly `received` less
`paid`, and `l.total c` is zero for every currency. Whether or not totals fit, a position of a
result is off by a half at most for each of its `postings`, and there is no result exactly if a
payment `Overflows` after those before it. -/
theorem netPositions_conserve (payments : List Payment) :
    (∀ l, netPositions payments = .ok l →
      l.keys.Nodup ∧
      (∀ account, account ∈ l.keys ↔
        ∃ p ∈ payments, account = p.payeeAccount ∨ account = p.payerAccount) ∧
      ∀ entry ∈ l.entries,
        |entry.2.toRat - (received payments entry.1 - paid payments entry.1)| ≤
          postings payments entry.1 / 2) ∧
    (TotalsFit payments → ∃ l, netPositions payments = .ok l ∧
      (∀ entry ∈ l.entries,
        entry.2.toRat = received payments entry.1 - paid payments entry.1) ∧
      ∀ c, l.total c = 0) ∧
    ∀ e, netPositions payments = .error e ↔ ∃ before p after l, payments = before ++ p :: after ∧
      netPositions before = .ok l ∧ l.Overflows p e.account := by
  have hkeys : ∀ {l}, netPositions payments = .ok l → ∀ account, account ∈ l.keys ↔
      ∃ p ∈ payments, account = p.payeeAccount ∨ account = p.payerAccount := fun h account => by
    rw [Ledger.mem_keys_postAll account h]
    simp [OrderedMap.keys, OrderedMap.empty]
  refine ⟨fun l h => ⟨l.nodup_keys, hkeys h, fun entry hentry => ?_⟩, fun hfits => ?_,
    fun e => Ledger.postAll_eq_error⟩
  · have hnear : Ledger.Near .empty [] := fun account => by
      rw [Ledger.exact_empty account, sub_self, abs_zero]
      positivity
    have hl := Ledger.postAll_near hnear h entry.1
    rwa [List.nil_append, Ledger.position_of_mem_entries hentry] at hl
  · obtain ⟨l, h, hexact⟩ := netPositions_exact hfits
    refine ⟨l, h, fun entry hentry => ?_, fun c => Ledger.total_eq_zero hexact ?_ ?_ c⟩
    · rw [← Ledger.position_of_mem_entries hentry]
      exact hexact entry.1
    · exact fun p hp => (hkeys h _).mpr ⟨p, hp, .inl rfl⟩
    · exact fun p hp => (hkeys h _).mpr ⟨p, hp, .inr rfl⟩

/-- The two legs of a swap, `125.0` one way and `122.75` the other. -/
def twoLegs : List Payment :=
  [⟨⟨"a"⟩, ⟨"b"⟩, ⟨false, 1250, 1, by decide, by decide⟩, .usd⟩,
    ⟨⟨"b"⟩, ⟨"a"⟩, ⟨false, 12275, 2, by decide, by decide⟩, .usd⟩]

theorem twoLegs_conserve : TotalsFit twoLegs ∧ ∃ l, netPositions twoLegs = .ok l ∧
    (∀ entry ∈ l.entries, entry.2.toRat = received twoLegs entry.1 - paid twoLegs entry.1) ∧
    ∀ c, l.total c = 0 := by
  have hfits : TotalsFit twoLegs := by
    apply totalsFit_of_turnover_lt (show 2 ≤ 28 by decide)
    · decide
    · norm_num [twoLegs, turnover, Decimal.abs_toRat, Decimal.tenTo, Decimal.limit]
  exact ⟨hfits, (netPositions_conserve twoLegs).2.1 hfits⟩

/-- `10 ^ 28`, next to which there is no room for a place. -/
def largeAmount : Decimal := .ofNat (Decimal.tenTo 28) (by decide)

/-- One half. -/
def halfAmount : Decimal := ⟨false, 5, 1, by decide, by decide⟩

/-- The party `b` receives `largeAmount` and then `halfAmount`. -/
def largeThenHalf : List Payment :=
  [⟨⟨"a"⟩, ⟨"b"⟩, largeAmount, .usd⟩, ⟨⟨"c"⟩, ⟨"b"⟩, halfAmount, .usd⟩]

/-- The half is lost to the party that receives it, and `l.total` is not zero; there is no error. -/
theorem largeThenHalf_loses : ∃ l, netPositions largeThenHalf = .ok l ∧
    (l.position ⟨⟨"b"⟩, .usd⟩).toRat ≠
      received largeThenHalf ⟨⟨"b"⟩, .usd⟩ - paid largeThenHalf ⟨⟨"b"⟩, .usd⟩ ∧
    l.total .usd ≠ 0 := by
  let entries : List (Account × Decimal) := [(⟨⟨"a"⟩, .usd⟩, largeAmount.neg),
    (⟨⟨"b"⟩, .usd⟩, largeAmount), (⟨⟨"c"⟩, .usd⟩, halfAmount.neg)]
  have hpositions : netPositions largeThenHalf = .ok (.ofList entries) := by decide +kernel
  have hentries : (OrderedMap.ofList entries).entries = entries := by decide +kernel
  have hlarge : largeAmount.toRat = 10 ^ 28 := by
    norm_num [Decimal.toRat, Decimal.unscaled, Decimal.tenTo, largeAmount, Decimal.ofNat]
  have hhalf : halfAmount.toRat = 1 / 2 := by
    norm_num [Decimal.toRat, Decimal.unscaled, Decimal.tenTo, halfAmount]
  refine ⟨_, hpositions, ?_, ?_⟩
  · have hposition : Ledger.position (.ofList entries) ⟨⟨"b"⟩, .usd⟩ = largeAmount := by
      decide +kernel
    have hreceived : received largeThenHalf ⟨⟨"b"⟩, .usd⟩ = 10 ^ 28 + 1 / 2 := by
      simp [received, volume, largeThenHalf, Payment.payeeAccount, hlarge, hhalf]
    have hpaid : paid largeThenHalf ⟨⟨"b"⟩, .usd⟩ = 0 := by
      simp [paid, volume, largeThenHalf, Payment.payerAccount]
    rw [hposition, hlarge, hreceived, hpaid]
    norm_num
  · rw [Ledger.total, hentries]
    norm_num [entries, hlarge, hhalf]

end Covenant
