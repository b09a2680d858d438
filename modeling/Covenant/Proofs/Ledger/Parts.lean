/-
# Netting in any order and in parts

What is left to an account, `net payments account`, does not depend on the order
of the payments, and what is left over several lots of payments is the sum of
what is left over each. Positions are that exactly as long as there is room for
every total, and there is, in whatever order and in whatever lots, if there is
room for all payments together. So a list of payments can be netted in any
order, or split, netted in parts and merged, and the positions are the same.

Key definitions: `WithinLimit`, `Ledger.merge`, `Ledger.NetsOf`.
Key theorems: `Ledger.NetsOf.agrees`, `Ledger.NetsOf.merge`, `WithinLimit.netsOf`,
`netPositions_any_order`.
-/
import Covenant.Proofs.Decimal.Agreement
import Covenant.Proofs.Ledger

namespace Covenant

open Decimal (IsDecimal)

/-! ### What payments move, in any order -/

section

variable {payments payments' : List Payment} (account : Account)

theorem volume_perm (side : Payment → Account) (h : payments.Perm payments') :
    volume side payments account = volume side payments' account :=
  ((h.filter _).map _).sum_eq

theorem net_perm (h : payments.Perm payments') : net payments account = net payments' account := by
  unfold net received paid
  rw [volume_perm account _ h, volume_perm account _ h]

theorem net_append (payments payments' : List Payment) :
    net (payments ++ payments') account = net payments account + net payments' account := by
  unfold net received paid
  rw [volume_append, volume_append]
  ring

theorem turnover_perm (h : payments.Perm payments') : turnover payments = turnover payments' :=
  (h.map _).sum_eq

end

/-- No amount has more than `s` places, and the `turnover` in units of the last of these is below
the limit. -/
structure WithinLimit (s : Nat) (payments : List Payment) : Prop where
  scale_le : ∀ p ∈ payments, p.amount.scale ≤ s
  turnover_lt : turnover payments * Decimal.tenTo s < Decimal.limit

namespace WithinLimit

variable {s : Nat} {payments payments' : List Payment}

theorem perm (h : WithinLimit s payments) (hperm : payments.Perm payments') :
    WithinLimit s payments' :=
  ⟨fun p hp => h.scale_le p (hperm.mem_iff.mpr hp), turnover_perm hperm ▸ h.turnover_lt⟩

theorem left (h : WithinLimit s (payments ++ payments')) : WithinLimit s payments := by
  refine ⟨fun p hp => h.scale_le p (List.mem_append_left _ hp), lt_of_le_of_lt ?_ h.turnover_lt⟩
  refine mul_le_mul_of_nonneg_right ?_ (Decimal.cast_tenTo_pos s).le
  rw [turnover_append]
  exact le_add_of_nonneg_right (turnover_nonneg payments')

theorem right (h : WithinLimit s (payments ++ payments')) : WithinLimit s payments' :=
  (h.perm List.perm_append_comm).left

/-- `net payments account` can be written. -/
theorem isDecimal_net (h : WithinLimit s payments) (hs : s ≤ 28) (account : Account) :
    IsDecimal (net payments account) := by
  obtain ⟨k, hk⟩ := exists_net_mul_tenTo account h.scale_le
  refine Decimal.isDecimal_of_mul_tenTo hk (lt_of_le_of_lt ?_ h.turnover_lt) hs
  exact mul_le_mul_of_nonneg_right (abs_net_le account payments) (Decimal.cast_tenTo_pos s).le

end WithinLimit

namespace Ledger

variable {l l' : Ledger} {payments payments' : List Payment}

/-! ### Ledgers that agree -/

theorem position_of_not_mem_keys {account : Account} (h : account ∉ l.keys) :
    position l account = .zero := by
  rw [position, OrderedMap.get?_of_not_mem_keys h, Option.getD_none]

/-- Ledgers of the same accounts with equal positions agree: `l.agrees l' = true`. -/
theorem agrees_of_position (hkeys : ∀ account, account ∈ l.keys ↔ account ∈ l'.keys)
    (hposition : ∀ account, (position l account).toRat = (position l' account).toRat) :
    l.agrees l' = true := by
  rw [OrderedMap.agrees_iff, ← OrderedMap.mapValues_eq_iff]
  refine OrderedMap.eq_of_get?_eq fun account => ?_
  rw [OrderedMap.get?_mapValues, OrderedMap.get?_mapValues]
  have hvalue := hposition account
  unfold position at hvalue
  by_cases hmem : account ∈ l.keys
  · obtain ⟨x, hx⟩ := OrderedMap.get?_of_mem_keys hmem
    obtain ⟨y, hy⟩ := OrderedMap.get?_of_mem_keys ((hkeys account).mp hmem)
    rw [hx, hy] at hvalue ⊢
    exact congrArg some hvalue
  · rw [OrderedMap.get?_of_not_mem_keys hmem,
      OrderedMap.get?_of_not_mem_keys (mt (hkeys account).mpr hmem)]

/-- The ledger has an entry for each account that a payment names, and it is just
`net payments account`. -/
structure NetsOf (l : Ledger) (payments : List Payment) : Prop where
  mem_keys_iff : ∀ account, account ∈ l.keys ↔
    ∃ p ∈ payments, account = p.payeeAccount ∨ account = p.payerAccount
  exact : l.Exact payments

/-- The same payments come to the same ledger, in whatever order. -/
theorem NetsOf.agrees (h : l.NetsOf payments) (h' : l'.NetsOf payments')
    (hperm : payments.Perm payments') : l.agrees l' = true := by
  refine agrees_of_position (fun account => ?_) fun account => ?_
  · rw [h.mem_keys_iff, h'.mem_keys_iff]
    exact exists_congr fun p => and_congr_left fun _ => hperm.mem_iff
  · rw [h.exact, h'.exact, net_perm account hperm]

/-! ### Ledgers that are merged -/

/-- The ledger with entries added to its positions, one after another, each by `update`. -/
def addAll (l : Ledger) : List (Account × Decimal) → Except PositionOverflow Ledger
  | [] => .ok l
  | entry :: rest => do
    let l ← update l entry.1 ((position l entry.1).add entry.2)
    addAll l rest

/-- Two ledgers added key by key; an account that one of them does not have is zero in it. -/
def merge (l l' : Ledger) : Except PositionOverflow Ledger := l.addAll l'.entries

/-- Entries of different accounts are added exactly if each sum can be written. -/
theorem addAll_exact (added : Account → ℚ) : ∀ {entries : List (Account × Decimal)} {l : Ledger},
    (entries.map Prod.fst).Nodup →
    (∀ entry ∈ entries, entry.2.toRat = added entry.1 ∧
      IsDecimal ((position l entry.1).toRat + added entry.1)) →
    ∃ m, l.addAll entries = .ok m ∧
      (∀ account, account ∈ m.keys ↔ account ∈ l.keys ∨ account ∈ entries.map Prod.fst) ∧
      ∀ account, (position m account).toRat = (position l account).toRat +
        if account ∈ entries.map Prod.fst then added account else 0
  | [], l, _, _ => ⟨l, rfl, by simp, by simp⟩
  | entry :: rest, l, hnodup, hentries => by
    rw [List.map_cons, List.nodup_cons] at hnodup
    obtain ⟨hvalue, hsum⟩ := hentries entry List.mem_cons_self
    rw [← hvalue] at hsum
    obtain ⟨x, hx, hxvalue⟩ := Option.map_eq_some_iff.mp (Decimal.add_exact hsum)
    -- the sums of the other entries are still to be made
    have hrest : ∀ e ∈ rest, e.2.toRat = added e.1 ∧
        IsDecimal ((position (l.insert entry.1 x) e.1).toRat + added e.1) := fun e he => by
      have hne : e.1 ≠ entry.1 := fun heq => hnodup.1 (heq ▸ List.mem_map_of_mem he)
      rw [position_insert, if_neg hne]
      exact hentries e (List.mem_cons_of_mem _ he)
    obtain ⟨m, hm, hkeys, hposition⟩ := addAll_exact added hnodup.2 hrest
    refine ⟨m, bind_eq_ok.mpr ⟨l.insert entry.1 x, by rw [hx]; rfl, hm⟩, fun account => ?_,
      fun account => ?_⟩
    · rw [hkeys, OrderedMap.mem_keys_insert, List.map_cons, List.mem_cons]
      tauto
    · rw [hposition, position_insert, List.map_cons]
      by_cases haccount : account = entry.1
      · subst haccount
        rw [if_pos rfl, if_neg hnodup.1, if_pos List.mem_cons_self, hxvalue, hvalue, add_zero]
      · rw [if_neg haccount]
        simp only [List.mem_cons, haccount, false_or]

/-- **Ledgers are merged exactly** by `merge` if each sum of positions can be written. -/
theorem merge_exact (h : ∀ account,
      IsDecimal ((position l account).toRat + (position l' account).toRat)) :
    ∃ m, l.merge l' = .ok m ∧
      (∀ account, account ∈ m.keys ↔ account ∈ l.keys ∨ account ∈ l'.keys) ∧
      ∀ account, (position m account).toRat =
        (position l account).toRat + (position l' account).toRat := by
  obtain ⟨m, hm, hkeys, hposition⟩ := addAll_exact (fun account => (position l' account).toRat)
    l'.nodup_keys fun entry hentry => ⟨by rw [position_of_mem_entries hentry], h entry.1⟩
  refine ⟨m, hm, hkeys, fun account => ?_⟩
  rw [hposition]
  split
  · rfl
  · rename_i hmem
    rw [position_of_not_mem_keys hmem, Decimal.toRat_zero]

/-- Ledgers of two lots of payments are merged to one of both: to what `NetsOf` says of
`payments ++ payments'`. -/
theorem NetsOf.merge (h : l.NetsOf payments) (h' : l'.NetsOf payments')
    (hfits : ∀ account, IsDecimal (net (payments ++ payments') account)) :
    ∃ m, l.merge l' = .ok m ∧ m.NetsOf (payments ++ payments') := by
  have hsums : ∀ account, IsDecimal ((position l account).toRat + (position l' account).toRat) := by
    intro account
    rw [h.exact, h'.exact, ← net_append]
    exact hfits account
  obtain ⟨m, hm, hkeys, hposition⟩ := merge_exact hsums
  refine ⟨m, hm, fun account => ?_, fun account => ?_⟩
  · rw [hkeys, h.mem_keys_iff, h'.mem_keys_iff]
    simp only [List.mem_append, or_and_right, exists_or]
  · rw [hposition, h.exact, h'.exact, net_append]

end Ledger

/-! ### Net positions -/

/-- Payments that stay below the limit all together have `netPositions`, and these are exact. -/
theorem WithinLimit.netsOf {s : Nat} {payments : List Payment} (h : WithinLimit s payments)
    (hs : s ≤ 28) : ∃ l, netPositions payments = .ok l ∧ l.NetsOf payments := by
  obtain ⟨l, hl, hexact⟩ :=
    netPositions_exact (totalsFit_of_turnover_lt hs h.scale_le h.turnover_lt)
  refine ⟨l, hl, fun account => ?_, hexact⟩
  rw [Ledger.mem_keys_postAll account hl]
  simp [OrderedMap.keys, OrderedMap.empty]

/-- **Netting does not depend on the order of payments.** If the payments stay below the limit all
together, counted in units of a place at which every amount has ended, `netPositions payments` is a
ledger `l` of exactly the accounts they name with what is left to each, `net payments account`. In
every other order they have the same accounts with equal positions, and however they are split in
two lots, these have net positions that `Ledger.merge` adds key by key to the same. -/
theorem netPositions_any_order {payments : List Payment} {s : Nat} (hs : s ≤ 28)
    (hscale : ∀ p ∈ payments, p.amount.scale ≤ s)
    (hsum : turnover payments * Decimal.tenTo s < Decimal.limit) :
    ∃ l, netPositions payments = .ok l ∧ l.NetsOf payments ∧
      (∀ payments', payments'.Perm payments →
        ∃ l', netPositions payments' = .ok l' ∧ l'.agrees l = true) ∧
      ∀ first second, (first ++ second).Perm payments →
        ∃ l₁ l₂ m, netPositions first = .ok l₁ ∧ netPositions second = .ok l₂ ∧
          l₁.merge l₂ = .ok m ∧ m.agrees l = true := by
  have hlimit : WithinLimit s payments := ⟨hscale, hsum⟩
  obtain ⟨l, hl, hnets⟩ := hlimit.netsOf hs
  refine ⟨l, hl, hnets, fun payments' hperm => ?_, fun first second hperm => ?_⟩
  · obtain ⟨l', hl', hnets'⟩ := (hlimit.perm hperm.symm).netsOf hs
    exact ⟨l', hl', hnets'.agrees hnets hperm⟩
  · have hboth := hlimit.perm hperm.symm
    obtain ⟨l₁, h₁, hnets₁⟩ := hboth.left.netsOf hs
    obtain ⟨l₂, h₂, hnets₂⟩ := hboth.right.netsOf hs
    obtain ⟨m, hm, hmerged⟩ := hnets₁.merge hnets₂ (hboth.isDecimal_net hs)
    exact ⟨l₁, l₂, m, h₁, h₂, hm, hmerged.agrees hnets hperm⟩

/-- The two legs of a swap may be netted each on its own. -/
theorem twoLegs_apart :
    (∀ p ∈ twoLegs, p.amount.scale ≤ 2) ∧
      turnover twoLegs * Decimal.tenTo 2 < Decimal.limit ∧
      ∃ l, netPositions twoLegs = .ok l ∧ l.NetsOf twoLegs ∧
        ∃ l₁ l₂ m, netPositions (twoLegs.drop 1) = .ok l₁ ∧ netPositions (twoLegs.take 1) = .ok l₂ ∧
          l₁.merge l₂ = .ok m ∧ m.agrees l = true := by
  have hscale : ∀ p ∈ twoLegs, p.amount.scale ≤ 2 := by decide
  have hsum : turnover twoLegs * Decimal.tenTo 2 < Decimal.limit := by
    norm_num [twoLegs, turnover, Decimal.abs_toRat, Decimal.tenTo, Decimal.limit]
  obtain ⟨l, hl, hnets, -, hparts⟩ := netPositions_any_order (by decide) hscale hsum
  exact ⟨hscale, hsum, l, hl, hnets, hparts _ _ (.swap _ _ _)⟩

end Covenant
