/-
# How deep contracts from terms nest

A forward, a swap and a target redemption forward nest as deep as their texts
do, whatever their terms. A cancellable swap holds every exchange inside the one
before it, three levels further down: `3 * terms.accrualDates.length + 5` in
all.

Key theorems: `FxForwardTerms.within_build`, `SwapTerms.within_build`,
`TarfTerms.within_build`, `SwaptionTerms.within_build`.
-/
import Covenant.Proofs.Canonical.Growth
import Covenant.Terms.FxForward
import Covenant.Terms.Swap
import Covenant.Terms.Swaption
import Covenant.Terms.Tarf

namespace Covenant

open Arrangement

/-! ### Forwards -/

theorem FxForwardTerms.within_build {terms : FxForwardTerms} {t : Arrangement}
    (h : terms.build = .ok t) : t.RolloutsWithin 0 ∧ t.toJson.depth ≤ 15 := by
  obtain ⟨-, h⟩ := andThen_eq_ok.mp h
  cases h
  constructor
  · refine .actions fun action haction => ?_
    simp only [List.mem_cons, List.not_mem_nil, or_false] at haction
    rcases haction with rfl | rfl <;> exact .zero
  · simp [deliver, cashSettle, difference, Amount.toJson, ContractDate.toJson, Guard.toJson,
      Observable.toJson]

/-! ### Contracts that are rolled out -/

/-- A rollout whose variables start at constants nests as its body does. -/
theorem depth_rolloutToJson_le {schedule : Schedule} {body : Arrangement}
    (h : ∀ e ∈ schedule.initial.entries, e.2.toJson.depth ≤ 1) :
    (rolloutToJson ⟨schedule, body, 0, schedule.initial⟩).depth ≤ max 3 body.toJson.depth + 1 := by
  have hvalues : Json.itemsDepth (schedule.initial.entries.map fun e => e.2.toJson) ≤ 1 :=
    Json.itemsDepth_map_le_iff.mpr h
  rw [depth_rolloutToJson, Schedule.depth_toJson, Json.depth_ofMap]
  dsimp only
  omega

theorem SwapTerms.depth_body (terms : SwapTerms) : terms.body.toJson.depth = 10 := by
  simp [body, Amount.toJson, Amount.floating, ContractDate.toJson, Guard.toJson, Observable.toJson]

theorem SwapTerms.within_build {terms : SwapTerms} {t : Arrangement} (h : terms.build = .ok t) :
    t.RolloutsWithin 11 ∧ t.toJson.depth ≤ 22 := by
  refine within_rollOut h ?_
  have hrollout := @depth_rolloutToJson_le
    ⟨terms.start, terms.finish, terms.frequency, .empty⟩ terms.body
    fun e he => absurd he List.not_mem_nil
  rw [terms.depth_body] at hrollout
  exact hrollout

theorem TarfTerms.depth_body (terms : TarfTerms) : terms.body.toJson.depth = 24 := by
  simp [body, settlement, payout, Amount.toJson, ContractDate.toJson, Guard.toJson,
    Observable.toJson]

theorem TarfTerms.within_build {terms : TarfTerms} {t : Arrangement} (h : terms.build = .ok t) :
    t.RolloutsWithin 25 ∧ t.toJson.depth ≤ 50 := by
  refine within_rollOut h ?_
  have hrollout := @depth_rolloutToJson_le terms.schedule terms.body fun e he => by
    have hinitial := OrderedMap.mem_of_mem_ofList he
    simp only [List.mem_cons, List.not_mem_nil, or_false] at hinitial
    rcases hinitial with rfl | rfl <;> exact Nat.le_refl 1
  rw [terms.depth_body] at hrollout
  exact hrollout

/-! ### Cancellable swaps -/

namespace SwaptionTerms

theorem length_periods : ∀ dates : List Date, (periods dates).length = dates.length - 1
  | [] => rfl
  | [_] => rfl
  | start :: finish :: rest => by
    rw [periods, List.length_cons, length_periods (finish :: rest)]
    simp

theorem rolloutsWithin_exchanges (terms : SwaptionTerms) (n : Nat) :
    ∀ periods : List (Date × Date), (terms.exchanges periods).RolloutsWithin n
  | [] => .zero
  | (start, finish) :: rest => by
    rw [exchanges]
    refine .actions fun action haction => ?_
    rw [List.mem_singleton.mp haction]
    exact rolloutsWithin_exchanges terms n rest

theorem depth_exchange (terms : SwaptionTerms) (start finish : Date) (continuation : Arrangement) :
    (actionToJson (terms.exchange start finish continuation)).depth =
      max 8 continuation.toJson.depth + 1 := by
  simp only [exchange, Amount.libor, Amount.floating, depth_actionToJson, Guard.toJson,
    ContractDate.toJson, Json.depth_tagged, Date.depth_toJson, List.map_cons, List.map_nil,
    Json.itemsDepth_cons, Json.itemsDepth_nil, Obligation.depth_toJson, Amount.toJson,
    Observable.toJson, Json.depth_object, Json.membersDepth_cons, Json.membersDepth_nil,
    Json.depth_string, DayCount.depth_toJson]
  omega

/-- The exchange of the last period nests eleven deep, any other three deeper than the next:
`3 * periods.length + 8`. -/
theorem depth_exchanges (terms : SwaptionTerms) : ∀ periods : List (Date × Date), periods ≠ [] →
    (terms.exchanges periods).toJson.depth = 3 * periods.length + 8
  | [], h => absurd rfl h
  | [(start, finish)], _ => by
    rw [exchanges, exchanges, depth_actions, List.map_singleton, Json.itemsDepth_cons,
      depth_exchange]
    rfl
  | (start, finish) :: second :: rest, _ => by
    have hrest := depth_exchanges terms (second :: rest) (List.cons_ne_nil _ _)
    rw [exchanges, depth_actions, List.map_singleton, Json.itemsDepth_cons, depth_exchange, hrest]
    simp only [Json.itemsDepth_nil, List.length_cons]
    omega

/-- A cancellable swap nests three levels for each of its dates, and five more. -/
theorem within_build {terms : SwaptionTerms} {t : Arrangement} (h : terms.build = .ok t) :
    t.RolloutsWithin 0 ∧ t.toJson.depth = 3 * terms.accrualDates.length + 5 := by
  have hlength := length_periods terms.accrualDates
  unfold build at h
  dsimp only at h
  split at h
  · cases h
  split at h
  · cases h
  rename_i start finish rest hperiods
  obtain ⟨-, h⟩ := andThen_eq_ok.mp h
  cases h
  rw [hperiods, List.length_cons] at hlength
  constructor
  · refine .actions fun action haction => ?_
    simp only [List.mem_cons, List.not_mem_nil, or_false] at haction
    rcases haction with rfl | rfl
    · exact terms.rolloutsWithin_exchanges 0 rest
    · exact .zero
  · have hexchanges := terms.depth_exchanges ((start, finish) :: rest) (List.cons_ne_nil _ _)
    rw [exchanges, depth_actions, List.map_singleton, Json.itemsDepth_cons, Json.itemsDepth_nil,
      List.length_cons, depth_exchange] at hexchanges
    rw [depth_actions, List.map_cons, Json.itemsDepth_cons, depth_exchange]
    simp [Amount.toJson, Guard.toJson]
    omega

end SwaptionTerms
end Covenant
