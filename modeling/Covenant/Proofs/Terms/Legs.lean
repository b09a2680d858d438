/-
# The two legs of a swap

A swap, cancellable or not, exchanges two legs for each of its periods: interest
on the notional at the fixing of an index over the period, and interest on the
same notional at a rate that is agreed. Either party may elect the exchange once
the period has ended, and pays nothing but its leg.

Key definitions: `Legs`, `Legs.Pays`, `Legs.Settles`.
Key theorems: `Legs.resolveAll_effects`, `Legs.elect_action_eq_ok`,
`Legs.checkAction_action`.
-/
import Covenant.Proofs.Amount.Interest
import Covenant.Proofs.Arrangement.Settling
import Covenant.Proofs.Election
import Covenant.Proofs.Party

namespace Covenant

/-! ### Legs -/

/-- What two parties pay one another for a period: the one a floating rate on the `notional`, the
other an agreed `rate`. -/
structure Legs where
  floatingPayer : Party
  fixedPayer : Party
  notional : Amount
  index : String
  floatingDayCount : DayCount
  rate : Amount
  fixedDayCount : DayCount
  currency : Currency

namespace Legs

/-- What the legs oblige to between `start` and `finish`, the floating leg first. -/
def effects (legs : Legs) (start finish : ContractDate) : List Obligation :=
  [⟨legs.floatingPayer, legs.fixedPayer,
      .floating legs.notional legs.floatingDayCount legs.index start finish, legs.currency⟩,
    ⟨legs.fixedPayer, legs.floatingPayer,
      .interest legs.notional legs.rate legs.fixedDayCount start finish, legs.currency⟩]

/-- The exchange of the legs over a period, and the `continuation` after it. -/
def action (legs : Legs) (start finish : ContractDate) (continuation : Arrangement) :
    Action Arrangement where
  label := "proceed"
  actors := legs.floatingPayer.or legs.fixedPayer
  guard := .after finish
  effects := legs.effects start finish
  continuation := continuation

/-- What the legs pay over a period: on the notional first the interest at the fixing of the index
over just this period, and then, the other way, the interest at the agreed rate. -/
inductive Pays (legs : Legs) (env : Environment) (start finish : Date) : List Payment → Prop where
  | intro {notional rate fixing floating fixed : Decimal} :
      legs.notional.value env = .ok notional → legs.rate.value env = .ok rate →
      env.observe (.fixing legs.index start finish) = .ok fixing →
      legs.floatingDayCount.interest notional fixing start finish = .ok floating →
      legs.fixedDayCount.interest notional rate start finish = .ok fixed →
      Pays legs env start finish
        [⟨legs.floatingPayer, legs.fixedPayer, floating, legs.currency⟩,
          ⟨legs.fixedPayer, legs.floatingPayer, fixed, legs.currency⟩]

/-- An election that settles a period: either party makes it after the period has ended. -/
structure Settles (legs : Legs) (env : Environment) (start finish : Date) (e : Election) :
    Prop where
  label_eq : e.label = "proceed"
  actor_eq : e.actor = legs.floatingPayer ∨ e.actor = legs.fixedPayer
  finish_lt : finish < e.day
  pays : legs.Pays env start finish e.payments

variable {legs : Legs} {env : Environment} {start finish : Date} {e : Election}

/-- What is paid for the fixed leg is its interest. -/
theorem Pays.exists_fixed {payments : List Payment} (h : legs.Pays env start finish payments) :
    ∃ notional rate fixed, legs.notional.value env = .ok notional ∧ legs.rate.value env = .ok rate ∧
      legs.fixedDayCount.interest notional rate start finish = .ok fixed := by
  obtain ⟨hnotional, hrate, -, -, hfixed⟩ := h
  exact ⟨_, _, _, hnotional, hrate, hfixed⟩

/-- **The effects of an exchange are its legs**: `resolveAll` has values for them just if both legs
have, and these are what `Pays` says. -/
theorem resolveAll_effects {payments : List Payment} :
    resolveAll env (legs.effects (.fixed start) (.fixed finish)) = .ok payments ↔
      legs.Pays env start finish payments := by
  rw [effects, resolveAll_pair_eq_ok]
  dsimp only
  simp only [Amount.value_floating_eq_ok, Amount.value_interest_eq_ok]
  constructor
  · rintro ⟨_, _, ⟨_, _, hnotional, hfixing, hfloating⟩, ⟨_, _, hsame, hrate, hfixed⟩, rfl⟩
    cases hnotional.symm.trans hsame
    exact .intro hnotional hrate hfixing hfloating hfixed
  · rintro ⟨hnotional, hrate, hfixing, hfloating, hfixed⟩
    exact ⟨_, _, ⟨_, _, hnotional, hfixing, hfloating⟩, ⟨_, _, hnotional, hrate, hfixed⟩, rfl⟩

/-- An election is one of the exchange just if it `Settles` the period. -/
theorem settles_iff {continuation : Arrangement} :
    legs.Settles env start finish e ↔
      e.label = (legs.action (.fixed start) (.fixed finish) continuation).label ∧
      (legs.action (.fixed start) (.fixed finish) continuation).guard.holds e.day = true ∧
      (legs.action (.fixed start) (.fixed finish) continuation).actors.contains e.actor = true ∧
      resolveAll env (legs.action (.fixed start) (.fixed finish) continuation).effects =
        .ok e.payments := by
  unfold action
  rw [resolveAll_effects, Party.contains_or, Guard.holds, ContractDate.date?, Option.any_some,
    decide_eq_true_iff]
  exact ⟨fun h => ⟨h.label_eq, h.finish_lt, h.actor_eq, h.pays⟩,
    fun ⟨hlabel, hday, hactor, hpays⟩ => ⟨hlabel, hactor, hday, hpays⟩⟩

/-- **What can be elected of an exchange** is to settle its period, `Settles`, and it leads on. -/
theorem elect_action_eq_ok {continuation : Arrangement} :
    (Arrangement.actions [legs.action (.fixed start) (.fixed finish) continuation]).elect env
        e.actor e.label e.day = .ok e ↔
      legs.Settles env start finish e ∧ continuation.settle env = .ok e.successor := by
  have hlabels : ([legs.action (.fixed start) (.fixed finish) continuation].map
      Action.label).Nodup := List.nodup_singleton _
  rw [Arrangement.elect_actions_eq_ok hlabels, @settles_iff _ _ _ _ _ continuation]
  simp only [List.mem_singleton, exists_eq_left, and_assoc]
  rfl

/-- An exchange passes its checks wherever its dates and amounts are available. -/
theorem checkAction_action {scope : Scope} {start finish : ContractDate}
    (hdates : start.ofPeriod = true ∨ finish.ofPeriod = true → scope.hasPeriod = true)
    (hnotional : scope.Admits legs.notional) (hrate : scope.Admits legs.rate)
    (continuation : Arrangement) :
    scope.checkAction (legs.action start finish continuation).label
      (legs.action start finish continuation).actors (legs.action start finish continuation).guard
      (legs.action start finish continuation).effects = .ok () := by
  refine Scope.checkAction_eq_ok.mpr
    ⟨Party.isEmpty_or _ _, fun h => hdates (.inr h), fun o ho => ?_⟩
  cases scope with
  | topLevel =>
    have hstart : start.ofPeriod = false :=
      Bool.eq_false_iff.mpr fun h => Bool.false_ne_true (hdates (.inl h))
    have hfinish : finish.ofPeriod = false :=
      Bool.eq_false_iff.mpr fun h => Bool.false_ne_true (hdates (.inr h))
    have hfixing : (Observable.fixing legs.index start finish).ofPeriod = false := by
      simp [Observable.ofPeriod, Observable.dates, hstart, hfinish]
    rcases List.mem_pair.mp ho with rfl | rfl
    · exact Amount.closed_interest.mpr
        ⟨hnotional, Amount.closed_observe.mpr hfixing, hstart, hfinish⟩
    · exact Amount.closed_interest.mpr ⟨hnotional, hrate, hstart, hfinish⟩
  | rollout declared =>
    intro name hname
    rcases List.mem_pair.mp ho with rfl | rfl
    · exact (List.mem_append.mp hname).elim (hnotional name) fun h => absurd h List.not_mem_nil
    · exact (List.mem_append.mp hname).elim (hnotional name) (hrate name)

end Legs
end Covenant
