/-
# Courses of a cancellable swap

A cancellable swap can be built from two accrual dates or more that are strictly
increasing, and from no others. It is then the chain of its accrual periods: as
long as any is left, the first of them can be settled, after it has ended and
over just its own dates, and that leads to the rest, `terms.after (i + 1)`. At
the very start there is one other way, to cancel for the fee, after which
nothing is left.

Key definitions: `SwaptionTerms.legs`, `SwaptionTerms.after`,
`SwaptionTerms.Cancels`.
Key theorems: `SwaptionTerms.build_eq_ok`, `SwaptionTerms.elect_after_eq_ok`,
`SwaptionTerms.runs_settle_or_cancel`.
-/
import Covenant.Proofs.Calendar.Order
import Covenant.Proofs.Run.Recorded
import Covenant.Proofs.Terms.Depth
import Covenant.Proofs.Terms.Legs

namespace Covenant
namespace SwaptionTerms

/-! ### Accrual periods -/

/-- The periods run from each date to the next. -/
theorem getElem?_periods {start finish : Date} : ∀ {dates : List Date} {i : Nat},
    (periods dates)[i]? = some (start, finish) ↔
      dates[i]? = some start ∧ dates[i + 1]? = some finish
  | [], i => by simp [periods]
  | [d], i => by simp [periods]
  | d :: d' :: rest, 0 => by simp [periods]
  | d :: d' :: rest, i + 1 => by
    have hrest := @getElem?_periods start finish (d' :: rest) i
    rw [periods, List.getElem?_cons_succ, hrest]
    rfl

/-- All periods end after they start just if the dates increase. -/
theorem forall_periods_iff : ∀ {dates : List Date},
    (∀ p ∈ periods dates, p.1 < p.2) ↔ dates.Pairwise (· < ·)
  | [] => by simp [periods]
  | [d] => by simp [periods]
  | d :: d' :: rest => by
    rw [periods, List.forall_mem_cons, forall_periods_iff]
    constructor
    · rintro ⟨hfirst, hrest⟩
      refine List.pairwise_cons.mpr ⟨fun x hx => ?_, hrest⟩
      rcases List.mem_cons.mp hx with rfl | hx
      · exact hfirst
      · exact Int.lt_trans hfirst ((List.pairwise_cons.mp hrest).1 x hx)
    · intro h
      exact ⟨(List.pairwise_cons.mp h).1 d' List.mem_cons_self, (List.pairwise_cons.mp h).2⟩

variable {terms : SwaptionTerms}

/-! ### A cancellable swap after some periods -/

/-- What is exchanged for every period, as `Legs`. -/
def legs (terms : SwaptionTerms) : Legs where
  floatingPayer := terms.bank
  fixedPayer := terms.corp
  notional := .var "notional"
  index := "LIBOR"
  floatingDayCount := .act360
  rate := .var "coupon"
  fixedDayCount := terms.fixedDayCount
  currency := terms.currency

theorem exchange_eq (start finish : Date) (continuation : Arrangement) :
    terms.exchange start finish continuation =
      terms.legs.action (.fixed start) (.fixed finish) continuation := rfl

/-- The way out at the start, for `cancellationFee`. -/
def cancel (terms : SwaptionTerms) : Action Arrangement where
  label := "cancel"
  actors := terms.corp.only
  guard := .anytime
  effects := [⟨terms.corp, terms.bank, .const terms.cancellationFee, terms.currency⟩]
  continuation := .zero

/-- An election that cancels: the client makes it, on any day, and pays just the fee. -/
structure Cancels (terms : SwaptionTerms) (e : Election) : Prop where
  label_eq : e.label = "cancel"
  actor_eq : e.actor = terms.corp
  payments_eq : e.payments = [⟨terms.corp, terms.bank, terms.cancellationFee, terms.currency⟩]

theorem cancels_iff {env : Environment} {e : Election} :
    terms.Cancels e ↔ e.label = terms.cancel.label ∧ terms.cancel.guard.holds e.day = true ∧
      terms.cancel.actors.contains e.actor = true ∧
      resolveAll env terms.cancel.effects = .ok e.payments := by
  have heffects : resolveAll env terms.cancel.effects =
      .ok [⟨terms.corp, terms.bank, terms.cancellationFee, terms.currency⟩] := rfl
  rw [heffects, Except.ok.injEq, @eq_comm _ _ e.payments, cancel, Party.contains_only]
  exact ⟨fun h => ⟨h.label_eq, rfl, h.actor_eq, h.payments_eq⟩,
    fun ⟨hlabel, _, hactor, hpayments⟩ => ⟨hlabel, hactor, hpayments⟩⟩

/-- The exchanges of periods, with the way out before the first of them. -/
def cancellable (terms : SwaptionTerms) : List (Date × Date) → Arrangement
  | [] => .zero
  | (start, finish) :: rest =>
    .actions [terms.exchange start finish (terms.exchanges rest), terms.cancel]

/-- What is left after `i` periods: with the way out at `0`, and exchanges only from then on. -/
def after (terms : SwaptionTerms) : Nat → Arrangement
  | 0 => terms.cancellable (periods terms.accrualDates)
  | i + 1 => terms.exchanges ((periods terms.accrualDates).drop (i + 1))

/-! ### Building -/

theorem checkAction_exchange (terms : SwaptionTerms) (start finish : Date)
    (continuation : Arrangement) :
    Scope.topLevel.checkAction (terms.exchange start finish continuation).label
      (terms.exchange start finish continuation).actors
      (terms.exchange start finish continuation).guard
      (terms.exchange start finish continuation).effects = .ok () :=
  @Legs.checkAction_action terms.legs .topLevel (.fixed start) (.fixed finish)
    (fun h => h.elim nofun nofun) ⟨rfl, rfl⟩ ⟨rfl, rfl⟩ continuation

theorem validate_exchanges (terms : SwaptionTerms) :
    ∀ all, (terms.exchanges all).validate = .ok ()
  | [] => rfl
  | (start, finish) :: rest => by
    refine Arrangement.check_actions_eq_ok.mpr ⟨rfl, fun action haction => ?_⟩
    rw [List.mem_singleton.mp haction]
    exact ⟨terms.checkAction_exchange start finish _, terms.validate_exchanges rest⟩

/-- With the way out the exchanges are a contract too. -/
theorem validate_cancellable (terms : SwaptionTerms) :
    ∀ all, (terms.cancellable all).validate = .ok ()
  | [] => rfl
  | (start, finish) :: rest => by
    refine Arrangement.check_actions_eq_ok.mpr ⟨rfl, fun action haction => ?_⟩
    rcases List.mem_pair.mp haction with rfl | rfl
    · exact ⟨terms.checkAction_exchange start finish _, terms.validate_exchanges rest⟩
    · refine ⟨Scope.checkAction_eq_ok.mpr ⟨Party.isEmpty_only _, nofun, fun o ho => ?_⟩, rfl⟩
      rw [List.mem_singleton.mp ho]
      exact Amount.closed_const _

/-- **When a cancellable swap can be built**: from two `accrualDates` or more, if they increase. -/
theorem build_eq_ok {t : Arrangement} : terms.build = .ok t ↔
    (2 ≤ terms.accrualDates.length ∧ terms.accrualDates.Pairwise (· < ·)) ∧
      t = terms.after 0 := by
  have hlength := length_periods terms.accrualDates
  have horder : (periods terms.accrualDates).any (fun p => decide (p.2 ≤ p.1)) = false ↔
      ∀ p ∈ periods terms.accrualDates, p.1 < p.2 := by
    simp only [List.any_eq_false, decide_eq_true_iff, Date.le_iff, Date.lt_iff, Int.not_le]
  rw [← forall_periods_iff, ← horder, after]
  unfold build
  dsimp only
  cases hdecreasing : (periods terms.accrualDates).any (fun p => decide (p.2 ≤ p.1)) with
  | true => simp
  | false =>
    cases hperiods : periods terms.accrualDates with
    | nil =>
      rw [hperiods, List.length_nil] at hlength
      have hfew : ¬2 ≤ terms.accrualDates.length := by omega
      simp [hfew]
    | cons p rest =>
      rw [hperiods, List.length_cons] at hlength
      have hmany : 2 ≤ terms.accrualDates.length := by omega
      have harrange : Arrangement.arrange (terms.cancellable (p :: rest)) =
          .ok (terms.cancellable (p :: rest)) :=
        andThen_eq_ok.mpr ⟨terms.validate_cancellable _, rfl⟩
      refine ⟨fun h => ⟨⟨hmany, rfl⟩, Except.ok.inj (h.symm.trans harrange)⟩, ?_⟩
      rintro ⟨-, rfl⟩
      exact harrange

/-! ### Electing -/

theorem settle_exchanges (terms : SwaptionTerms) (env : Environment) :
    ∀ all, (terms.exchanges all).settle env = .ok (terms.exchanges all)
  | [] => Arrangement.settle_zero env
  | _ :: _ => Arrangement.settle_actions env _

variable {env : Environment} {e : Election} {i : Nat}

/-- What can be elected of the exchanges that are left is to settle the first of them. -/
theorem elect_exchanges_eq_ok :
    (terms.exchanges ((periods terms.accrualDates).drop i)).elect env e.actor e.label e.day =
        .ok e ↔
      (∃ start finish, terms.accrualDates[i]? = some start ∧
        terms.accrualDates[i + 1]? = some finish ∧ terms.legs.Settles env start finish e) ∧
      e.successor = terms.after (i + 1) := by
  simp only [← and_assoc, ← getElem?_periods]
  cases hperiod : (periods terms.accrualDates)[i]? with
  | none =>
    rw [List.drop_eq_nil_of_le (List.getElem?_eq_none_iff.mp hperiod)]
    exact iff_of_false Arrangement.elect_zero_ne_ok fun ⟨⟨_, _, hnone, _⟩, _⟩ => by cases hnone
  | some p =>
    obtain ⟨start, finish⟩ := p
    obtain ⟨hlt, hp⟩ := List.getElem?_eq_some_iff.mp hperiod
    rw [List.drop_eq_getElem_cons hlt, hp, exchanges, exchange_eq, Legs.elect_action_eq_ok,
      settle_exchanges, Except.ok.injEq, @eq_comm _ _ e.successor]
    simp [after]

/-- **What can be elected after some periods** is to settle the next one, by `Settles`, or, at the
very start, to cancel, by `Cancels`. -/
theorem elect_after_eq_ok (hdates : 2 ≤ terms.accrualDates.length) :
    (terms.after i).elect env e.actor e.label e.day = .ok e ↔
      ((∃ start finish, terms.accrualDates[i]? = some start ∧
          terms.accrualDates[i + 1]? = some finish ∧ terms.legs.Settles env start finish e) ∧
        e.successor = terms.after (i + 1)) ∨
      (i = 0 ∧ terms.Cancels e ∧ e.successor = .zero) := by
  cases i with
  | succ i =>
    rw [after, elect_exchanges_eq_ok]
    exact (or_iff_left fun h => nomatch h.1).symm
  | zero =>
    have hexchange := @elect_exchanges_eq_ok terms env e 0
    rw [List.drop_zero] at hexchange
    rw [← hexchange, after]
    cases hperiods : periods terms.accrualDates with
    | nil =>
      have hlength := length_periods terms.accrualDates
      rw [hperiods, List.length_nil] at hlength
      omega
    | cons p rest =>
      have hone : ([terms.exchange p.1 p.2 (terms.exchanges rest)].map Action.label).Nodup :=
        List.nodup_singleton _
      have htwo : ([terms.exchange p.1 p.2 (terms.exchanges rest),
          terms.cancel].map Action.label).Nodup := by simp [exchange, cancel]
      have hzero : terms.cancel.continuation.settle env = .ok e.successor ↔
          e.successor = .zero := by
        rw [cancel, Arrangement.settle_zero, Except.ok.injEq, eq_comm]
      rw [cancellable, exchanges, Arrangement.elect_actions_eq_ok hone,
        Arrangement.elect_actions_eq_ok htwo, @cancels_iff _ env, ← hzero]
      simp only [List.mem_cons, List.not_mem_nil, or_false, or_and_right, exists_or,
        exists_eq_left, true_and, and_assoc]

/-- Nothing is left just if there was an exchange for every period. -/
theorem after_eq_zero_iff (hdates : 2 ≤ terms.accrualDates.length) :
    terms.after i = .zero ↔ terms.accrualDates.length ≤ i + 1 := by
  have hlength := length_periods terms.accrualDates
  cases i with
  | zero =>
    cases hperiods : periods terms.accrualDates with
    | nil =>
      rw [hperiods, List.length_nil] at hlength
      omega
    | cons p rest =>
      rw [after, hperiods]
      exact iff_of_false nofun (by omega)
  | succ i =>
    have hend : terms.accrualDates.length ≤ i + 2 ↔
        (periods terms.accrualDates).drop (i + 1) = [] := by
      rw [List.drop_eq_nil_iff]
      omega
    rw [after, hend]
    cases (periods terms.accrualDates).drop (i + 1) with
    | nil => exact iff_of_true rfl rfl
    | cons p rest => exact iff_of_false nofun (List.cons_ne_nil p rest)

/-! ### Whole runs -/

/-- Election `i` settles the period from date `i` to date `i + 1`, and leads to what is left after
it. -/
def Proceeds (terms : SwaptionTerms) (made : List (Environment × Election)) : Prop :=
  ∀ i env e, made[i]? = some (env, e) →
    (∃ start finish, terms.accrualDates[i]? = some start ∧
      terms.accrualDates[i + 1]? = some finish ∧ terms.legs.Settles env start finish e) ∧
    e.successor = terms.after (i + 1)

/-- All that is elected is to cancel. -/
def CancelsAtOnce (terms : SwaptionTerms) (made : List (Environment × Election)) : Prop :=
  ∃ env e, made = [(env, e)] ∧ terms.Cancels e ∧ e.successor = .zero

theorem Proceeds.length_lt (hdates : 2 ≤ terms.accrualDates.length)
    {made : List (Environment × Election)} (h : terms.Proceeds made) :
    made.length < terms.accrualDates.length := by
  have hle : made.length ≤ terms.accrualDates.length - 1 :=
    length_le_of_forall_getElem? fun i env e hi => by
      obtain ⟨⟨_, _, -, hfinish, -⟩, -⟩ := h i env e hi
      have hlt := (List.getElem?_eq_some_iff.mp hfinish).1
      omega
  omega

/-- To settle a period is not to cancel. -/
theorem Proceeds.not_cancelsAtOnce {made : List (Environment × Election)}
    (h : terms.Proceeds made) : ¬terms.CancelsAtOnce made := by
  rintro ⟨env, e, rfl, hcancels, -⟩
  obtain ⟨⟨_, _, -, -, hsettles⟩, -⟩ := h 0 env e rfl
  exact absurd (hsettles.label_eq.symm.trans hcancels.label_eq) (by decide)

/-- **A cancellable swap is the chain of its periods.** `terms.build` has a contract just if there
are two `accrualDates` or more and they increase. Its runs, as `RunIn` records them, are then just
these: `Proceeds`, some first periods are settled one by one, each after its end, over its own dates
and with both legs; or `CancelsAtOnce`, the client cancels for the fee, on any day. What is left is
`terms.after made.length`, or `zero`; and it is `zero` just after the last period or the
cancellation. -/
theorem runs_settle_or_cancel (terms : SwaptionTerms) :
    ((∃ t, terms.build = .ok t) ↔
      2 ≤ terms.accrualDates.length ∧ terms.accrualDates.Pairwise (· < ·)) ∧
    ∀ t, terms.build = .ok t → ∀ made a,
      (RunIn t made a ↔ (terms.Proceeds made ∧ a = terms.after made.length) ∨
        (terms.CancelsAtOnce made ∧ a = .zero)) ∧
      (RunIn t made a → made.length < terms.accrualDates.length ∧
        (a = .zero ↔ (terms.Proceeds made ∧ made.length + 1 = terms.accrualDates.length) ∨
          terms.CancelsAtOnce made)) := by
  constructor
  · simp only [build_eq_ok, exists_and_left, exists_eq, and_true]
  intro t ht made a
  obtain ⟨⟨hdates, -⟩, rfl⟩ := build_eq_ok.mp ht
  have hruns : RunIn (terms.after 0) made a ↔
      (terms.Proceeds made ∧ a = terms.after made.length) ∨
        (terms.CancelsAtOnce made ∧ a = .zero) := by
    rw [runIn_row_iff fun i env e => @elect_after_eq_ok terms env e i hdates, and_comm]
    simp only [Proceeds, CancelsAtOnce, ← exists_and_right, and_assoc]
  refine ⟨hruns, fun hrun => ?_⟩
  obtain ⟨hproceeds, rfl⟩ | ⟨hcancels, rfl⟩ := hruns.mp hrun
  · have hlt := hproceeds.length_lt hdates
    rw [after_eq_zero_iff hdates, or_iff_left hproceeds.not_cancelsAtOnce]
    exact ⟨hlt, fun hle => ⟨hproceeds, Nat.le_antisymm hlt hle⟩, fun h => Nat.le_of_eq h.2.symm⟩
  · obtain ⟨env, e, rfl, -⟩ := id hcancels
    exact ⟨hdates, iff_of_true rfl (.inr hcancels)⟩

/-- A notional of 36.5 million at a coupon of 1%, and LIBOR at 0.36% from April to July. -/
def secondQuarter : Environment where
  bindings := .ofList [("notional", .literal 36500000 0), ("coupon", .literal 1 2)]
  market := .ofList [(.fixing "LIBOR" (.literal 2015 4 1) (.literal 2015 7 1), .literal 36 4)]

/-- For these 91 days LIBOR comes to 33215 and the coupon to 91000. -/
def secondSettlement : Election :=
  ⟨"proceed", ⟨"acmeCorp"⟩, .literal 2015 7 2,
    [⟨⟨"highStreetBank"⟩, ⟨"acmeCorp"⟩, .literal 332150000 4, .usd⟩,
      ⟨⟨"acmeCorp"⟩, ⟨"highStreetBank"⟩, .literal 9100000 2, .usd⟩],
    standard.after 1⟩

/-- The client pays 10000 at the start. -/
def cancellation : Election :=
  ⟨"cancel", ⟨"acmeCorp"⟩, .literal 2015 1 1,
    [⟨⟨"acmeCorp"⟩, ⟨"highStreetBank"⟩, .literal 10000 0, .usd⟩], .zero⟩

theorem standard_settles_second_quarter : standard.legs.Settles secondQuarter (.literal 2015 4 1)
    (.literal 2015 7 1) secondSettlement := by
  have hfixing : secondQuarter.observe (.fixing "LIBOR" (.literal 2015 4 1) (.literal 2015 7 1)) =
      .ok (.literal 36 4) := by decide
  have hnotional : secondQuarter.lookup "notional" = .ok (.literal 36500000 0) := by decide
  have hcoupon : secondQuarter.lookup "coupon" = .ok (.literal 1 2) := by decide
  exact ⟨rfl, .inr rfl, by decide,
    .intro hnotional hcoupon hfixing (by decide +kernel) (by decide +kernel)⟩

theorem standard_runs_settle_or_cancel : ∃ t, standard.build = .ok t ∧
    RunIn t [(secondQuarter, secondSettlement)] (standard.after 1) ∧ standard.after 1 ≠ .zero ∧
    RunIn t [(⟨.empty, .empty⟩, cancellation)] .zero := by
  obtain ⟨t, hbuild⟩ := standard.runs_settle_or_cancel.1.mpr (by decide)
  have hruns := standard.runs_settle_or_cancel.2 t hbuild
  have hproceeds : standard.Proceeds [(secondQuarter, secondSettlement)] := by
    intro i env e hi
    obtain _ | i := i
    · cases hi
      exact ⟨⟨_, _, rfl, rfl, standard_settles_second_quarter⟩, rfl⟩
    · cases hi
  have hrun := (hruns [(secondQuarter, secondSettlement)] _).1.mpr (.inl ⟨hproceeds, rfl⟩)
  refine ⟨t, hbuild, hrun, fun hzero => ?_, (hruns _ _).1.mpr (.inr ⟨?_, rfl⟩)⟩
  · -- there is a second period to settle
    obtain ⟨-, hall⟩ | hcancels := ((hruns _ _).2 hrun).2.mp hzero
    · cases hall
    · exact hproceeds.not_cancelsAtOnce hcancels
  · exact ⟨_, _, rfl, ⟨rfl, rfl, rfl⟩, rfl⟩

end SwaptionTerms
end Covenant
