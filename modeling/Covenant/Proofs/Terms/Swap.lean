/-
# Courses of a swap

A swap goes through the periods of its schedule in order, `terms.inPeriod i`. In
each of them all that can be elected is to settle it, after it has ended and
over just its own dates, and that leads to the next period; after the last one
nothing is left. So a run with as many elections as there are periods settles
each of them once, and there is no longer one.

Key definitions: `SwapTerms.legs`, `SwapTerms.inPeriod`.
Key theorems: `SwapTerms.elect_inPeriod_eq_ok`, `SwapTerms.periods_settled`.
-/
import Covenant.Proofs.Arrangement.Basic
import Covenant.Proofs.Run.Recorded
import Covenant.Proofs.Schedule.Partition
import Covenant.Proofs.Terms.Legs
import Covenant.Terms.Swap

namespace Covenant
namespace SwapTerms

/-! ### A swap in a period -/

/-- What a swap is rolled out over. -/
def schedule (terms : SwapTerms) : Schedule :=
  ⟨terms.start, terms.finish, terms.frequency, .empty⟩

/-- What is exchanged for every period, as `Legs`. -/
def legs (terms : SwapTerms) : Legs where
  floatingPayer := terms.floatingPayer
  fixedPayer := terms.fixedPayer
  notional := .const terms.notional
  index := terms.floatingIndex
  floatingDayCount := terms.floatingDayCount
  rate := .const terms.fixedRate
  fixedDayCount := terms.fixedDayCount
  currency := terms.currency

/-- The rollout of `terms.body` at the period `i`. -/
def rolloutAt (terms : SwapTerms) (i : Nat) : Rollout Arrangement :=
  ⟨terms.schedule, terms.body, i, .empty⟩

/-- What is left of the swap in the period `i`; `zero` after the last one. -/
def inPeriod (terms : SwapTerms) (i : Nat) : Arrangement := (terms.rolloutAt i).instantiate

variable {terms : SwapTerms} {i : Nat} {p : Period}

theorem inPeriod_of_period (h : terms.schedule.period? i = some p) :
    terms.inPeriod i = .actions [terms.legs.action (.fixed p.start) (.fixed p.finish)
      (.resume ⟨terms.rolloutAt i, []⟩)] := by
  rw [inPeriod, Rollout.instantiate_of_period h]
  refine (Arrangement.bind_actions _ _ _).trans ?_
  rfl

theorem inPeriod_of_none (h : terms.schedule.period? i = none) : terms.inPeriod i = .zero := by
  unfold inPeriod rolloutAt Rollout.instantiate
  dsimp only
  rw [h]

/-- Nothing is left of a swap just if it is past its periods. -/
theorem inPeriod_eq_zero_iff : terms.inPeriod i = .zero ↔ terms.schedule.periodCount ≤ i := by
  rw [← Nat.not_lt, ← Schedule.isSome_period?_iff_lt]
  cases h : terms.schedule.period? i with
  | none => simp [inPeriod_of_none h]
  | some p => simp [inPeriod_of_period h]

/-- The swap goes on to the next period in every environment, as there is nothing to value. -/
theorem settle_resume_rolloutAt (terms : SwapTerms) (i : Nat) (env : Environment) :
    (Arrangement.resume ⟨terms.rolloutAt i, []⟩).settle env = .ok (terms.inPeriod (i + 1)) :=
  Arrangement.settle_resume_nil rfl env

/-- **What can be elected in a period** is to settle it, and it leads to `inPeriod (i + 1)`. -/
theorem elect_inPeriod_eq_ok {env : Environment} {e : Election} :
    (terms.inPeriod i).elect env e.actor e.label e.day = .ok e ↔
      (∃ p, terms.schedule.periods[i]? = some p ∧ terms.legs.Settles env p.start p.finish e) ∧
        e.successor = terms.inPeriod (i + 1) := by
  rw [Schedule.getElem?_periods]
  cases h : terms.schedule.period? i with
  | none =>
    rw [inPeriod_of_none h]
    exact iff_of_false Arrangement.elect_zero_ne_ok fun ⟨⟨_, hnone, _⟩, _⟩ => by cases hnone
  | some p =>
    rw [inPeriod_of_period h, Legs.elect_action_eq_ok, settle_resume_rolloutAt]
    simp [eq_comm]

/-! ### Whole runs -/

theorem build_eq_ok {t : Arrangement} :
    terms.build = .ok t ↔ terms.schedule.check = .ok () ∧ t = terms.inPeriod 0 := by
  have hbody : terms.body.check (.rollout []) = .ok () := by
    have hnotional : (Scope.rollout []).Admits terms.legs.notional := nofun
    have hrate : (Scope.rollout []).Admits terms.legs.rate := nofun
    refine Arrangement.check_actions_eq_ok.mpr ⟨rfl, fun action haction => ?_⟩
    rw [List.mem_singleton.mp haction]
    exact ⟨Legs.checkAction_action (fun _ => rfl) hnotional hrate _, rfl⟩
  constructor
  · intro h
    obtain ⟨hschedule, -, rfl⟩ := Arrangement.rollOut_eq_ok h
    exact ⟨hschedule, rfl⟩
  · rintro ⟨hschedule, rfl⟩
    exact andThen_eq_ok.mpr ⟨hschedule, andThen_eq_ok.mpr ⟨hbody, rfl⟩⟩

/-- **A swap settles its periods one by one.** If its schedule passes `check`, `terms.build` has a
contract, and its runs, as `RunIn` records them, are just these: election `i` settles the period at
`i` in `schedule.periods`, after the end of that period, over its dates and with both legs of it,
`terms.legs.Settles`, whatever the market is, and leads to `inPeriod (i + 1)`. There are no more
elections than periods, and nothing is left just if there were as many. -/
theorem periods_settled (terms : SwapTerms) (hschedule : terms.schedule.check = .ok ()) :
    ∃ t, terms.build = .ok t ∧ ∀ made a,
      (RunIn t made a ↔ a = terms.inPeriod made.length ∧
        ∀ i env e, made[i]? = some (env, e) →
          (∃ p, terms.schedule.periods[i]? = some p ∧
            terms.legs.Settles env p.start p.finish e) ∧
          e.successor = terms.inPeriod (i + 1)) ∧
      (RunIn t made a → made.length ≤ terms.schedule.periods.length ∧
        (a = .zero ↔ made.length = terms.schedule.periods.length)) := by
  refine ⟨_, build_eq_ok.mpr ⟨hschedule, rfl⟩, fun made a => ?_⟩
  have hruns := @runIn_line_iff _ _ made a fun i env e => @elect_inPeriod_eq_ok terms i env e
  refine ⟨hruns, fun hrun => ?_⟩
  obtain ⟨rfl, hmade⟩ := hruns.mp hrun
  have hle : made.length ≤ terms.schedule.periods.length :=
    length_le_of_forall_getElem? fun i env e hi => by
      obtain ⟨⟨p, hp, -⟩, -⟩ := hmade i env e hi
      exact (List.getElem?_eq_some_iff.mp hp).1
  refine ⟨hle, inPeriod_eq_zero_iff.trans ⟨fun hge => ?_, fun h => ?_⟩⟩
  · exact Nat.le_antisymm hle hge
  · exact Nat.le_of_eq h.symm

/-- The index stood at 0.36% from January to April. -/
def firstQuarter : Environment where
  bindings := .empty
  market := .ofList [(.fixing "LIBOR" (.literal 2015 1 1) (.literal 2015 4 1), .literal 36 4)]

/-- On ten million this is 9000 for 90 days, and 1.5% is 37500. -/
def firstSettlement : Election :=
  ⟨"proceed", ⟨"acmeCorp"⟩, .literal 2015 4 2,
    [⟨⟨"highStreetBank"⟩, ⟨"acmeCorp"⟩, .literal 90000000 4, .usd⟩,
      ⟨⟨"acmeCorp"⟩, ⟨"highStreetBank"⟩, .literal 37500000 3, .usd⟩],
    standard.inPeriod 1⟩

theorem standard_settles : standard.legs.Settles firstQuarter (.literal 2015 1 1)
    (.literal 2015 4 1) firstSettlement := by
  have hfixing : firstQuarter.observe (.fixing "LIBOR" (.literal 2015 1 1) (.literal 2015 4 1)) =
      .ok (.literal 36 4) := by decide
  exact ⟨rfl, .inr rfl, by decide, .intro rfl rfl hfixing (by decide +kernel) (by decide +kernel)⟩

theorem standard_periods_settled : standard.schedule.check = .ok () ∧
    standard.schedule.periods.length = 4 ∧ ∃ t, standard.build = .ok t ∧
      RunIn t [(firstQuarter, firstSettlement)] (standard.inPeriod 1) ∧
      standard.inPeriod 1 ≠ .zero := by
  have hschedule : standard.schedule.check = .ok () := rfl
  have hperiods : standard.schedule.periods.length = 4 := by decide
  obtain ⟨t, hbuild, hruns⟩ := standard.periods_settled hschedule
  have hrun : RunIn t [(firstQuarter, firstSettlement)] (standard.inPeriod 1) :=
    (hruns _ _).1.mpr ⟨rfl, fun i env e hi => by
      obtain _ | i := i
      · cases hi
        exact ⟨⟨⟨0, .literal 2015 1 1, .literal 2015 4 1⟩, by decide, standard_settles⟩, rfl⟩
      · cases hi⟩
  refine ⟨hschedule, hperiods, t, hbuild, hrun, fun hzero => ?_⟩
  have hall := ((hruns _ _).2 hrun).2.mp hzero
  rw [hperiods] at hall
  cases hall

end SwapTerms
end Covenant
