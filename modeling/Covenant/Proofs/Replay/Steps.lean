/-
# One step of a replay

A step is looked at for its day and elected, and the rest of the log is replayed
from what it left. So a log succeeds if each of its steps does, and fails as the
first that does not.

Key definitions: `Replay.inOrder`.
Key theorems: `Replay.elections_cons`, `Replay.elections_cons_eq_ok`,
`Replay.elections_of_run_eq_ok`.
-/
import Covenant.Proofs.Except
import Covenant.Replay

namespace Covenant
namespace Replay

variable {options : Options} {env : Environment}

/-- Whether a step comes in the order that is asked for. -/
def inOrder (options : Options) (index : Nat) (last : Option Date) (step : LogStep) :
    Except Failure Unit :=
  if options.requireChronological && goesBack last step.day then .error (.outOfOrder index step.day)
  else .ok ()

theorem inOrder_none (index : Nat) (step : LogStep) : inOrder options index none step = .ok () :=
  if_neg (by simp [goesBack])

/-- A step is checked for its day, then elected. -/
theorem elections_cons (index : Nat) (last : Option Date) (a : Arrangement) (step : LogStep)
    (rest : List LogStep) :
    elections options env index last a (step :: rest) = (do
      inOrder options index last step
      let e ← (a.elect env step.actor step.label step.day).mapError
        (.election index step.actor step.label)
      let r ← elections options env (index + 1) (some step.day) e.successor rest
      return (e :: r.1, r.2)) := by
  rw [elections]
  unfold inOrder
  split
  · rfl
  · cases a.elect env step.actor step.label step.day <;> rfl

theorem inOrder_eq_ok {index : Nat} {last : Option Date} {step : LogStep} :
    inOrder options index last step = .ok () ↔
      (options.requireChronological && goesBack last step.day) = false := by
  unfold inOrder
  split <;> simp_all

/-- A log succeeds if its first step does, and the rest from what that left. -/
theorem elections_cons_eq_ok {index : Nat} {last : Option Date} {a final : Arrangement}
    {step : LogStep} {rest : List LogStep} {made : List Election} :
    elections options env index last a (step :: rest) = .ok (made, final) ↔
      inOrder options index last step = .ok () ∧
      ∃ e later, a.elect env step.actor step.label step.day = .ok e ∧
        elections options env (index + 1) (some step.day) e.successor rest = .ok (later, final) ∧
        made = e :: later := by
  rw [elections_cons, andThen_eq_ok]
  refine and_congr_right fun _ => ⟨fun h => ?_, ?_⟩
  · obtain ⟨e, he, h⟩ := bind_eq_ok.mp h
    obtain ⟨⟨later, left⟩, hlater, h⟩ := bind_eq_ok.mp h
    cases h
    exact ⟨e, later, mapError_eq_ok.mp he, hlater, rfl⟩
  · rintro ⟨e, later, he, hlater, rfl⟩
    exact bind_eq_ok.mpr ⟨e, mapError_eq_ok.mpr he, bind_eq_ok.mpr ⟨_, hlater, rfl⟩⟩

/-- The elections of a replay, and what is left after them, are those of its steps. -/
theorem elections_of_run_eq_ok {t : Arrangement} {steps : List LogStep} {o : Outcome}
    (h : run options env t steps = .ok o) :
    elections options env 0 none t steps = .ok (o.elections, o.final) := by
  obtain ⟨⟨made, final⟩, hmade, h⟩ := bind_eq_ok.mp h
  dsimp only at h
  split at h
  · cases h
  · obtain ⟨positions, -, h⟩ := bind_eq_ok.mp h
    cases h
    exact hmade

end Replay
end Covenant
