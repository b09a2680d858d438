/-
# Every contract ends

How many elections a run can have is bounded by its tree alone, by `t.longest`.
A directive re-creates the whole body of its rollout, but in a later period:
what it may still lead to is the elections of the body, once for each period
that is left. A rollout inside a body counts in the same way, since from there
no run comes back to the rollout outside. Every election uses up one at least.

Key definitions: `Arrangement.longest`, `Arrangement.RolloutFree`,
`Arrangement.Chain`.
Key theorems: `Arrangement.longest_settle_le`, `Arrangement.longest_elect_lt`,
`Run.length_add_longest_le`, `runs_end`.
-/
import Covenant.Proofs.Run
import Covenant.Proofs.Schedule.Partition

namespace Covenant
namespace Arrangement

/-! ### The bound -/

mutual

/-- No run of the tree has more elections. A `resume` stands for the periods after its own, with the
elections of the body in each. -/
def longest : Arrangement → Nat
  | zero => 0
  | actions choices => longestOf choices
  | next _ => 0
  | resume ⟨⟨schedule, body, period, _⟩, _⟩ =>
    (schedule.periodCount - (period + 1)) * body.longest

/-- No run that starts with one of the actions has more elections. -/
def longestOf : List (Action Arrangement) → Nat
  | [] => 0
  | ⟨_, _, _, _, continuation⟩ :: rest => max (continuation.longest + 1) (longestOf rest)

end

theorem longest_resume (r : Rollout Arrangement) (rebinds : List Rebind) :
    (resume ⟨r, rebinds⟩).longest =
      (r.schedule.periodCount - (r.period + 1)) * r.body.longest := by
  obtain ⟨schedule, body, period, vars⟩ := r
  rw [longest]

theorem longestOf_le_iff {n : Nat} : ∀ {choices : List (Action Arrangement)},
    longestOf choices ≤ n ↔ ∀ action ∈ choices, action.continuation.longest + 1 ≤ n
  | [] => by simp [longestOf]
  | ⟨label, actors, guard, effects, continuation⟩ :: rest => by
    rw [longestOf, Nat.max_le, longestOf_le_iff, List.forall_mem_cons]

theorem longest_continuation_lt {choices : List (Action Arrangement)} {action : Action Arrangement}
    (h : action ∈ choices) : action.continuation.longest < (actions choices).longest := by
  rw [longest]
  exact longestOf_le_iff.mp (Nat.le_refl _) action h

/-! ### One period further -/

/-- `a.bind r period` adds at most the periods that come after it. -/
theorem longest_bind_le (r : Rollout Arrangement) (period : Period) (a : Arrangement) :
    (a.bind r period).longest ≤
      a.longest + (r.schedule.periodCount - (r.period + 1)) * r.body.longest := by
  induction a with
  | zero => rw [bind]; exact Nat.le_add_right _ _
  | actions choices ih =>
    rw [bind_actions, longest]
    refine longestOf_le_iff.mpr fun action haction => ?_
    obtain ⟨x, hx, rfl⟩ := List.mem_map.mp haction
    have hbind := ih x hx
    have hlt := longest_continuation_lt hx
    simp only [bindAction]
    omega
  | next rebinds =>
    rw [bind, longest_resume]
    exact Nat.le_add_left _ _
  | resume rollout rebinds _ => rw [bind]; exact Nat.le_add_right _ _

/-- At one of its periods a rollout has its body once for each period that is left. -/
theorem longest_body_le (r : Rollout Arrangement) (period : Period)
    (h : r.period < r.schedule.periodCount) :
    (r.body.bind r period).longest ≤
      (r.schedule.periodCount - r.period) * r.body.longest := by
  have hsplit : r.schedule.periodCount - r.period =
      r.schedule.periodCount - (r.period + 1) + 1 := by omega
  rw [hsplit, Nat.succ_mul, Nat.add_comm]
  exact longest_bind_le r period r.body

theorem longest_step_le {env : Environment} {r : Resume Arrangement} {a : Arrangement}
    (h : r.step env = .ok a) : a.longest ≤ (resume r).longest := by
  obtain ⟨rollout, rebinds⟩ := r
  rw [longest_resume]
  rcases Resume.step_eq_ok.mp h with ⟨-, rfl⟩ | ⟨period, vars, hperiod, -, rfl⟩
  · rw [longest]
    exact Nat.zero_le _
  · have hindex : rollout.period + 1 < rollout.schedule.periodCount :=
      Schedule.isSome_period?_iff_lt.mp (by rw [hperiod]; rfl)
    exact longest_body_le (rollout.following vars) period hindex

/-! ### Elections -/

theorem longest_settle_le {env : Environment} (a : Arrangement) {b : Arrangement}
    (h : a.settle env = .ok b) : b.longest ≤ a.longest :=
  (a.settle_keeps (P := fun x => x.longest ≤ a.longest)
    (fun hr hstep => Nat.le_trans (longest_step_le hstep) hr) (Nat.le_refl _) h).2

/-- **Every election uses one up** of `longest`. -/
theorem longest_elect_lt {env : Environment} {a : Arrangement} {actor : Party} {label : String}
    {day : Date} {e : Election} (h : a.elect env actor label day = .ok e) :
    e.successor.longest < a.longest := by
  obtain ⟨action, payments, successor, hopen, -, hcarry, rfl⟩ := elect_eq_ok.mp h
  have haction := mem_choices_of_open? hopen
  have hsettle := longest_settle_le _ (carryOut_eq_ok.mp hcarry).2
  cases a with
  | actions choices => exact Nat.lt_of_le_of_lt hsettle (longest_continuation_lt haction)
  | zero => cases haction
  | next rebinds => cases haction
  | resume r => cases haction

/-! ### Bodies without rollouts -/

/-- There is no `resume` in the tree. -/
inductive RolloutFree : Arrangement → Prop
  | zero : RolloutFree zero
  | actions {choices : List (Action Arrangement)} :
      (∀ action ∈ choices, RolloutFree action.continuation) → RolloutFree (actions choices)
  | next (rebinds : List Rebind) : RolloutFree (next rebinds)

/-- Actions of the tree that follow one another, each in the continuation of the one before. -/
inductive Chain : Arrangement → List (Action Arrangement) → Prop
  | nil (a : Arrangement) : Chain a []
  | cons {a : Arrangement} {action : Action Arrangement} {rest : List (Action Arrangement)} :
      action ∈ a.choices → Chain action.continuation rest → Chain a (action :: rest)

theorem exists_chain_of_choices : ∀ {choices : List (Action Arrangement)},
    (∀ action ∈ choices, ∃ chain, Chain action.continuation chain ∧
      chain.length = action.continuation.longest) →
    ∃ chain, Chain (actions choices) chain ∧ chain.length = longestOf choices
  | [], _ => ⟨[], .nil _, rfl⟩
  | ⟨label, actors, guard, effects, continuation⟩ :: rest, h => by
    obtain ⟨chain, hchain, hlength⟩ := h _ List.mem_cons_self
    obtain ⟨chain', hchain', hlength'⟩ :=
      exists_chain_of_choices fun action haction => h action (List.mem_cons_of_mem _ haction)
    dsimp only at hlength
    by_cases hmax : longestOf rest ≤ continuation.longest + 1
    · refine ⟨_ :: chain, .cons List.mem_cons_self hchain, ?_⟩
      rw [List.length_cons, hlength, longestOf, Nat.max_eq_left hmax]
    · rw [longestOf, Nat.max_eq_right (by omega)]
      cases hchain' with
      | nil => exact absurd (Nat.zero_le _) (hlength' ▸ hmax)
      | cons haction hrest =>
        exact ⟨_, .cons (List.mem_cons_of_mem _ haction) hrest, hlength'⟩

/-- Without rollouts `longest` is the length of a longest chain of actions. -/
theorem RolloutFree.exists_chain {a : Arrangement} (h : a.RolloutFree) :
    ∃ chain, Chain a chain ∧ chain.length = a.longest := by
  induction h with
  | zero => exact ⟨[], .nil _, by rw [longest]; rfl⟩
  | actions _ ih =>
    rw [longest]
    exact exists_chain_of_choices ih
  | next rebinds => exact ⟨[], .nil _, by rw [longest]; rfl⟩

theorem longest_rollOut_le {schedule : Schedule} {body t : Arrangement}
    (h : rollOut schedule body = .ok t) : t.longest ≤ schedule.periodCount * body.longest := by
  obtain ⟨hschedule, -, rfl⟩ := rollOut_eq_ok h
  have hfirst := Schedule.isSome_period?_iff_lt.mp (Schedule.period?_zero hschedule)
  unfold Rollout.instantiate
  dsimp only
  split
  · rename_i period _
    exact longest_body_le ⟨schedule, body, 0, schedule.initial⟩ period hfirst
  · rw [longest]
    exact Nat.zero_le _

end Arrangement

/-! ### Whole runs -/

/-- The elections made and those that may follow are never more than `t.longest`. -/
theorem Run.length_add_longest_le {t a : Arrangement} {made : List Election} (h : Run t made a) :
    made.length + a.longest ≤ t.longest := by
  induction h with
  | start => exact Nat.le_of_eq (Nat.zero_add _)
  | elect _ helect ih =>
    have hlt := Arrangement.longest_elect_lt helect
    rw [List.length_append, List.length_singleton]
    omega

/-- **Every contract ends.** No `Run` of a tree `t` has more elections than `t.longest`, which
depends on the tree alone, whatever the environments, the parties and the days. What `rollOut` makes
over a schedule has at most `schedule.periodCount * h` elections, `h` the length of a longest
`Chain` of actions of its body, if that is `RolloutFree`. -/
theorem runs_end :
    (∀ (t : Arrangement) (made : List Election) (a : Arrangement), Run t made a →
      made.length ≤ t.longest) ∧
    ∀ (schedule : Schedule) (body t : Arrangement) (h : Nat), rollOut schedule body = .ok t →
      body.RolloutFree → (∀ chain, body.Chain chain → chain.length ≤ h) →
      ∀ (made : List Election) (a : Arrangement), Run t made a →
        made.length ≤ schedule.periodCount * h := by
  have hbound : ∀ (t : Arrangement) (made : List Election) (a : Arrangement), Run t made a →
      made.length ≤ t.longest := fun t made a hrun =>
    Nat.le_trans (Nat.le_add_right _ _) hrun.length_add_longest_le
  refine ⟨hbound, fun schedule body t h ht hfree hchains made a hrun => ?_⟩
  obtain ⟨chain, hchain, hlength⟩ := hfree.exists_chain
  calc made.length ≤ t.longest := hbound t made a hrun
    _ ≤ schedule.periodCount * body.longest := Arrangement.longest_rollOut_le ht
    _ ≤ schedule.periodCount * h := Nat.mul_le_mul_left _ (hlength ▸ hchains chain hchain)

/-- The body `payEachMonth` has one action after no other. -/
theorem length_chain_payEachMonth_le {chain : List (Action Arrangement)}
    (h : payEachMonth.Chain chain) : chain.length ≤ 1 := by
  cases h with
  | nil => decide
  | cons haction hrest =>
    rw [List.mem_singleton.mp haction] at hrest
    cases hrest with
    | nil => exact Nat.le_refl 1
    | cons hnone _ => cases hnone

theorem payEachMonth_ends : ∃ t made, rollOut twoMonths payEachMonth = .ok t ∧
    payEachMonth.RolloutFree ∧ Run t made .zero ∧ made.length = 2 ∧
    made.length ≤ twoMonths.periodCount * 1 := by
  obtain ⟨t, ht, hfirst⟩ := payEachMonth_elect
  have hfree : payEachMonth.RolloutFree := .actions fun action haction => by
    rw [List.mem_singleton.mp haction]
    exact .next _
  have hrun := Run.elect (Run.elect .start hfirst) (secondMonth_elect ⟨.empty, .empty⟩)
  exact ⟨t, _, ht, hfree, hrun, rfl,
    runs_end.2 _ _ _ 1 ht hfree (fun _ => length_chain_payEachMonth_le) _ _ hrun⟩

end Covenant
