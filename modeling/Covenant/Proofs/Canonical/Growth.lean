/-
# How deep a run may lead

A directive carries its rollout, so its next period may nest twice as deep as
the rollout does. But no election makes a rollout deeper: new values of
variables are constants, and a rollout further down was there before. So no
state `a` of a run from `t` nests deeper than its start, or twice the rollouts
of its start: if these are within `n`,
`a.toJson.depth ≤ max t.toJson.depth (2 * n)`.

Key definitions: `Arrangement.RolloutsWithin`.
Key theorems: `Arrangement.within_instantiate`, `Arrangement.within_settle`,
`Run.within`.
-/
import Covenant.Proofs.Canonical.Depth
import Covenant.Proofs.Run

namespace Covenant
namespace Arrangement

/-! ### Rollouts in a tree -/

/-- Every rollout of a `resume` in the tree, that of its actions' continuations included, nests at
most `n` deep. -/
inductive RolloutsWithin (n : Nat) : Arrangement → Prop
  | zero : RolloutsWithin n zero
  | actions {choices : List (Action Arrangement)} :
      (∀ action ∈ choices, RolloutsWithin n action.continuation) →
      RolloutsWithin n (actions choices)
  | next (rebinds : List Rebind) : RolloutsWithin n (next rebinds)
  | resume {r : Rollout Arrangement} {rebinds : List Rebind} : (rolloutToJson r).depth ≤ n →
      RolloutsWithin n (resume ⟨r, rebinds⟩)

theorem rolloutsWithin_of_depth_le {n : Nat} (a : Arrangement) :
    a.toJson.depth ≤ n + 2 → a.RolloutsWithin n := by
  induction a with
  | zero => exact fun _ => .zero
  | actions choices ih =>
    intro h
    refine .actions fun action haction => ih action haction ?_
    have hcontinuation := depth_continuation_le haction
    omega
  | next rebinds => exact fun _ => .next rebinds
  | resume r rebinds _ =>
    intro h
    rw [depth_resume] at h
    exact .resume (by omega)

theorem RolloutsWithin.bind {n : Nat} {r : Rollout Arrangement} (period : Period)
    (hr : (rolloutToJson r).depth ≤ n) {a : Arrangement} (h : a.RolloutsWithin n) :
    (a.bind r period).RolloutsWithin n := by
  induction h with
  | zero => exact .zero
  | actions _ ih =>
    rw [bind_actions]
    refine .actions fun action haction => ?_
    obtain ⟨x, hx, rfl⟩ := List.mem_map.mp haction
    exact ih x hx
  | next rebinds => exact .resume hr
  | resume h => exact .resume h

/-- A rollout at one of its periods nests at most twice as deep as the rollout. -/
theorem within_instantiate {n : Nat} {r : Rollout Arrangement} (period : Period)
    (hr : (rolloutToJson r).depth ≤ n) :
    (r.body.bind r period).RolloutsWithin n ∧ (r.body.bind r period).toJson.depth ≤ 2 * n := by
  have hbody : r.body.toJson.depth ≤ n := by
    rw [depth_rolloutToJson] at hr
    omega
  have hbind := depth_bind_le r period r.body
  exact ⟨.bind period hr (rolloutsWithin_of_depth_le _ (by omega)), by omega⟩

theorem within_rollOut {schedule : Schedule} {body t : Arrangement} {n : Nat}
    (h : rollOut schedule body = .ok t)
    (hn : (rolloutToJson ⟨schedule, body, 0, schedule.initial⟩).depth ≤ n) :
    t.RolloutsWithin n ∧ t.toJson.depth ≤ 2 * n := by
  obtain ⟨-, -, rfl⟩ := rollOut_eq_ok h
  unfold Rollout.instantiate
  split
  · rename_i period _
    exact within_instantiate period hn
  · exact ⟨.zero, Nat.zero_le _⟩

/-! ### One period further -/

/-- `rebindAll` puts in constants, which nest no deeper than any value of a variable. -/
theorem depth_rebindAll_le {env : Environment} {n : Nat} (hn : 1 ≤ n) : ∀ {rebinds : List Rebind}
    {vars vars' : OrderedMap String Amount}, (∀ e ∈ vars.entries, e.2.toJson.depth ≤ n) →
    rebindAll env vars rebinds = .ok vars' → ∀ e ∈ vars'.entries, e.2.toJson.depth ≤ n
  | [], vars, vars', hvars, h => by cases h; exact hvars
  | r :: rest, vars, vars', hvars, h => by
    obtain ⟨value, -, h⟩ := bind_eq_ok.mp h
    refine depth_rebindAll_le hn (fun e he => ?_) h
    rcases OrderedMap.mem_insertEntry he with rfl | he
    · exact hn
    · exact hvars e he

/-- At a later period a rollout nests no deeper than it did. -/
theorem depth_rolloutToJson_next_le {env : Environment} {r : Rollout Arrangement}
    {rebinds : List Rebind} {vars : OrderedMap String Amount}
    (h : rebindAll env r.vars rebinds = .ok vars) (period : Nat) :
    (rolloutToJson { r with period := period, vars := vars }).depth ≤ (rolloutToJson r).depth := by
  have hschedule := Schedule.depth_toJson r.schedule
  have hr := depth_rolloutToJson r
  rw [Json.depth_ofMap] at hschedule hr
  have hbefore : ∀ e ∈ r.vars.entries, e.2.toJson.depth ≤
      max 1 (Json.itemsDepth (r.vars.entries.map fun e => e.2.toJson)) := fun e he =>
    Nat.le_trans (Json.depth_le_itemsDepth_map (f := fun e => e.2.toJson) he)
      (Nat.le_max_right _ _)
  have hafter := Json.itemsDepth_map_le_iff.mpr
    (depth_rebindAll_le (Nat.le_max_left _ _) hbefore h)
  -- a constant nests no deeper than the schedule, which every rollout holds
  rw [depth_rolloutToJson, Json.depth_ofMap]
  dsimp only
  omega

theorem within_step {env : Environment} {n : Nat} {r : Resume Arrangement} {a : Arrangement}
    (hr : (resume r).RolloutsWithin n) (h : r.step env = .ok a) :
    a.RolloutsWithin n ∧ a.toJson.depth ≤ 2 * n := by
  obtain ⟨rollout, rebinds⟩ := r
  cases hr with
  | resume hr =>
    rcases Resume.step_eq_ok.mp h with ⟨-, rfl⟩ | ⟨period, vars, -, hvars, rfl⟩
    · exact ⟨.zero, Nat.zero_le _⟩
    · have hnext := Nat.le_trans (depth_rolloutToJson_next_le hvars (rollout.period + 1)) hr
      exact @within_instantiate n (rollout.following vars) period hnext

/-! ### Elections -/

theorem within_settle {env : Environment} {n : Nat} (a : Arrangement) (ha : a.RolloutsWithin n)
    {b : Arrangement} (h : a.settle env = .ok b) :
    b.RolloutsWithin n ∧ b.toJson.depth ≤ max a.toJson.depth (2 * n) :=
  (a.settle_keeps (P := fun x => x.RolloutsWithin n ∧ x.toJson.depth ≤ max a.toJson.depth (2 * n))
    (fun hr hstep => (within_step hr.1 hstep).imp_right fun hdepth =>
      Nat.le_trans hdepth (Nat.le_max_right _ _)) ⟨ha, Nat.le_max_left _ _⟩ h).2

theorem within_elect {env : Environment} {n : Nat} {a : Arrangement} {actor : Party}
    {label : String} {day : Date} {e : Election} (ha : a.RolloutsWithin n)
    (h : a.elect env actor label day = .ok e) :
    e.successor.RolloutsWithin n ∧ e.successor.toJson.depth ≤ max a.toJson.depth (2 * n) := by
  obtain ⟨action, payments, successor, hopen, -, hcarry, rfl⟩ := elect_eq_ok.mp h
  have haction := mem_choices_of_open? hopen
  have hsettle := (carryOut_eq_ok.mp hcarry).2
  cases ha with
  | @actions choices ha =>
    obtain ⟨hwithin, hdepth⟩ := within_settle _ (ha action haction) hsettle
    have hcontinuation := @depth_continuation_le choices action haction
    exact ⟨hwithin, by dsimp only; omega⟩
  | zero => cases haction
  | next => cases haction
  | resume => cases haction

end Arrangement

/-- **No run leads deeper** than its start `t`, or than twice the rollouts of it. -/
theorem Run.within {n : Nat} {t a : Arrangement} {made : List Election} (ht : t.RolloutsWithin n)
    (h : Run t made a) :
    a.RolloutsWithin n ∧ a.toJson.depth ≤ max t.toJson.depth (2 * n) := by
  induction h with
  | start => exact ⟨ht, Nat.le_max_left _ _⟩
  | elect _ helect ih =>
    obtain ⟨hwithin, hdepth⟩ := Arrangement.within_elect ih.1 helect
    exact ⟨hwithin, by omega⟩

end Covenant
