/-
# Trees up to the sign of zeros

`Arrangement.normal` takes the sign off every zero in a tree, that of a bound
rollout and its schedule included. The tree passes the same checks as before:
`a.normal.check scope = a.check scope`; and it stays related by `Decimal.Same`
to all that it was related to.

Key definitions: `Schedule.normal`, `Arrangement.normal`.
Key theorems: `Arrangement.normal_normal`, `Arrangement.check_normal`,
`Arrangement.Related.normal_left`.
-/
import Covenant.Proofs.Amount.Normal
import Covenant.Proofs.Arrangement.Related

namespace Covenant

open Decimal (Same)

/-! ### Schedules -/

namespace Schedule

/-- The schedule, its initial values without signs of zeros. -/
def normal (s : Schedule) : Schedule := { s with initial := s.initial.mapValues .normal }

@[simp] theorem normal_normal (s : Schedule) : s.normal.normal = s.normal := by
  simp [normal, OrderedMap.mapValues]

@[simp] theorem period?_normal (s : Schedule) (index : Nat) :
    s.normal.period? index = s.period? index := rfl

theorem openVariable?_normal (s : Schedule) : s.normal.openVariable? = s.openVariable? := by
  simp only [openVariable?, normal, OrderedMap.mapValues, List.find?_map, Option.map_map]
  simp [Function.comp_def]

@[simp] theorem check_normal (s : Schedule) : s.normal.check = s.check := by
  unfold check
  rw [openVariable?_normal]
  rfl

theorem Related.normal_left {s s' : Schedule} (h : s.Related Same s') : s.normal.Related Same s' :=
  ⟨h.start_eq, h.finish_eq, h.frequency_eq,
    h.initial_related.mapValues_left fun _ _ => Amount.Related.normal_left⟩

end Schedule

/-! ### Trees -/

namespace Arrangement

mutual

/-- The tree, without signs of zeros. -/
def normal : Arrangement → Arrangement
  | zero => zero
  | actions choices => actions (normalChoices choices)
  | next rebinds => next (rebinds.map Rebind.normal)
  | resume ⟨⟨schedule, body, period, vars⟩, rebinds⟩ =>
    resume ⟨⟨schedule.normal, body.normal, period, vars.mapValues .normal⟩,
      rebinds.map Rebind.normal⟩

/-- The actions, without signs of zeros. -/
def normalChoices : List (Action Arrangement) → List (Action Arrangement)
  | [] => []
  | ⟨label, actors, guard, effects, continuation⟩ :: rest =>
    ⟨label, actors, guard, effects.map Obligation.normal, continuation.normal⟩ ::
      normalChoices rest

end

end Arrangement

/-- The action, its effects and its continuation `normal`. -/
def Action.normal (action : Action Arrangement) : Action Arrangement :=
  { action with
    effects := action.effects.map Obligation.normal
    continuation := action.continuation.normal }

/-- The rollout, its schedule, body and variables `normal`. -/
def Rollout.normal (r : Rollout Arrangement) : Rollout Arrangement :=
  ⟨r.schedule.normal, r.body.normal, r.period, r.vars.mapValues .normal⟩

namespace Arrangement

theorem normalChoices_eq_map : ∀ choices, normalChoices choices = choices.map Action.normal
  | [] => rfl
  | ⟨label, actors, guard, effects, continuation⟩ :: rest => by
    rw [normalChoices, normalChoices_eq_map rest]
    rfl

theorem normal_actions (choices : List (Action Arrangement)) :
    (actions choices).normal = actions (choices.map Action.normal) := by
  rw [normal, normalChoices_eq_map]

theorem normal_resume (r : Rollout Arrangement) (rebinds : List Rebind) :
    (resume ⟨r, rebinds⟩).normal = resume ⟨r.normal, rebinds.map Rebind.normal⟩ := by
  obtain ⟨schedule, body, period, vars⟩ := r
  rw [normal]
  rfl

@[simp] theorem normal_normal (a : Arrangement) : a.normal.normal = a.normal := by
  induction a with
  | zero => rw [normal, normal]
  | actions choices ih =>
    rw [normal_actions, normal_actions, List.map_map]
    congr 1
    refine List.map_congr_left fun action haction => ?_
    simp [Action.normal, ih action haction]
  | next rebinds => simp [normal]
  | resume r rebinds ih =>
    rw [normal_resume, normal_resume]
    simp [Rollout.normal, ih, OrderedMap.mapValues]

/-- `a.normal` is the same as whatever `a` is the same as. -/
theorem Related.normal_left {a b : Arrangement} (h : a.Related Same b) :
    a.normal.Related Same b := by
  induction a generalizing b with
  | zero => rwa [normal]
  | actions choices ih =>
    cases h with
    | actions hchoices =>
      rw [normal_actions]
      refine .actions (List.forall₂_map_left_iff.mpr ?_)
      refine ((List.forall₂_and_left _ _).mpr ⟨@ih, hchoices⟩).imp fun action action' h => ?_
      obtain ⟨hcontinuation, ⟨label, actors, guard, heffects, hbody⟩⟩ := h
      refine .mk _ _ _ (List.forall₂_map_left_iff.mpr ?_) (hcontinuation hbody)
      exact heffects.imp fun _ _ => Obligation.Related.normal_left
  | next rebinds =>
    cases h with
    | next hrebinds =>
      rw [normal]
      refine .next (List.forall₂_map_left_iff.mpr ?_)
      exact hrebinds.imp fun _ _ => Rebind.Related.normal_left
  | resume r rebinds ih =>
    cases h with
    | resume hr hrebinds =>
      obtain ⟨period, hschedule, hbody, hvars⟩ := hr
      have hvars' := hvars.mapValues_left fun _ _ => Amount.Related.normal_left
      rw [normal_resume]
      refine .resume (.mk period hschedule.normal_left (ih hbody) hvars') ?_
      exact List.forall₂_map_left_iff.mpr
        (hrebinds.imp fun _ _ => Rebind.Related.normal_left)

/-- `a.normal` is the same as `a`. -/
theorem related_normal (a : Arrangement) : a.normal.Related Same a :=
  Related.normal_left (.refl Same.refl a)

/-! ### Checks -/

theorem checkAmount_normal (scope : Scope) (place : Place) (a : Amount) :
    scope.checkAmount place a.normal = scope.checkAmount place a := by
  simp [Scope.checkAmount]

theorem checkEffects_normal (scope : Scope) (label : String) : ∀ effects : List Obligation,
    scope.checkEffects label (effects.map Obligation.normal) = scope.checkEffects label effects
  | [] => rfl
  | o :: rest => by
    rw [List.map_cons, Scope.checkEffects, Scope.checkEffects, checkEffects_normal scope label rest,
      Obligation.normal, checkAmount_normal]

theorem checkRebinds_normal (scope : Scope) (declared : List String) : ∀ (rebinds : List Rebind)
    (seen : List String), scope.checkRebinds declared seen (rebinds.map Rebind.normal) =
      scope.checkRebinds declared seen rebinds
  | [], _ => rfl
  | r :: rest, seen => by
    rw [List.map_cons, Scope.checkRebinds, Scope.checkRebinds, Rebind.normal, checkAmount_normal,
      checkRebinds_normal scope declared rest]

theorem checkValues_normal : ∀ entries : List (String × Amount),
    Scope.checkValues (entries.map fun e => (e.1, e.2.normal)) = Scope.checkValues entries
  | [] => rfl
  | (name, a) :: rest => by
    rw [List.map_cons, Scope.checkValues, Scope.checkValues, checkAmount_normal,
      checkValues_normal rest]

theorem checkPosition_normal (schedule : Schedule) (period : Nat)
    (vars : OrderedMap String Amount) :
    Rollout.checkPosition schedule.normal period (vars.mapValues .normal) =
      Rollout.checkPosition schedule period vars := by
  have hvalues := checkValues_normal vars.entries
  unfold Rollout.checkPosition
  rw [Schedule.check_normal, Schedule.period?_normal]
  simp only [Schedule.normal, OrderedMap.keys_mapValues]
  rw [← hvalues]
  rfl

theorem checkChoices_normal (scope : Scope) : ∀ choices : List (Action Arrangement),
    (∀ action ∈ choices, action.continuation.normal.check scope =
      action.continuation.check scope) →
    checkChoices scope (choices.map Action.normal) = checkChoices scope choices
  | [], _ => rfl
  | ⟨label, actors, guard, effects, continuation⟩ :: rest, h => by
    have hcontinuation := h _ List.mem_cons_self
    have hrest := checkChoices_normal scope rest fun x hx => h x (List.mem_cons_of_mem _ hx)
    rw [List.map_cons, Action.normal, checkChoices, checkChoices, hrest, hcontinuation]
    simp only [Scope.checkAction, checkEffects_normal]

/-- A tree passes the same checks without signs of zeros. -/
theorem check_normal (a : Arrangement) : ∀ scope, a.normal.check scope = a.check scope := by
  induction a with
  | zero => intro scope; rw [normal]
  | actions choices ih =>
    intro scope
    have hlabels : (choices.map Action.normal).map Action.label = choices.map Action.label := by
      rw [List.map_map]
      rfl
    rw [normal_actions, check, check, hlabels,
      checkChoices_normal scope choices fun action haction => ih action haction scope]
  | next rebinds =>
    intro scope
    cases scope with
    | topLevel => rw [normal, check, check]
    | rollout declared => rw [normal, check, check, checkRebinds_normal]
  | resume r rebinds ih =>
    intro scope
    obtain ⟨schedule, body, period, vars⟩ := r
    rw [normal, check, check, checkPosition_normal, checkRebinds_normal]
    simp only [Schedule.normal, OrderedMap.keys_mapValues]
    rw [ih]

theorem validate_normal (a : Arrangement) : a.normal.validate = a.validate := a.check_normal _

end Arrangement
end Covenant
