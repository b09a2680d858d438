/-
# What the checks ask for

Each check is `.ok ()` exactly if what it is about is as it should be. A rollout
is `Valid` if it stands at a period of a valid schedule, its variables are the
declared ones with closed values, and its body is valid for these variables.
Whatever is bound to a period of a valid rollout is valid outside every rollout:
`(node.bind r period).validate = .ok ()`.

Key definitions: `Scope.Admits`, `Rollout.Valid`.
Key theorems: `Scope.checkAmount_eq_ok`, `Scope.checkRebinds_eq_ok`,
`Arrangement.check_actions_eq_ok`, `Arrangement.check_resume_eq_ok`,
`Rollout.Valid.validate_bind`.
-/
import Covenant.Proofs.Amount.Closed
import Covenant.Proofs.Arrangement.Basic

namespace Covenant

/-! ### Amounts, rebinds and actions -/

namespace Scope

/-- In `topLevel` the amount is `Closed`, in a `rollout` its state variables are among the declared
ones. -/
def Admits (scope : Scope) (a : Amount) : Prop :=
  match scope with
  | topLevel => a.Closed
  | rollout declared => ∀ name ∈ a.stateNames, name ∈ declared

theorem unavailable?_topLevel {a : Amount} :
    topLevel.unavailable? a.stateRefs.members = none ↔ a.stateNames = [] := by
  rw [unavailable?, List.head?_eq_none_iff]
  simp only [List.eq_nil_iff_forall_not_mem, Amount.stateRefs, OrderedSet.mem_ofList]

theorem unavailable?_rollout {declared : List String} {a : Amount} :
    (rollout declared).unavailable? a.stateRefs.members = none ↔
      ∀ name ∈ a.stateNames, name ∈ declared := by
  rw [unavailable?, List.find?_eq_none]
  simp [Amount.stateRefs, OrderedSet.mem_ofList]

theorem checkAmount_eq_ok {scope : Scope} {place : Place} {a : Amount} :
    scope.checkAmount place a = .ok () ↔ scope.Admits a := by
  unfold checkAmount
  split
  · rename_i name hname
    simp only [reduceCtorEq, false_iff]
    intro h
    cases scope with
    | topLevel => rw [unavailable?_topLevel.mpr h.1] at hname; cases hname
    | rollout declared => rw [unavailable?_rollout.mpr h] at hname; cases hname
  · rename_i hname
    cases scope with
    | topLevel =>
      have hnames := unavailable?_topLevel.mp hname
      cases h : a.ofPeriod <;> simp [hasPeriod, Admits, Amount.Closed, h, hnames]
    | rollout declared => simpa [hasPeriod, Admits] using unavailable?_rollout.mp hname

theorem checkEffects_eq_ok {scope : Scope} {label : String} : ∀ {effects : List Obligation},
    scope.checkEffects label effects = .ok () ↔ ∀ o ∈ effects, scope.Admits o.amount
  | [] => by simp [checkEffects]
  | o :: rest => by
    rw [checkEffects, andThen_eq_ok, checkAmount_eq_ok, checkEffects_eq_ok, List.forall_mem_cons]

/-- Rebinds pass if they name `declared` variables, none twice, and the scope admits their
values. -/
theorem checkRebinds_eq_ok {scope : Scope} {declared : List String} : ∀ {rebinds : List Rebind}
    {seen : List String}, scope.checkRebinds declared seen rebinds = .ok () ↔
      (∀ r ∈ rebinds, r.name ∈ declared ∧ r.name ∉ seen ∧ scope.Admits r.value) ∧
        (rebinds.map Rebind.name).Nodup
  | [], seen => by simp [checkRebinds]
  | r :: rest, seen => by
    unfold checkRebinds
    by_cases hdeclared : r.name ∈ declared
    · by_cases hseen : r.name ∈ seen
      · simp [hdeclared, hseen]
      · simp only [List.contains_eq_mem, hdeclared, hseen, decide_true, decide_false, Bool.not_true,
          Bool.false_eq_true, ↓reduceIte]
        rw [andThen_eq_ok, checkAmount_eq_ok, checkRebinds_eq_ok]
        simp only [List.mem_cons, List.map_cons, List.nodup_cons, List.mem_map]
        constructor
        · rintro ⟨hvalue, hrest, hnodup⟩
          refine ⟨?_, ⟨?_, hnodup⟩⟩
          · rintro x (rfl | hx)
            · exact ⟨hdeclared, hseen, hvalue⟩
            · obtain ⟨h1, h2, h3⟩ := hrest x hx
              exact ⟨h1, fun h => h2 (.inr h), h3⟩
          · rintro ⟨x, hx, hname⟩
            exact (hrest x hx).2.1 (.inl hname)
        · rintro ⟨hall, hhead, hnodup⟩
          refine ⟨(hall r (.inl rfl)).2.2, fun x hx => ?_, hnodup⟩
          obtain ⟨h1, h2, h3⟩ := hall x (.inr hx)
          exact ⟨h1, fun h => h.elim (fun h => hhead ⟨x, hx, h⟩) h2, h3⟩
    · simp [hdeclared]

theorem checkAction_eq_ok {scope : Scope} {label : String} {actors : PartySet} {guard : Guard}
    {effects : List Obligation} : scope.checkAction label actors guard effects = .ok () ↔
      actors.isEmpty = false ∧ (guard.ofPeriod = true → scope.hasPeriod = true) ∧
        ∀ o ∈ effects, scope.Admits o.amount := by
  unfold checkAction
  by_cases hactors : actors.isEmpty = true
  · simp [hactors]
  · by_cases hguard : guard.ofPeriod = true <;> by_cases hscope : scope.hasPeriod = true <;>
      simp [hactors, hguard, hscope, checkEffects_eq_ok]

theorem checkValues_eq_ok : ∀ {entries : List (String × Amount)},
    checkValues entries = .ok () ↔ ∀ e ∈ entries, e.2.Closed
  | [] => by simp [checkValues]
  | e :: rest => by
    rw [checkValues, andThen_eq_ok, checkAmount_eq_ok, checkValues_eq_ok, List.forall_mem_cons]
    rfl

end Scope

/-! ### Schedules and positions -/

namespace Schedule

theorem openVariable?_eq_none {s : Schedule} :
    s.openVariable? = none ↔ ∀ e ∈ s.initial.entries, e.2.Closed := by
  simp only [openVariable?, Option.map_eq_none_iff, List.find?_eq_none, Bool.or_eq_true,
    Bool.not_eq_true', List.isEmpty_eq_false_iff, not_or, ne_eq, Decidable.not_not,
    Bool.not_eq_true, Amount.Closed]

/-- A schedule passes if its dates are in order, it has a first boundary, and its variables start
from closed values. -/
theorem check_eq_ok {s : Schedule} : s.check = .ok () ↔
    s.start < s.finish ∧ (s.frequency.boundary s.start 1).isSome ∧
      ∀ e ∈ s.initial.entries, e.2.Closed := by
  have horder : s.finish ≤ s.start ↔ ¬s.start < s.finish := Int.not_lt.symm
  unfold check
  rw [← openVariable?_eq_none]
  by_cases h1 : s.start < s.finish
  · rw [if_neg (fun h => horder.mp h h1)]
    cases h2 : s.frequency.boundary s.start 1 with
    | none => simp
    | some d =>
      cases h3 : s.openVariable? with
      | none => simp [h1]
      | some name => simp
  · rw [if_pos (horder.mpr h1)]
    simp [h1]

end Schedule

theorem Rollout.checkPosition_eq_ok {schedule : Schedule} {period : Nat}
    {vars : OrderedMap String Amount} : checkPosition schedule period vars = .ok () ↔
      schedule.check = .ok () ∧ vars.keys = schedule.initial.keys ∧
        (schedule.period? period).isSome ∧ ∀ e ∈ vars.entries, e.2.Closed := by
  unfold checkPosition
  rw [andThen_eq_ok]
  by_cases hkeys : vars.keys = schedule.initial.keys
  · cases hperiod : schedule.period? period with
    | none => simp [hkeys]
    | some p => simp [hkeys, Scope.checkValues_eq_ok]
  · simp [hkeys]

/-! ### Trees -/

namespace Arrangement

theorem checkChoices_eq_ok {scope : Scope} : ∀ {choices : List (Action Arrangement)},
    checkChoices scope choices = .ok () ↔ ∀ action ∈ choices,
      scope.checkAction action.label action.actors action.guard action.effects = .ok () ∧
        action.continuation.check scope = .ok ()
  | [] => by simp [checkChoices]
  | ⟨label, actors, guard, effects, continuation⟩ :: rest => by
    rw [checkChoices, andThen_eq_ok, andThen_eq_ok, checkChoices_eq_ok, List.forall_mem_cons,
      and_assoc]

theorem check_actions_eq_ok {scope : Scope} {choices : List (Action Arrangement)} :
    (actions choices).check scope = .ok () ↔ checkLabels [] (choices.map Action.label) = .ok () ∧
      ∀ action ∈ choices,
        scope.checkAction action.label action.actors action.guard action.effects = .ok () ∧
          action.continuation.check scope = .ok () := by
  rw [check, andThen_eq_ok, checkChoices_eq_ok]

end Arrangement

/-- A rollout that can stand in a contract: it is at a period of a schedule that passes, its
variables are the declared ones with closed values, and its body passes in their scope. -/
structure Rollout.Valid (r : Rollout Arrangement) : Prop where
  schedule_ok : r.schedule.check = .ok ()
  keys_eq : r.vars.keys = r.schedule.initial.keys
  period_isSome : (r.schedule.period? r.period).isSome
  closed : ∀ e ∈ r.vars.entries, e.2.Closed
  body_ok : r.body.check (.rollout r.schedule.initial.keys) = .ok ()

namespace Arrangement

/-- A `resume` passes in any scope, if its rollout is `Valid` and its rebinds pass in
`Scope.topLevel`. -/
theorem check_resume_eq_ok {scope : Scope} {r : Rollout Arrangement} {rebinds : List Rebind} :
    (resume ⟨r, rebinds⟩).check scope = .ok () ↔
      r.Valid ∧ Scope.topLevel.checkRebinds r.schedule.initial.keys [] rebinds = .ok () := by
  obtain ⟨schedule, body, period, vars⟩ := r
  rw [check, andThen_eq_ok, andThen_eq_ok, Rollout.checkPosition_eq_ok]
  constructor
  · rintro ⟨⟨h1, h2, h3, h4⟩, h5, h6⟩
    exact ⟨⟨h1, h2, h3, h4, h5⟩, h6⟩
  · rintro ⟨⟨h1, h2, h3, h4, h5⟩, h6⟩
    exact ⟨⟨h1, h2, h3, h4⟩, h5, h6⟩

theorem check_next_eq_ok {scope : Scope} {rebinds : List Rebind} :
    (next rebinds).check scope = .ok () ↔
      ∃ declared, scope = .rollout declared ∧ scope.checkRebinds declared [] rebinds = .ok () := by
  cases scope <;> simp [check]

end Arrangement

/-! ### Binding to a period -/

namespace Rollout.Valid

variable {r : Rollout Arrangement}

theorem closed_bind (h : r.Valid) (period : Period) {a : Amount}
    (ha : (Scope.rollout r.schedule.initial.keys).Admits a) :
    (a.bind period.start period.finish r.vars).Closed :=
  Amount.closed_bind _ _ h.closed a fun name hname => h.keys_eq ▸ ha name hname

theorem checkRebinds_bind (h : r.Valid) (period : Period) {rebinds : List Rebind}
    (hrebinds : (Scope.rollout r.schedule.initial.keys).checkRebinds r.schedule.initial.keys []
      rebinds = .ok ()) :
    Scope.topLevel.checkRebinds r.schedule.initial.keys []
      (rebinds.map (Rebind.bind period.start period.finish r.vars)) = .ok () := by
  obtain ⟨hall, hnodup⟩ := Scope.checkRebinds_eq_ok.mp hrebinds
  refine Scope.checkRebinds_eq_ok.mpr ⟨fun x hx => ?_, ?_⟩
  · obtain ⟨y, hy, rfl⟩ := List.mem_map.mp hx
    obtain ⟨hname, hseen, hvalue⟩ := hall y hy
    exact ⟨hname, hseen, h.closed_bind period hvalue⟩
  · rw [List.map_map]
    exact hnodup

theorem checkAction_bind (h : r.Valid) (period : Period) {action : Action Arrangement}
    (haction : (Scope.rollout r.schedule.initial.keys).checkAction action.label action.actors
      action.guard action.effects = .ok ()) :
    Scope.topLevel.checkAction action.label action.actors
      (action.guard.bind period.start period.finish)
      (action.effects.map (Obligation.bind period.start period.finish r.vars)) = .ok () := by
  obtain ⟨hactors, -, heffects⟩ := Scope.checkAction_eq_ok.mp haction
  refine Scope.checkAction_eq_ok.mpr ⟨hactors, fun hguard => ?_, fun o ho => ?_⟩
  · rw [Guard.ofPeriod_bind] at hguard
    cases hguard
  · obtain ⟨x, hx, rfl⟩ := List.mem_map.mp ho
    exact h.closed_bind period (heffects x hx)

/-- **Binding makes contracts.** A part of the body of a valid rollout, bound to a period, is valid
outside every rollout. -/
theorem validate_bind (h : r.Valid) (period : Period) (node : Arrangement) :
    node.check (.rollout r.schedule.initial.keys) = .ok () →
    (node.bind r period).validate = .ok () := by
  induction node with
  | zero => intro _; rfl
  | actions choices ih =>
    intro hnode
    obtain ⟨hlabels, hall⟩ := Arrangement.check_actions_eq_ok.mp hnode
    rw [Arrangement.bind_actions]
    refine Arrangement.check_actions_eq_ok.mpr ⟨?_, fun action haction => ?_⟩
    · rw [List.map_map]
      exact hlabels
    · obtain ⟨x, hx, rfl⟩ := List.mem_map.mp haction
      exact ⟨h.checkAction_bind period (hall x hx).1, ih x hx (hall x hx).2⟩
  | next rebinds =>
    intro hnode
    exact Arrangement.check_resume_eq_ok.mpr ⟨h, h.checkRebinds_bind period hnode⟩
  | resume rollout rebinds _ =>
    intro hnode
    exact Arrangement.check_resume_eq_ok.mpr (Arrangement.check_resume_eq_ok.mp hnode)

end Rollout.Valid
end Covenant
