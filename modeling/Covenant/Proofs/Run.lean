/-
# Runs keep contracts

A run is a sequence of successful elections, each in an environment of its own:
`Run t made a` leads from `t` to `a`. However a contract came into being (put
together, rolled out or read from bytes), every state that a run leads to is a
contract again: nothing or a set of actions, valid, and with guards that name
calendar dates only. And no election on it, successful or not, ever fails
because a part of a rollout was left unbound.

Key definitions: `Run`, `Arrangement.Accepted`, `Arrangement.guards`.
Key theorems: `Arrangement.validate_of_accepted`, `Run.validate`,
`accepted_run_safe`.
-/
import Covenant.Canonical.Arrangement
import Covenant.Proofs.Arrangement.Settling
import Covenant.Proofs.Election

namespace Covenant

/-- A run of the contract `start`: the elections made so far, in order, and what is left after
them. -/
inductive Run (start : Arrangement) : List Election → Arrangement → Prop where
  | start : Run start [] start
  | elect {made : List Election} {a : Arrangement} {env : Environment} {actor : Party}
      {label : String} {day : Date} {e : Election} :
      Run start made a → a.elect env actor label day = .ok e →
      Run start (made ++ [e]) e.successor

namespace Arrangement

/-! ### How a contract comes into being -/

/-- The ways to a contract: put together by `arrange`, rolled out over a schedule by `rollOut`, or
read. -/
inductive Accepted : Arrangement → Prop where
  | arranged {a t : Arrangement} : arrange a = .ok t → Accepted t
  | rolledOut {schedule : Schedule} {body t : Arrangement} :
      rollOut schedule body = .ok t → Accepted t
  | stored {bytes : List UInt8} {t : Arrangement} : read bytes = .ok t → Accepted t

/-- What `rollOut` makes: a valid rollout at its first period, or nothing. -/
theorem rollOut_eq_ok {schedule : Schedule} {body t : Arrangement}
    (h : rollOut schedule body = .ok t) :
    schedule.check = .ok () ∧ body.check (.rollout schedule.initial.keys) = .ok () ∧
      t = Rollout.instantiate ⟨schedule, body, 0, schedule.initial⟩ := by
  obtain ⟨hschedule, h⟩ := andThen_eq_ok.mp h
  obtain ⟨hbody, h⟩ := andThen_eq_ok.mp h
  exact ⟨hschedule, hbody, (pure_eq_ok.mp h).symm⟩

/-- What `rollOut` makes is valid, although it is not checked again. -/
theorem validate_rollOut {schedule : Schedule} {body t : Arrangement}
    (h : rollOut schedule body = .ok t) : t.validate = .ok () := by
  obtain ⟨hschedule, hbody, rfl⟩ := rollOut_eq_ok h
  unfold Rollout.instantiate
  dsimp only
  split
  · rename_i period hperiod
    have hvalid : Rollout.Valid ⟨schedule, body, 0, schedule.initial⟩ :=
      ⟨hschedule, rfl, by simp [hperiod], (Schedule.check_eq_ok.mp hschedule).2.2, hbody⟩
    exact hvalid.validate_bind period body hbody
  · rfl

theorem validate_read {bytes : List UInt8} {t : Arrangement} (h : read bytes = .ok t) :
    t.validate = .ok () := by
  unfold read checked at h
  split at h
  · rename_i a _
    cases hvalid : a.validate with
    | ok u =>
      rw [hvalid] at h
      cases h
      exact hvalid
    | error cause =>
      rw [hvalid] at h
      cases h
  · cases h

theorem validate_of_accepted {t : Arrangement} (h : t.Accepted) : t.validate = .ok () := by
  cases h with
  | arranged h =>
    obtain ⟨hvalid, h⟩ := andThen_eq_ok.mp h
    cases h
    exact hvalid
  | rolledOut h => exact validate_rollOut h
  | stored h => exact validate_read h

/-! ### One election -/

theorem validate_continuation {a : Arrangement} (ha : a.validate = .ok ())
    {action : Action Arrangement} (haction : action ∈ a.choices) :
    (∀ o ∈ action.effects, o.amount.Closed) ∧ action.continuation.validate = .ok () := by
  cases a with
  | actions choices =>
    obtain ⟨hchecked, hcontinuation⟩ := (check_actions_eq_ok.mp ha).2 action haction
    exact ⟨(Scope.checkAction_eq_ok.mp hchecked).2.2, hcontinuation⟩
  | zero => cases haction
  | next rebinds => cases haction
  | resume r => cases haction

/-- `elect` on a contract leads to a contract. -/
theorem validate_elect {env : Environment} {a : Arrangement} {actor : Party} {label : String}
    {day : Date} {e : Election} (ha : a.validate = .ok ())
    (h : a.elect env actor label day = .ok e) :
    e.successor.Settled ∧ e.successor.validate = .ok () := by
  obtain ⟨action, payments, successor, hopen, -, hcarry, rfl⟩ := elect_eq_ok.mp h
  have haction := (validate_continuation ha (mem_choices_of_open? hopen)).2
  exact settle_eq_ok _ haction (carryOut_eq_ok.mp hcarry).2

/-- `elect` on a contract never fails for want of a rollout. -/
theorem elect_not_isUnbound {env : Environment} {a : Arrangement} {actor : Party} {label : String}
    {day : Date} {cause : EvalError} (ha : a.validate = .ok ())
    (h : a.elect env actor label day = .error (.unresolved cause)) : cause.isUnbound = false := by
  obtain ⟨action, hopen, -, hcarry⟩ := elect_eq_unresolved.mp h
  obtain ⟨heffects, hcontinuation⟩ := validate_continuation ha (mem_choices_of_open? hopen)
  rcases carryOut_eq_error hcarry with h | h
  · obtain ⟨o, ho, hvalue⟩ := resolveAll_eq_error h
    exact (heffects o ho).not_isUnbound hvalue
  · exact settle_eq_error _ hcontinuation h

/-! ### Guards -/

mutual

/-- The guards of all actions of a tree; the body of a rollout is text for other periods and none
of its guards counts. -/
def guards : Arrangement → List Guard
  | zero | next _ | resume _ => []
  | actions choices => choicesGuards choices

/-- The guards of a node's actions and of what follows them. -/
def choicesGuards : List (Action Arrangement) → List Guard
  | [] => []
  | ⟨_, _, guard, _, continuation⟩ :: rest => guard :: continuation.guards ++ choicesGuards rest

end

/-- The guard of an action of a contract names calendar dates only. -/
theorem not_ofPeriod_of_mem_choices {a : Arrangement} (ha : a.validate = .ok ())
    {action : Action Arrangement} (haction : action ∈ a.choices) :
    action.guard.ofPeriod = false := by
  cases a with
  | actions choices =>
    have hchecked := ((check_actions_eq_ok.mp ha).2 action haction).1
    have hscope := (Scope.checkAction_eq_ok.mp hchecked).2.1
    exact Bool.eq_false_iff.mpr fun hguard => Bool.noConfusion (hscope hguard)
  | zero => cases haction
  | next rebinds => cases haction
  | resume r => cases haction

theorem mem_choicesGuards {g : Guard} : ∀ {choices : List (Action Arrangement)},
    g ∈ choicesGuards choices →
      ∃ action ∈ choices, g = action.guard ∨ g ∈ action.continuation.guards
  | [], h => by cases h
  | ⟨label, actors, guard, effects, continuation⟩ :: rest, h => by
    rw [choicesGuards, List.cons_append, List.mem_cons, List.mem_append] at h
    rcases h with h | h | h
    · exact ⟨_, List.mem_cons_self, .inl h⟩
    · exact ⟨_, List.mem_cons_self, .inr h⟩
    · obtain ⟨action, haction, hg⟩ := mem_choicesGuards h
      exact ⟨action, List.mem_cons_of_mem _ haction, hg⟩

/-- So do the guards of all that may follow. -/
theorem not_ofPeriod_of_mem_guards {g : Guard} (a : Arrangement) :
    a.validate = .ok () → g ∈ a.guards → g.ofPeriod = false := by
  induction a with
  | zero => intro _ h; cases h
  | actions choices ih =>
    intro ha h
    rw [guards] at h
    obtain ⟨action, haction, h⟩ := mem_choicesGuards h
    rcases h with rfl | h
    · exact not_ofPeriod_of_mem_choices ha haction
    · exact ih action haction ((check_actions_eq_ok.mp ha).2 action haction).2 h
  | next rebinds => intro _ h; cases h
  | resume rollout rebinds _ => intro _ h; cases h

end Arrangement

/-! ### Whole runs -/

/-- Every state of a run of a contract is a contract, and `Settled` once an election was made. -/
theorem Run.validate {start a : Arrangement} {made : List Election}
    (hstart : start.validate = .ok ()) (h : Run start made a) :
    a.validate = .ok () ∧ (made ≠ [] → a.Settled) := by
  induction h with
  | start => exact ⟨hstart, fun h => absurd rfl h⟩
  | elect _ helect ih =>
    obtain ⟨hsettled, hvalid⟩ := Arrangement.validate_elect ih.1 helect
    exact ⟨hvalid, fun _ => hsettled⟩

/-- **Runs keep contracts.** From a contract that is `Accepted`, however it came into being, every
`Run` leads only to contracts: `zero` or `actions`, valid, and with `a.guards` that name calendar
dates; and no `elect` on any of them, or on the contract itself, is `unresolved` for want of a
rollout, `cause.isUnbound`. -/
theorem accepted_run_safe {t : Arrangement} (ht : t.Accepted) :
    t.validate = .ok () ∧ ∀ made a, Run t made a →
      (made ≠ [] → (a = .zero ∨ ∃ choices, a = .actions choices) ∧ a.validate = .ok () ∧
        ∀ g ∈ a.guards, g.ofPeriod = false) ∧
      ∀ env actor label day cause,
        a.elect env actor label day = .error (.unresolved cause) → cause.isUnbound = false := by
  have hvalid := Arrangement.validate_of_accepted ht
  refine ⟨hvalid, fun made a hrun => ?_⟩
  obtain ⟨ha, hsettled⟩ := hrun.validate hvalid
  refine ⟨fun hmade => ⟨hsettled hmade, ha, fun g hg => ?_⟩, fun env actor label day cause h => ?_⟩
  · exact a.not_ofPeriod_of_mem_guards ha hg
  · exact Arrangement.elect_not_isUnbound ha h

/-- Two months, over which the variable `cap` is carried, which starts at 1000. -/
def twoMonths : Schedule :=
  ⟨.literal 2015 1 1, .literal 2015 3 1, .monthly, .ofList [("cap", .const (.literal 1000 0))]⟩

/-- `cap` is paid after each month, and is at most 900 in the next. -/
def payEachMonth : Arrangement :=
  .actions [⟨"pay", Party.only ⟨"acmeCorp"⟩, .after .periodEnd,
    [⟨⟨"acmeCorp"⟩, ⟨"highStreetBank"⟩, .state "cap", .usd⟩],
    .next [⟨"cap", .binary .min (.state "cap") (.const (.literal 900 0))⟩]⟩]

/-- The second month of `payEachMonth`, after 1000 was paid for the first. -/
def secondMonth : Arrangement :=
  Rollout.instantiate
    ⟨twoMonths, payEachMonth, 1, twoMonths.initial.insert "cap" (.const (.literal 900 0))⟩

theorem payEachMonth_elect : ∃ t, rollOut twoMonths payEachMonth = .ok t ∧
    t.elect ⟨.empty, .empty⟩ ⟨"acmeCorp"⟩ "pay" (.literal 2015 2 2) =
      .ok ⟨"pay", ⟨"acmeCorp"⟩, .literal 2015 2 2,
        [⟨⟨"acmeCorp"⟩, ⟨"highStreetBank"⟩, .literal 1000 0, .usd⟩], secondMonth⟩ := by
  refine ⟨_, rfl, Arrangement.elect_eq_ok.mpr ⟨_, _, _, rfl, by decide, ?_, rfl⟩⟩
  refine Arrangement.carryOut_eq_ok.mpr ⟨rfl, (Arrangement.settle_resume _ _).trans ?_⟩
  have hstep : Resume.step ⟨.empty, .empty⟩ ⟨⟨twoMonths, payEachMonth, 0, twoMonths.initial⟩,
      [⟨"cap", .binary .min (.const (.literal 1000 0)) (.const (.literal 900 0))⟩]⟩ =
    .ok secondMonth := rfl
  exact (congrArg (· >>= Arrangement.settle _) hstep).trans (Arrangement.settle_actions _ _)

theorem secondMonth_elect (env : Environment) :
    secondMonth.elect env ⟨"acmeCorp"⟩ "pay" (.literal 2015 3 2) =
      .ok ⟨"pay", ⟨"acmeCorp"⟩, .literal 2015 3 2,
        [⟨⟨"acmeCorp"⟩, ⟨"highStreetBank"⟩, .literal 900 0, .usd⟩], .zero⟩ := by
  refine Arrangement.elect_eq_ok.mpr ⟨_, _, _, rfl, by decide, ?_, rfl⟩
  refine Arrangement.carryOut_eq_ok.mpr ⟨rfl, (Arrangement.settle_resume _ _).trans ?_⟩
  exact Arrangement.settle_zero _

theorem payEachMonth_run_safe : ∃ t, rollOut twoMonths payEachMonth = .ok t ∧
    Run t [⟨"pay", ⟨"acmeCorp"⟩, .literal 2015 2 2,
      [⟨⟨"acmeCorp"⟩, ⟨"highStreetBank"⟩, .literal 1000 0, .usd⟩], secondMonth⟩] secondMonth ∧
    secondMonth.validate = .ok () := by
  obtain ⟨t, ht, helect⟩ := payEachMonth_elect
  have hrun := Run.elect .start helect
  exact ⟨t, ht, hrun, (((accepted_run_safe (.rolledOut ht)).2 _ _ hrun).1 (by simp)).2.1⟩

end Covenant
