/-
# Nested rollouts keep their own scope

A contract can stand inside the body of a rollout: it may have been rolled out
itself, over a schedule of its own and with variables of the same names. Binding
the body to a period walks through it and finds nothing to replace: if
`inner.validate = .ok ()`, no state variable and no date of a period is left
open in it, and what is open in the body of a bound rollout is not walked into.
So `inner.bind r p` is `inner` in every period of the rollout outside, and once
it is elected into, nothing that follows depends on that rollout.

Key definitions: `Turn`, `Arrangement.at?`, `Arrangement.Takes`,
`Arrangement.Arrives`.
Key theorems: `Arrangement.bind_of_validate`, `Arrangement.at?_bind`,
`Arrangement.Arrives.eq_bind`, `nested_scope_kept`.
-/
import Covenant.Proofs.Interpreter
import Covenant.Proofs.Run

namespace Covenant

/-! ### Binding a contract -/

theorem Obligation.bind_of_closed {o : Obligation} (h : o.amount.Closed) (start finish : Date)
    (vars : OrderedMap String Amount) : o.bind start finish vars = o := by
  rw [bind, h.bind_eq]

namespace Arrangement

variable {r : Rollout Arrangement} {p : Period}

/-- An action that passes in `Scope.topLevel`, before a continuation that binding leaves alone, is
left alone. -/
theorem bindAction_of_checkAction {x : Action Arrangement}
    (h : Scope.topLevel.checkAction x.label x.actors x.guard x.effects = .ok ())
    (hcontinuation : x.continuation.bind r p = x.continuation) : bindAction r p x = x := by
  obtain ⟨-, hguard, heffects⟩ := Scope.checkAction_eq_ok.mp h
  have hofPeriod : x.guard.ofPeriod = false :=
    Bool.eq_false_iff.mpr fun h => Bool.noConfusion (hguard h)
  have hbound : x.effects.map (Obligation.bind p.start p.finish r.vars) = x.effects :=
    (List.map_congr_left fun o ho => Obligation.bind_of_closed (heffects o ho) ..).trans
      (List.map_id _)
  rw [bindAction, Guard.bind_of_not_ofPeriod hofPeriod, hbound, hcontinuation]

/-- **Nothing in a contract is bound** by a rollout outside: `a.bind r p = a`. -/
theorem bind_of_validate (a : Arrangement) : a.validate = .ok () → a.bind r p = a := by
  induction a with
  | zero => intro _; rw [bind]
  | actions choices ih =>
    intro h
    obtain ⟨-, hall⟩ := check_actions_eq_ok.mp h
    rw [bind_actions]
    congr 1
    refine (List.map_congr_left fun x hx => ?_).trans (List.map_id choices)
    obtain ⟨haction, hcontinuation⟩ := hall x hx
    exact bindAction_of_checkAction haction (ih x hx hcontinuation)
  | next rebinds => intro h; cases h
  | resume rollout rebinds _ => intro _; rw [bind]

theorem choices_bind (a : Arrangement) :
    (a.bind r p).choices = a.choices.map (bindAction r p) := by
  cases a with
  | actions choices => rw [bind_actions]; rfl
  | zero | next _ | resume _ => rw [bind]; rfl

end Arrangement

/-! ### Places -/

/-- One turn on the way down a tree: `action i`, behind that action of a node, or `body`, into the
body of a bound rollout. -/
inductive Turn where
  | action (index : Nat)
  | body

namespace Arrangement

/-- What stands in a tree where these turns lead to. -/
def at? : List Turn → Arrangement → Option Arrangement
  | [], a => some a
  | .action i :: place, a => a.choices[i]?.bind fun x => x.continuation.at? place
  | .body :: place, resume r => r.rollout.body.at? place
  | .body :: _, _ => none

variable {r : Rollout Arrangement} {p : Period} {inner : Arrangement}

/-- **A contract stands where it stood**, after the tree around it was bound to a period: at the
same turns of `a.bind r p`. -/
theorem at?_bind (h : inner.validate = .ok ()) : ∀ {place : List Turn} {a : Arrangement},
    a.at? place = some inner → (a.bind r p).at? place = some inner
  | [], a, ha => by
    cases ha
    rw [at?, bind_of_validate inner h]
  | .action i :: place, a, ha => by
    obtain ⟨x, hx, hinner⟩ := Option.bind_eq_some_iff.mp ha
    rw [at?, choices_bind, List.getElem?_map, hx]
    exact at?_bind h hinner
  | .body :: place, a, ha => by
    cases a with
    | resume q => rwa [bind]
    | zero | next _ | actions _ => cases ha

/-- The way behind action `i` leads through its `continuation`. -/
theorem at?_action_eq_some {i : Nat} {way : List Nat} {a b : Arrangement} :
    a.at? ((i :: way).map .action) = some b ↔
      ∃ x, a.choices[i]? = some x ∧ x.continuation.at? (way.map .action) = some b := by
  rw [List.map_cons, at?, Option.bind_eq_some_iff]

theorem at?_append {a : Arrangement} {way way' : List Nat} :
    a.at? ((way ++ way').map .action) =
      (a.at? (way.map .action)).bind fun b => b.at? (way'.map .action) := by
  induction way generalizing a with
  | nil => rfl
  | cons i way ih =>
    rw [List.cons_append, List.map_cons, List.map_cons, at?, at?]
    cases a.choices[i]? with
    | none => rfl
    | some x => exact ih

/-- A way down that is not at its end is at a set of actions. -/
theorem choices_ne_nil_of_at? {way : List Nat} {a b : Arrangement}
    (h : a.at? (way.map .action) = some b) (hb : b.choices ≠ []) : a.choices ≠ [] := by
  cases way with
  | nil =>
    cases h
    exact hb
  | cons i way =>
    obtain ⟨x, hx, -⟩ := at?_action_eq_some.mp h
    exact List.ne_nil_of_mem (List.mem_of_getElem? hx)

/-! ### Elections on the way -/

/-- A step of a log that elects action `x`, at index `i` of `a`, and comes to `payments`. -/
structure Takes (a : Arrangement) (env : Environment) (step : LogStep) (i : Nat)
    (x : Action Arrangement) (payments : List Payment) : Prop where
  at_index : a.choices[i]? = some x
  opened : a.open? step.label step.day = some x
  permitted : x.actors.contains step.actor = true
  paid : resolveAll env x.effects = .ok payments

/-- `a.elect` then leaves what `x.continuation` settles to, or fails as that does. -/
theorem Takes.elect_eq {a : Arrangement} {env : Environment} {step : LogStep} {i : Nat}
    {x : Action Arrangement} {payments : List Payment} (h : a.Takes env step i x payments) :
    a.elect env step.actor step.label step.day =
      ((x.continuation.settle env).map fun s =>
        ⟨step.label, step.actor, step.day, payments, s⟩).mapError .unresolved := by
  cases hsettle : x.continuation.settle env with
  | error cause =>
    refine elect_eq_unresolved.mpr ⟨x, h.opened, h.permitted, ?_⟩
    rw [carryOut, h.paid, hsettle]
    rfl
  | ok s => exact elect_eq_ok.mpr ⟨x, payments, s, h.opened, h.permitted,
      carryOut_eq_ok.mpr ⟨h.paid, hsettle⟩, rfl⟩

/-- `a.Arrives way log t`: the log elects the actions at these indices one after another, and `t` is
left when it got there. -/
inductive Arrives : Arrangement → List Nat → List (Environment × LogStep) → Arrangement → Prop where
  | here {a : Arrangement} : Arrives a [] [] a
  | elect {a b t : Arrangement} {env : Environment} {step : LogStep} {i : Nat}
      {x : Action Arrangement} {payments : List Payment} {way : List Nat}
      {log : List (Environment × LogStep)} :
      a.Takes env step i x payments → x.continuation.settle env = .ok b →
      Arrives b way log t → Arrives a (i :: way) ((env, step) :: log) t

theorem settle_of_choices_ne_nil {env : Environment} {a : Arrangement} (h : a.choices ≠ []) :
    a.settle env = .ok a := by
  cases a with
  | actions choices => exact settle_actions env choices
  | zero | next _ | resume _ => exact absurd rfl h

/-- On the way down a body that is bound to a period, a log is at `b.bind r p`, for the nodes `b` of
the body. -/
theorem Arrives.eq_bind {way : List Nat} {a b t : Arrangement}
    {log : List (Environment × LogStep)} (hb : b.choices ≠ [])
    (ha : a.at? (way.map .action) = some b) (h : (a.bind r p).Arrives way log t) :
    t = b.bind r p := by
  induction way generalizing a log with
  | nil =>
    cases ha
    cases h
    rfl
  | cons i way ih =>
    obtain ⟨y, hy, hat⟩ := at?_action_eq_some.mp ha
    cases h with
    | elect htakes hsettle hrest =>
      have hx := htakes.at_index
      rw [choices_bind, List.getElem?_map, hy] at hx
      cases hx
      have hchoices : (y.continuation.bind r p).choices ≠ [] := by
        rw [choices_bind]
        exact List.map_eq_nil_iff.not.mpr (choices_ne_nil_of_at? hat hb)
      have hstays := (settle_of_choices_ne_nil hchoices).symm.trans hsettle
      cases hstays
      exact ih hat hrest

/-! ### Answers on the way -/

theorem Takes.answers_cons {a s : Arrangement} {env : Environment} {step : LogStep} {i : Nat}
    {x : Action Arrangement} {payments : List Payment} (h : a.Takes env step i x payments)
    (hsettle : x.continuation.settle env = .ok s) (log : List (Environment × LogStep)) :
    a.answers ((env, step) :: log) = ⟨.ok payments, s.isZero⟩ :: s.answers log := by
  rw [Arrangement.answers, Covenant.answers, h.elect_eq, hsettle]
  rfl

theorem Arrives.answers_append {a t : Arrangement} {way : List Nat}
    {log : List (Environment × LogStep)} (h : a.Arrives way log t)
    (rest : List (Environment × LogStep)) :
    a.answers (log ++ rest) = a.answers log ++ t.answers rest := by
  induction h with
  | here => rfl
  | elect htakes hsettle _ ih =>
    rw [List.cons_append, htakes.answers_cons hsettle, htakes.answers_cons hsettle, ih,
      List.cons_append]

end Arrangement

/-- **Nested rollouts keep their own scope.** If `inner.validate = .ok ()`, no rollout outside binds
anything in it, `inner.bind r period = inner`, so it stands unchanged in `r.instantiate`, at each
period of a rollout in whose body it stands. A log that `Arrives` there, and then `Takes` the action
before it, is left with what `inner` by itself settles to in the environment of that election, and
gets the answers of that from then on: there is nothing in them of `r`, its period or its
variables. -/
theorem nested_scope_kept {inner : Arrangement} (h : inner.validate = .ok ()) :
    (∀ (r : Rollout Arrangement) (period : Period), inner.bind r period = inner) ∧
    ∀ r : Rollout Arrangement, (r.schedule.period? r.period).isSome →
      (∀ place, r.body.at? place = some inner → r.instantiate.at? place = some inner) ∧
      ∀ way i, r.body.at? ((way ++ [i]).map .action) = some inner →
        ∀ log t, r.instantiate.Arrives way log t →
          ∀ env step x payments, t.Takes env step i x payments →
            x.continuation = inner ∧
            t.elect env step.actor step.label step.day = ((inner.settle env).map fun s =>
              ⟨step.label, step.actor, step.day, payments, s⟩).mapError .unresolved ∧
            ∀ s, inner.settle env = .ok s → ∀ further,
              r.instantiate.answers (log ++ (env, step) :: further) =
                r.instantiate.answers log ++ ⟨.ok payments, s.isZero⟩ :: s.answers further := by
  refine ⟨fun r period => inner.bind_of_validate h, fun r hperiod => ?_⟩
  obtain ⟨p, hp⟩ := Option.isSome_iff_exists.mp hperiod
  rw [Rollout.instantiate_of_period hp]
  refine ⟨fun place hplace => Arrangement.at?_bind h hplace, ?_⟩
  intro way i hplace log t harrives env step x payments htakes
  rw [Arrangement.at?_append] at hplace
  obtain ⟨node, hnode, hlast⟩ := Option.bind_eq_some_iff.mp hplace
  obtain ⟨y, hy, hinner⟩ := Arrangement.at?_action_eq_some.mp hlast
  have hx : x.continuation = inner := by
    have hat := htakes.at_index
    rw [harrives.eq_bind (List.ne_nil_of_mem (List.mem_of_getElem? hy)) hnode,
      Arrangement.choices_bind, List.getElem?_map, hy] at hat
    cases hat
    cases hinner
    exact Arrangement.bind_of_validate _ h
  refine ⟨hx, hx ▸ htakes.elect_eq, fun s hs further => ?_⟩
  rw [harrives.answers_append, htakes.answers_cons (hx ▸ hs)]

/-- The contract `payEachMonth`, as it is rolled out. -/
def monthsAhead : Arrangement := Rollout.instantiate ⟨twoMonths, payEachMonth, 0, twoMonths.initial⟩

/-- A body over a variable of the same name, with these months behind its first action. -/
def enterOrSkip : Arrangement :=
  .actions [⟨"enter", Party.only ⟨"acmeCorp"⟩, .anytime,
      [⟨⟨"acmeCorp"⟩, ⟨"highStreetBank"⟩, .state "cap", .usd⟩], monthsAhead⟩,
    ⟨"skip", Party.only ⟨"acmeCorp"⟩, .anytime, [], .next []⟩]

/-- The body `enterOrSkip` in one of its two months, with a value for its variable. -/
def enterOrSkipAt (period : Nat) (cap : Decimal) : Rollout Arrangement :=
  ⟨twoMonths, enterOrSkip, period, .ofList [("cap", .const cap)]⟩

theorem enterOrSkip_scope_kept :
    (∀ further, (enterOrSkipAt 0 (.literal 500 0)).instantiate.answers
      ((⟨.empty, .empty⟩, ⟨⟨"acmeCorp"⟩, "enter", .literal 2015 2 2⟩) :: further) =
        ⟨.ok [⟨⟨"acmeCorp"⟩, ⟨"highStreetBank"⟩, .literal 500 0, .usd⟩], false⟩ ::
          monthsAhead.answers further) ∧
    ∀ further, (enterOrSkipAt 1 (.literal 7 0)).instantiate.answers
      ((⟨.empty, .empty⟩, ⟨⟨"acmeCorp"⟩, "enter", .literal 2015 2 2⟩) :: further) =
        ⟨.ok [⟨⟨"acmeCorp"⟩, ⟨"highStreetBank"⟩, .literal 7 0, .usd⟩], false⟩ ::
          monthsAhead.answers further := by
  have hrolled : rollOut twoMonths payEachMonth = .ok monthsAhead := rfl
  have hvalid : monthsAhead.validate = .ok () :=
    Arrangement.validate_rollOut hrolled
  have hsettle : monthsAhead.settle ⟨.empty, .empty⟩ = .ok monthsAhead :=
    Arrangement.settle_actions _ _
  obtain ⟨-, hnested⟩ := nested_scope_kept hvalid
  refine ⟨fun further => ?_, fun further => ?_⟩
  · obtain ⟨-, hinto⟩ := hnested (enterOrSkipAt 0 (.literal 500 0)) rfl
    exact (hinto [] 0 rfl [] _ .here _ _ _ _ ⟨rfl, rfl, by decide, rfl⟩).2.2 _ hsettle further
  · obtain ⟨-, hinto⟩ := hnested (enterOrSkipAt 1 (.literal 7 0)) rfl
    exact (hinto [] 0 rfl [] _ .here _ _ _ _ ⟨rfl, rfl, by decide, rfl⟩).2.2 _ hsettle further

end Covenant
