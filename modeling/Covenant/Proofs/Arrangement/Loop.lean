/-
# Settling is a loop that ends

Settling goes round as long as it is at a bound directive: each round, `r.step
env`, goes one period further. A round leads to nothing, to actions, to a later
period of a rollout whose body is just `next`, or into a bound directive that is
itself the body. So the rounds that there can be are read off the tree, whether
or not it is valid: `a.rounds` is one for each bound directive on the way in,
and one for each period that is left where the body is just `next`. No round
leads to a `next` that is bound to no rollout, which is an error only where the
loop starts at one.

Key definitions: `Arrangement.settleWithin`, `Arrangement.rounds`,
`Arrangement.Passes`, `Arrangement.exhaust`.
Key theorems: `Arrangement.rounds_step_lt`, `Arrangement.settleWithin_eq`,
`Arrangement.Passes.add_rounds_le`, `Arrangement.settle_eq_exhaust`,
`settling_ends`.
-/
import Covenant.Proofs.Arrangement.Related
import Covenant.Proofs.Schedule.Lookup

namespace Covenant

/-- `rebindAll` fails as the first of the rebinds that has no value. -/
theorem rebindAll_eq_error_valued {env : Environment} {cause : EvalError} :
    ∀ {rebinds : List Rebind} {vars : OrderedMap String Amount},
    rebindAll env vars rebinds = .error cause →
    ∃ x, Amount.Valued env (rebinds.map Rebind.value) x ∧ x.value env = .error cause
  | [], _, h => nomatch h
  | r :: rest, vars, h => by
    rcases bind_eq_error.mp h with h | ⟨value, hvalue, h⟩
    · exact ⟨r.value, .head .., h⟩
    · obtain ⟨x, hx, hfails⟩ := rebindAll_eq_error_valued h
      exact ⟨x, .tail hvalue hx, hfails⟩

namespace Arrangement

variable {env : Environment}

/-! ### One round -/

/-- What is bound to a period is no `next`: that has become a `resume`. -/
theorem bind_ne_next (r : Rollout Arrangement) (p : Period) (a : Arrangement)
    (rebinds : List Rebind) : a.bind r p ≠ next rebinds := by
  cases a <;> simp [bind]

theorem step_ne_next {r : Resume Arrangement} {rebinds : List Rebind} :
    r.step env ≠ .ok (next rebinds) := by
  intro h
  rcases Resume.step_eq_ok.mp h with ⟨-, h⟩ | ⟨p, vars, -, -, h⟩
  · cases h
  · exact bind_ne_next _ _ _ _ h.symm

/-- A round fails as the value `x` of a rebind of its directive. -/
theorem step_eq_error_valued {r : Resume Arrangement} {cause : EvalError}
    (h : r.step env = .error cause) :
    ∃ x, (resume r).Revalues env x ∧ x.value env = .error cause := by
  obtain ⟨hnext, hrebinds⟩ := Resume.step_eq_error.mp h
  obtain ⟨p, hp⟩ := Option.isSome_iff_exists.mp hnext
  obtain ⟨x, hx, hfails⟩ := rebindAll_eq_error_valued hrebinds
  exact ⟨x, .here hp hx, hfails⟩

/-! ### How many rounds there can be -/

/-- Whether this is a `next`, a directive that is bound to no rollout. -/
def isNext : Arrangement → Bool
  | next _ => true
  | _ => false

/-- No loop that settles the tree goes round more often: at a `resume` once, once more for each
period left if the body is just `next`, and as often as the body does. -/
def rounds : Arrangement → Nat
  | resume ⟨⟨schedule, body, period, _⟩, _⟩ =>
    body.rounds + 1 + if body.isNext then schedule.periodCount - (period + 1) else 0
  | zero | actions _ | next _ => 0

theorem rounds_resume (r : Rollout Arrangement) (rebinds : List Rebind) :
    (resume ⟨r, rebinds⟩).rounds =
      r.body.rounds + 1 + if r.body.isNext then r.schedule.periodCount - (r.period + 1) else 0 := by
  obtain ⟨schedule, body, period, vars⟩ := r
  rw [rounds]

/-- **Every round uses one up** of `rounds`. -/
theorem rounds_step_lt {r : Resume Arrangement} {a : Arrangement} (h : r.step env = .ok a) :
    a.rounds < (resume r).rounds := by
  obtain ⟨r, rebinds⟩ := r
  rw [rounds_resume]
  rcases Resume.step_eq_ok.mp h with ⟨-, rfl⟩ | ⟨p, vars, hp, -, rfl⟩
  · rw [rounds]
    omega
  · have hindex : r.period + 1 < r.schedule.periodCount :=
      Schedule.isSome_period?_iff_lt.mp (by rw [hp]; rfl)
    cases hbody : r.body with
    | zero =>
      rw [bind, rounds]
      omega
    | actions choices =>
      rw [bind, rounds]
      omega
    | next rebinds' =>
      rw [bind, rounds_resume, Rollout.following, hbody]
      simp only [rounds, isNext, ↓reduceIte]
      omega
    | resume inner =>
      rw [bind]
      omega

/-- The loop of `settle`, with `none` if it has not ended after so many rounds. Here a round is an
unfolding that is counted, whatever the tree. -/
def settleWithin (env : Environment) :
    (rounds : Nat) → Arrangement → Option (Except EvalError Arrangement)
  | 0, _ => none
  | n + 1, resume r =>
    match r.step env with
    | .error cause => some (.error cause)
    | .ok a => a.settleWithin env n
  | _ + 1, next rebinds => some (.error (.unboundDirective rebinds))
  | _ + 1, zero => some (.ok zero)
  | _ + 1, actions choices => some (.ok (actions choices))

/-- **The loop ends**, as `a.settle env` does, if it may go round more often than `a.rounds`. -/
theorem settleWithin_eq {n : Nat} {a : Arrangement} (h : a.rounds < n) :
    a.settleWithin env n = some (a.settle env) := by
  induction n generalizing a with
  | zero => exact absurd h (Nat.not_lt_zero _)
  | succ n ih =>
    cases a with
    | zero => rw [settleWithin, settle_zero]
    | actions choices => rw [settleWithin, settle_actions]
    | next rebinds => rw [settleWithin, settle_next]
    | resume r =>
      rw [settleWithin, settle_resume]
      cases hstep : r.step env with
      | error cause => rfl
      | ok b => exact ih (Nat.lt_of_lt_of_le (rounds_step_lt hstep) (Nat.le_of_lt_succ h))

/-- A loop that has ended has come to `a.settle env`. -/
theorem settleWithin_eq_some {n : Nat} {a : Arrangement} {result : Except EvalError Arrangement}
    (h : a.settleWithin env n = some result) : result = a.settle env := by
  induction n generalizing a with
  | zero => cases h
  | succ n ih =>
    cases a with
    | zero =>
      rw [settle_zero]
      exact (Option.some.inj h).symm
    | actions choices =>
      rw [settle_actions]
      exact (Option.some.inj h).symm
    | next rebinds =>
      rw [settle_next]
      exact (Option.some.inj h).symm
    | resume r =>
      rw [settleWithin] at h
      rw [settle_resume]
      cases hstep : r.step env with
      | error cause =>
        rw [hstep] at h
        exact (Option.some.inj h).symm
      | ok b =>
        rw [hstep] at h
        exact ih h

/-! ### Where the loop comes by -/

/-- `a.Passes env n b`: after `n` rounds the loop that settles `a` is at `b`. -/
inductive Passes (env : Environment) (a : Arrangement) : Nat → Arrangement → Prop where
  | start : Passes env a 0 a
  | round {n : Nat} {r : Resume Arrangement} {b : Arrangement} :
      Passes env a n (resume r) → r.step env = .ok b → Passes env a (n + 1) b

/-- The rounds made and those that may follow are together never more than `a.rounds`. -/
theorem Passes.add_rounds_le {a b : Arrangement} {n : Nat} (h : a.Passes env n b) :
    n + b.rounds ≤ a.rounds := by
  induction h with
  | start => exact Nat.le_of_eq (Nat.zero_add _)
  | round _ hstep ih =>
    have hlt := rounds_step_lt hstep
    omega

/-- At each `resume` that settling comes by first, `period + 1` is an index in 64 bits. -/
def HasNextIndex : Arrangement → Prop
  | resume ⟨⟨_, body, period, _⟩, _⟩ => period + 1 < UInt64.size ∧ body.HasNextIndex
  | zero | actions _ | next _ => True

theorem hasNextIndex_resume {r : Rollout Arrangement} {rebinds : List Rebind} :
    (resume ⟨r, rebinds⟩).HasNextIndex ↔ r.period + 1 < UInt64.size ∧ r.body.HasNextIndex := by
  obtain ⟨schedule, body, period, vars⟩ := r
  rw [HasNextIndex]

/-- A round leads to an index below `periodCount`, and so to one far below 64 bits. -/
theorem HasNextIndex.step {r : Resume Arrangement} {a : Arrangement}
    (hr : (resume r).HasNextIndex) (h : r.step env = .ok a) : a.HasNextIndex := by
  obtain ⟨r, rebinds⟩ := r
  obtain ⟨-, hbody⟩ := hasNextIndex_resume.mp hr
  rcases Resume.step_eq_ok.mp h with ⟨-, rfl⟩ | ⟨p, vars, hp, -, rfl⟩
  · rw [HasNextIndex]
    trivial
  · have hspan := Schedule.lt_of_period?_eq_some hp
    cases hb : r.body with
    | zero =>
      rw [bind, HasNextIndex]
      trivial
    | actions choices =>
      rw [bind, HasNextIndex]
      trivial
    | next rebinds' =>
      rw [bind]
      have hsize : Schedule.span + 1 < UInt64.size := by decide
      exact hasNextIndex_resume.mpr
        ⟨show r.period + 1 + 1 < UInt64.size by omega, hbody⟩
    | resume inner =>
      rw [bind, ← hb]
      exact hbody

/-- **No index is counted past 64 bits**, unless one was at the end from the start: `HasNextIndex`
is kept. -/
theorem Passes.hasNextIndex {a b : Arrangement} {n : Nat} (h : a.Passes env n b)
    (ha : a.HasNextIndex) : b.HasNextIndex := by
  induction h with
  | start => exact ha
  | round _ hstep ih => exact ih.step hstep

/-! ### What the loop comes to -/

/-- What `a.settle env` comes to is `Settled`, nothing or a set of actions, whether or not `a` is
valid. -/
theorem settled_of_settle (a : Arrangement) {b : Arrangement} (h : a.settle env = .ok b) :
    b.Settled :=
  (a.settle_keeps (P := fun _ => True) (fun _ _ => trivial) trivial h).1

/-- `a.settle env` fails at once, at a `next`, or as a rebind that it `Revalues`. -/
theorem settle_eq_error_valued (a : Arrangement) {cause : EvalError}
    (h : a.settle env = .error cause) :
    (∃ rebinds, a = next rebinds ∧ cause = .unboundDirective rebinds) ∨
      ∃ x, a.Revalues env x ∧ x.value env = .error cause := by
  -- what is revalued later is revalued from the start, and no round leads to a `next`
  have hfails := a.settle_fails (P := fun b => (∀ x, b.Revalues env x → a.Revalues env x) ∧
      ∀ rebinds, b = next rebinds → a = next rebinds)
    (fun hr hstep => ⟨fun x hx => hr.1 x (.later hstep hx),
      fun rebinds hnext => absurd (hnext ▸ hstep) step_ne_next⟩)
    ⟨fun _ => id, fun _ => id⟩ h
  rcases hfails with ⟨rebinds, ha, rfl⟩ | ⟨r, ha, hstep⟩
  · exact .inl ⟨rebinds, ha.2 rebinds rfl, rfl⟩
  · obtain ⟨x, hx, hvalue⟩ := step_eq_error_valued hstep
    exact .inr ⟨x, ha.1 x hx, hvalue⟩

/-! ### Bodies that are directives -/

/-- One round of `settle`, and settling from where it leads: after the last period nothing is
left. -/
theorem settle_round (r : Rollout Arrangement) (rebinds : List Rebind) :
    (resume ⟨r, rebinds⟩).settle env =
      match r.schedule.period? (r.period + 1) with
      | none => .ok zero
      | some p => rebindAll env r.vars rebinds >>= fun vars =>
          (r.body.bind (r.following vars) p).settle env := by
  rw [settle_resume, Resume.step]
  dsimp only
  cases r.schedule.period? (r.period + 1) with
  | none => exact settle_zero env
  | some p =>
    cases rebindAll env r.vars rebinds <;> rfl

/-- What becomes of a rollout whose body is `next body`: before each of the periods that are left,
the rebinds of the one before it are valued. -/
def exhaust (env : Environment) (body : List Rebind) :
    OrderedMap String Amount → List Rebind → List Period → Except EvalError Arrangement
  | _, _, [] => .ok zero
  | vars, rebinds, p :: rest => do
    let vars ← rebindAll env vars rebinds
    exhaust env body vars (body.map (Rebind.bind p.start p.finish vars)) rest

/-- **A body that is just `next`** runs through all periods that are left. -/
theorem settle_eq_exhaust {body : List Rebind} {r : Rollout Arrangement} {rebinds : List Rebind}
    (hbody : r.body = next body) : (resume ⟨r, rebinds⟩).settle env =
      exhaust env body r.vars rebinds (r.schedule.periods.drop (r.period + 1)) := by
  induction hahead : r.schedule.periods.drop (r.period + 1) generalizing r rebinds with
  | nil =>
    have hnone : r.schedule.period? (r.period + 1) = none := by
      rw [← Schedule.getElem?_periods]
      exact List.getElem?_eq_none (List.drop_eq_nil_iff.mp hahead)
    rw [settle_round, hnone, exhaust]
  | cons p rest ih =>
    have hsome : r.schedule.period? (r.period + 1) = some p := by
      rw [← Schedule.getElem?_periods, ← List.head?_drop, hahead]
      rfl
    have hrest : r.schedule.periods.drop (r.period + 1 + 1) = rest := by
      rw [← List.tail_drop, hahead]
      rfl
    rw [settle_round, hsome, exhaust]
    dsimp only
    cases rebindAll env r.vars rebinds with
    | error cause => rfl
    | ok vars =>
      have hbound : r.body.bind (r.following vars) p = resume ⟨r.following vars,
          body.map (Rebind.bind p.start p.finish vars)⟩ := by
        rw [hbody, bind]
        rfl
      exact (congrArg (settle env) hbound).trans (ih hbody hrest)

/-- **A body that is a `resume`** is gone into, once the rebinds have values. -/
theorem settle_of_resume_body {inner : Resume Arrangement} {r : Rollout Arrangement}
    {rebinds : List Rebind} (hbody : r.body = resume inner) :
    (resume ⟨r, rebinds⟩).settle env =
      if r.isFinal then .ok zero
      else rebindAll env r.vars rebinds >>= fun _ => (resume inner).settle env := by
  rw [settle_round, Rollout.isFinal, Schedule.isFinal]
  cases r.schedule.period? (r.period + 1) with
  | none => rfl
  | some p =>
    simp only [hbody, bind]
    rfl

end Arrangement

/-- **Settling ends.** However a tree `a` came about, the loop that settles it has come to
`a.settle env` after `a.rounds` rounds at most: `settleWithin` more rounds than these gives that
result, whenever it gives one it is that, and what the loop `Passes` keeps `HasNextIndex`, so no
index is counted past 64 bits. The result is `zero` or `actions`. Or it is an error:
`unboundDirective` at once, if `a` is a `next`, and otherwise that of an amount which
`a.Revalues env`, and never an `unboundDirective`. A rollout whose body is just `next` runs through
its periods as `exhaust` does; one whose body is a bound directive goes on with that. -/
theorem settling_ends (env : Environment) (a : Arrangement) :
    (∀ n, a.rounds < n → a.settleWithin env n = some (a.settle env)) ∧
    (∀ n result, a.settleWithin env n = some result → result = a.settle env) ∧
    (∀ n b, a.Passes env n b → n ≤ a.rounds ∧ (a.HasNextIndex → b.HasNextIndex)) ∧
    (∀ b, a.settle env = .ok b → b = .zero ∨ ∃ choices, b = .actions choices) ∧
    (∀ cause, a.settle env = .error cause →
      (∃ rebinds, a = .next rebinds ∧ cause = .unboundDirective rebinds) ∨
      (∃ x, a.Revalues env x ∧ x.value env = .error cause) ∧
        ∀ rebinds, cause ≠ .unboundDirective rebinds) ∧
    ∀ (r : Rollout Arrangement) (rebinds : List Rebind), a = .resume ⟨r, rebinds⟩ →
      (∀ body, r.body = .next body → a.settle env =
        Arrangement.exhaust env body r.vars rebinds (r.schedule.periods.drop (r.period + 1))) ∧
      ∀ inner, r.body = .resume inner → a.settle env =
        if r.isFinal then .ok .zero
        else rebindAll env r.vars rebinds >>= fun _ => (Arrangement.resume inner).settle env := by
  refine ⟨fun n => Arrangement.settleWithin_eq, fun n result => Arrangement.settleWithin_eq_some,
    fun n b h => ⟨?_, h.hasNextIndex⟩, fun b => a.settled_of_settle, fun cause h => ?_, ?_⟩
  · exact Nat.le_trans (Nat.le_add_right _ _) h.add_rounds_le
  · rcases a.settle_eq_error_valued h with hnext | ⟨x, hx, hfails⟩
    · exact .inl hnext
    · refine .inr ⟨⟨x, hx, hfails⟩, ?_⟩
      rintro rebinds rfl
      exact x.value_ne_unboundDirective hfails
  · rintro r rebinds rfl
    exact ⟨fun body => Arrangement.settle_eq_exhaust,
      fun inner => Arrangement.settle_of_resume_body⟩

/-- At the first of the two months, a `resume` of a rollout that does nothing else. -/
def onlyNext (rebinds : List Rebind) : Arrangement :=
  .resume ⟨⟨twoMonths, .next [⟨"cap", .state "floor"⟩], 0, twoMonths.initial⟩, rebinds⟩

/-- The body reads a variable that is not declared, but only after the last month: the loop values
`rebinds` of the first month and ends. -/
theorem onlyNext_settles :
    (onlyNext [⟨"cap", .var "unknown"⟩]).settle ⟨.empty, .empty⟩ =
      .error (.unboundVariable "unknown") ∧
    (onlyNext []).settle ⟨.empty, .empty⟩ = .ok .zero ∧ (onlyNext []).rounds = 2 ∧
    (onlyNext []).settleWithin ⟨.empty, .empty⟩ 3 = some (.ok .zero) := by
  have hends := fun rebinds => settling_ends ⟨.empty, .empty⟩ (onlyNext rebinds)
  have hexhaust := fun rebinds => ((hends rebinds).2.2.2.2.2 _ _ rfl).1 _ rfl
  have hzero : (onlyNext []).settle ⟨.empty, .empty⟩ = .ok .zero := (hexhaust []).trans rfl
  have hrounds : (onlyNext []).rounds = 2 := by decide
  refine ⟨(hexhaust _).trans rfl, hzero, hrounds, ?_⟩
  rw [(hends []).1 3 (by rw [hrounds]; decide), hzero]

end Covenant
