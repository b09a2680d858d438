/-
# Settling keeps contracts

The next period of a valid rollout is valid again, so if `a.validate = .ok ()`
and the rebinds that settling values have values, `a.settle env` is a valid tree
that is nothing or a set of actions. If it fails, a rebind has no value, and
never for want of a rollout: `cause.isUnbound = false`.

Key definitions: `Arrangement.Settled`.
Key theorems: `Rollout.Valid.next`, `Arrangement.validate_step`,
`Arrangement.settle_keeps`, `Arrangement.settle_fails`,
`Arrangement.settle_eq_ok`, `Arrangement.settle_eq_error`.
-/
import Covenant.Proofs.Arrangement.Validity

namespace Covenant

/-! ### Rebinds -/

theorem rebindAll_keys {env : Environment} : ∀ {rebinds : List Rebind}
    {vars vars' : OrderedMap String Amount}, (∀ r ∈ rebinds, r.name ∈ vars.keys) →
    rebindAll env vars rebinds = .ok vars' → vars'.keys = vars.keys
  | [], vars, vars', _, h => by cases h; rfl
  | r :: rest, vars, vars', hnames, h => by
    obtain ⟨value, -, h⟩ := bind_eq_ok.mp h
    have hkeys : (vars.insert r.name (.const value)).keys = vars.keys :=
      OrderedMap.keys_insert_of_mem (hnames r List.mem_cons_self)
    rw [← hkeys]
    refine rebindAll_keys (fun x hx => ?_) h
    rw [hkeys]
    exact hnames x (List.mem_cons_of_mem _ hx)

theorem rebindAll_closed {env : Environment} : ∀ {rebinds : List Rebind}
    {vars vars' : OrderedMap String Amount}, (∀ e ∈ vars.entries, e.2.Closed) →
    rebindAll env vars rebinds = .ok vars' → ∀ e ∈ vars'.entries, e.2.Closed
  | [], vars, vars', hclosed, h => by cases h; exact hclosed
  | r :: rest, vars, vars', hclosed, h => by
    obtain ⟨value, -, h⟩ := bind_eq_ok.mp h
    refine rebindAll_closed (fun e he => ?_) h
    rcases OrderedMap.mem_insertEntry he with rfl | he
    · exact Amount.closed_const value
    · exact hclosed e he

theorem rebindAll_eq_error {env : Environment} {cause : EvalError} : ∀ {rebinds : List Rebind}
    {vars : OrderedMap String Amount}, rebindAll env vars rebinds = .error cause →
    ∃ r ∈ rebinds, r.value.value env = .error cause
  | [], vars, h => by cases h
  | r :: rest, vars, h => by
    rcases bind_eq_error.mp h with h | ⟨value, -, h⟩
    · exact ⟨r, List.mem_cons_self, h⟩
    · obtain ⟨x, hx, hvalue⟩ := rebindAll_eq_error h
      exact ⟨x, List.mem_cons_of_mem _ hx, hvalue⟩

/-- The next period of a valid rollout, if there is one, is a valid rollout. -/
theorem Rollout.Valid.next {r : Rollout Arrangement} (h : r.Valid) {env : Environment}
    {rebinds : List Rebind} {vars : OrderedMap String Amount}
    (hrebinds : Scope.topLevel.checkRebinds r.schedule.initial.keys [] rebinds = .ok ())
    (hvars : rebindAll env r.vars rebinds = .ok vars)
    (hperiod : (r.schedule.period? (r.period + 1)).isSome) :
    Rollout.Valid { r with period := r.period + 1, vars := vars } where
  schedule_ok := h.schedule_ok
  keys_eq := by
    have hnames : ∀ x ∈ rebinds, x.name ∈ r.vars.keys := fun x hx =>
      h.keys_eq ▸ ((Scope.checkRebinds_eq_ok.mp hrebinds).1 x hx).1
    exact (rebindAll_keys hnames hvars).trans h.keys_eq
  period_isSome := hperiod
  closed := rebindAll_closed h.closed hvars
  body_ok := h.body_ok

namespace Arrangement

/-! ### One period further -/

/-- One period further, `r.step env`, a valid directive is a valid tree. -/
theorem validate_step {env : Environment} {r : Resume Arrangement} {a : Arrangement}
    (hr : (resume r).validate = .ok ()) (h : r.step env = .ok a) : a.validate = .ok () := by
  obtain ⟨rollout, rebinds⟩ := r
  obtain ⟨hvalid, hrebinds⟩ := check_resume_eq_ok.mp hr
  rcases Resume.step_eq_ok.mp h with ⟨-, rfl⟩ | ⟨period, vars, hperiod, hvars, rfl⟩
  · rfl
  · have hnext := hvalid.next hrebinds hvars (by simp [hperiod])
    exact hnext.validate_bind period rollout.body hvalid.body_ok

theorem step_eq_error {env : Environment} {r : Resume Arrangement} {cause : EvalError}
    (hr : (resume r).validate = .ok ()) (h : r.step env = .error cause) :
    cause.isUnbound = false := by
  obtain ⟨rollout, rebinds⟩ := r
  obtain ⟨hvalid, hrebinds⟩ := check_resume_eq_ok.mp hr
  obtain ⟨x, hx, hvalue⟩ := rebindAll_eq_error (Resume.step_eq_error.mp h).2
  have hclosed : x.value.Closed := ((Scope.checkRebinds_eq_ok.mp hrebinds).1 x hx).2.2
  exact hclosed.not_isUnbound hvalue

/-! ### As many periods as it takes -/

theorem settle_zero (env : Environment) : zero.settle env = .ok zero := by rw [settle]

theorem settle_actions (env : Environment) (choices : List (Action Arrangement)) :
    (actions choices).settle env = .ok (actions choices) := by rw [settle]

theorem settle_next (env : Environment) (rebinds : List Rebind) :
    (next rebinds).settle env = .error (.unboundDirective rebinds) := by rw [settle]

theorem settle_resume (env : Environment) (r : Resume Arrangement) :
    (resume r).settle env = r.step env >>= settle env := by
  rw [settle]
  cases r.step env <;> rfl

/-- With no rebinds to value, a rollout of actions always goes on: `settle` has a result whatever
the environment. -/
theorem settle_resume_nil {r : Rollout Arrangement} {choices : List (Action Arrangement)}
    (hbody : r.body = actions choices) (env : Environment) :
    (resume ⟨r, []⟩).settle env = .ok (r.following r.vars).instantiate := by
  rw [settle_resume]
  cases h : r.schedule.period? (r.period + 1) with
  | none =>
    have hend : (r.following r.vars).instantiate = zero := by
      unfold Rollout.instantiate Rollout.following
      dsimp only
      rw [h]
    rw [Resume.step_of_last h, hend]
    exact settle_zero env
  | some p =>
    have hnext : (r.following r.vars).instantiate = r.body.bind (r.following r.vars) p :=
      Rollout.instantiate_of_period h
    have hstep : Resume.step env ⟨r, []⟩ = .ok (r.following r.vars).instantiate :=
      Resume.step_eq_ok.mpr (.inr ⟨p, r.vars, h, rfl, hnext⟩)
    rw [hstep, hnext, hbody, bind_actions]
    exact settle_actions env _

/-- The tree is `zero` or `actions`. -/
def Settled (a : Arrangement) : Prop := a = zero ∨ ∃ choices, a = actions choices

/-- **What every round keeps, settling keeps**; and it comes to nothing or to a set of actions. -/
theorem settle_keeps {env : Environment} {P : Arrangement → Prop}
    (hround : ∀ {r b}, P (resume r) → r.step env = .ok b → P b) (a : Arrangement) :
    P a → ∀ {b}, a.settle env = .ok b → b.Settled ∧ P b := by
  induction a using settle.induct env with
  | case1 r cause hstep =>
    intro _ b h
    rw [settle_resume, hstep] at h
    cases h
  | case2 r a hstep ih =>
    intro ha b h
    rw [settle_resume, hstep] at h
    exact ih (hround ha hstep) h
  | case3 rebinds =>
    intro _ b h
    rw [settle_next] at h
    cases h
  | case4 =>
    intro ha b h
    rw [settle_zero] at h
    cases h
    exact ⟨.inl rfl, ha⟩
  | case5 choices =>
    intro ha b h
    rw [settle_actions] at h
    cases h
    exact ⟨.inr ⟨choices, rfl⟩, ha⟩

/-- Settling fails at a `next`, or in a round from a `resume`, of which in either case `P` holds if
every round keeps it. -/
theorem settle_fails {env : Environment} {P : Arrangement → Prop}
    (hround : ∀ {r b}, P (resume r) → r.step env = .ok b → P b) (a : Arrangement) :
    P a → ∀ {cause}, a.settle env = .error cause →
      (∃ rebinds, P (next rebinds) ∧ cause = .unboundDirective rebinds) ∨
        ∃ r, P (resume r) ∧ r.step env = .error cause := by
  induction a using settle.induct env with
  | case1 r e hstep =>
    intro ha cause h
    rw [settle_resume, hstep] at h
    cases h
    exact .inr ⟨r, ha, hstep⟩
  | case2 r a hstep ih =>
    intro ha cause h
    rw [settle_resume, hstep] at h
    exact ih (hround ha hstep) h
  | case3 rebinds =>
    intro ha cause h
    rw [settle_next] at h
    cases h
    exact .inl ⟨rebinds, ha, rfl⟩
  | case4 =>
    intro _ cause h
    rw [settle_zero] at h
    cases h
  | case5 choices =>
    intro _ cause h
    rw [settle_actions] at h
    cases h

/-- **Settling keeps contracts.** What a valid tree settles to is valid and `Settled`. -/
theorem settle_eq_ok {env : Environment} (a : Arrangement) (ha : a.validate = .ok ())
    {b : Arrangement} (h : a.settle env = .ok b) : b.Settled ∧ b.validate = .ok () :=
  a.settle_keeps (P := fun x => x.validate = .ok ()) validate_step ha h

/-- A valid tree never fails to settle for want of a rollout. -/
theorem settle_eq_error {env : Environment} (a : Arrangement) (ha : a.validate = .ok ())
    {cause : EvalError} (h : a.settle env = .error cause) : cause.isUnbound = false := by
  rcases a.settle_fails (P := fun x => x.validate = .ok ()) validate_step ha h with
    ⟨rebinds, hnext, -⟩ | ⟨r, hr, hstep⟩
  · cases hnext
  · exact step_eq_error hr hstep

end Arrangement
end Covenant
