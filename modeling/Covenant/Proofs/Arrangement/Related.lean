/-
# Trees with related numbers in them

Two trees are the same contract with numbers in it that are related by `R`. If
arithmetic keeps `R`, they go on to related trees in related environments:
`a.settle env` and `b.settle env'` are related, or fail with related errors,
as long as the divisions in what is valued on the way are among those of `D`.
Where each rebind has one value in two environments, `a.settle env` and
`a.settle env'` are one.

Key definitions: `Arrangement.Related`, `Amount.Valued`, `Arrangement.Revalues`.
Key theorems: `Arrangement.Related.agrees`, `Arrangement.Related.bind`,
`Arrangement.Related.settle`, `Arrangement.settle_congr`.
-/
import Mathlib.Data.List.Forall2
import Covenant.Proofs.Amount.Related
import Covenant.Proofs.Arrangement.Settling

namespace Covenant

variable {R D : Decimal → Decimal → Prop}

/-! ### Trees -/

/-- The same action, with related amounts in its effects and what follows related by `S`. -/
inductive Action.Related (R : Decimal → Decimal → Prop) {α : Type} (S : α → α → Prop) :
    Action α → Action α → Prop where
  | mk (label : String) (actors : PartySet) (guard : Guard) {effects effects' : List Obligation}
      {continuation continuation' : α} : List.Forall₂ (Obligation.Related R) effects effects' →
      S continuation continuation' → Related R S ⟨label, actors, guard, effects, continuation⟩
        ⟨label, actors, guard, effects', continuation'⟩

/-- The same schedule, with related amounts as initial values. -/
structure Schedule.Related (R : Decimal → Decimal → Prop) (s s' : Schedule) : Prop where
  start_eq : s.start = s'.start
  finish_eq : s.finish = s'.finish
  frequency_eq : s.frequency = s'.frequency
  initial_related : OrderedMap.Related (Amount.Related R) s.initial s'.initial

/-- The same period of a rollout, with related amounts in its variables, and bodies related by
`S`. -/
inductive Rollout.Related (R : Decimal → Decimal → Prop) {α : Type} (S : α → α → Prop) :
    Rollout α → Rollout α → Prop where
  | mk {schedule schedule' : Schedule} {body body' : α} (period : Nat)
      {vars vars' : OrderedMap String Amount} : schedule.Related R schedule' → S body body' →
      OrderedMap.Related (Amount.Related R) vars vars' →
      Related R S ⟨schedule, body, period, vars⟩ ⟨schedule', body', period, vars'⟩

namespace Arrangement

/-- The same tree, with numbers in it that are related by `R`. -/
inductive Related (R : Decimal → Decimal → Prop) : Arrangement → Arrangement → Prop where
  | zero : Related R zero zero
  | actions {choices choices' : List (Action Arrangement)} :
      List.Forall₂ (Action.Related R (Related R)) choices choices' →
      Related R (actions choices) (actions choices')
  | next {rebinds rebinds' : List Rebind} : List.Forall₂ (Rebind.Related R) rebinds rebinds' →
      Related R (next rebinds) (next rebinds')
  | resume {r r' : Rollout Arrangement} {rebinds rebinds' : List Rebind} :
      Rollout.Related R (Related R) r r' → List.Forall₂ (Rebind.Related R) rebinds rebinds' →
      Related R (resume ⟨r, rebinds⟩) (resume ⟨r', rebinds'⟩)

end Arrangement

/-- The same rollout, with numbers in it that are related by `R`. -/
abbrev Rollout.RelatedBy (R : Decimal → Decimal → Prop) :
    Rollout Arrangement → Rollout Arrangement → Prop :=
  Rollout.Related R (Arrangement.Related R)

section

variable (hR : ∀ x, R x x)
include hR

theorem Obligation.Related.refl (o : Obligation) : o.Related R o := ⟨rfl, rfl, rfl, .refl hR _⟩

theorem Rebind.Related.refl (r : Rebind) : r.Related R r := ⟨rfl, .refl hR _⟩

theorem Schedule.Related.refl (s : Schedule) : s.Related R s :=
  ⟨rfl, rfl, rfl, .refl (.refl hR) _⟩

theorem Arrangement.Related.refl (a : Arrangement) : a.Related R a := by
  induction a with
  | zero => exact .zero
  | actions choices ih =>
    refine .actions (List.forall₂_same.mpr fun action haction => ?_)
    exact .mk _ _ _ (List.forall₂_same.mpr fun o _ => .refl hR o) (ih action haction)
  | next rebinds => exact .next (List.forall₂_same.mpr fun r _ => .refl hR r)
  | resume r rebinds ih =>
    obtain ⟨schedule, body, period, vars⟩ := r
    refine .resume (.mk period (.refl hR schedule) ih (.refl (.refl hR) vars)) ?_
    exact List.forall₂_same.mpr fun x _ => .refl hR x

end

/-- Where periods begin and end does not depend on the initial values. -/
theorem Schedule.Related.period?_eq {s s' : Schedule} (h : s.Related R s') (index : Nat) :
    s.period? index = s'.period? index := by
  obtain ⟨start, finish, frequency, initial⟩ := s
  obtain ⟨start', finish', frequency', initial'⟩ := s'
  obtain ⟨rfl, rfl, rfl, -⟩ := h
  rfl

namespace Arrangement

theorem Related.isZero_eq {a b : Arrangement} (h : a.Related R b) : a.isZero = b.isZero := by
  cases h <;> rfl

/-! ### Agreement as it is decided -/

section

variable (hR : Decimal.Congruence R D)
include hR

theorem obligationsAgree_of_related {l l' : List Obligation}
    (h : List.Forall₂ (Obligation.Related R) l l') : obligationsAgree l l' = true := by
  induction h with
  | nil => rfl
  | cons ho _ ih => simp [obligationsAgree, ho.agrees hR, ih]

theorem rebindsAgree_of_related {l l' : List Rebind} (h : List.Forall₂ (Rebind.Related R) l l') :
    rebindsAgree l l' = true := by
  induction h with
  | nil => rfl
  | cons hr _ ih => simp [rebindsAgree, hr.name_eq, hr.value_related.agrees hR, ih]

theorem variablesAgree_of_related {vars vars' : OrderedMap String Amount}
    (h : OrderedMap.Related (Amount.Related R) vars vars') :
    variablesAgree vars.entries vars'.entries = true := by
  unfold OrderedMap.Related at h
  generalize vars.entries = l at h
  generalize vars'.entries = l' at h
  induction h with
  | nil => rfl
  | cons he _ ih => simp [variablesAgree, he.1, he.2.agrees hR, ih]

theorem schedulesAgree_of_related {s s' : Schedule} (h : s.Related R s') :
    schedulesAgree s s' = true := by
  simp [schedulesAgree, h.start_eq, h.finish_eq, h.frequency_eq,
    variablesAgree_of_related hR h.initial_related]

theorem choicesAgree_of_related {l l' : List (Action Arrangement)}
    (hl : ∀ action ∈ l, ∀ {b}, action.continuation.Related R b →
      action.continuation.agrees b = true)
    (h : List.Forall₂ (Action.Related R (Related R)) l l') : choicesAgree l l' = true := by
  induction h with
  | nil => rw [choicesAgree]
  | cons hx _ ih =>
    obtain ⟨label, actors, guard, heffects, hcontinuation⟩ := hx
    have hagrees := hl _ List.mem_cons_self hcontinuation
    have hrest := ih fun y hy => hl y (List.mem_cons_of_mem _ hy)
    rw [choicesAgree, hagrees, hrest, obligationsAgree_of_related hR heffects]
    simp

/-- Related trees pass for the same contract: `a.agrees b` decides so. -/
theorem Related.agrees {a b : Arrangement} (h : a.Related R b) : a.agrees b = true := by
  induction a generalizing b with
  | zero =>
    cases h
    rw [Arrangement.agrees]
  | actions choices ih =>
    cases h with
    | actions hchoices =>
      rw [Arrangement.agrees]
      exact choicesAgree_of_related hR ih hchoices
  | next rebinds =>
    cases h with
    | next hrebinds =>
      rw [Arrangement.agrees]
      exact rebindsAgree_of_related hR hrebinds
  | resume r rebinds ih =>
    cases h with
    | resume hr hrebinds =>
      obtain ⟨period, hschedule, hbody, hvars⟩ := hr
      rw [Arrangement.agrees, schedulesAgree_of_related hR hschedule, ih hbody,
        variablesAgree_of_related hR hvars, rebindsAgree_of_related hR hrebinds]
      simp

end

/-! ### Binding -/

/-- Related bodies bound to the same period of related rollouts are related. -/
theorem Related.bind {r r' : Rollout Arrangement} (hr : r.RelatedBy R r') (period : Period)
    {a b : Arrangement} (h : a.Related R b) : (a.bind r period).Related R (b.bind r' period) := by
  have hvars : OrderedMap.Related (Amount.Related R) r.vars r'.vars := by
    obtain ⟨_, _, _, hvars⟩ := hr
    exact hvars
  induction a generalizing b with
  | zero =>
    cases h
    rw [Arrangement.bind, Arrangement.bind]
    exact .zero
  | actions choices ih =>
    cases h with
    | actions hchoices =>
      rw [bind_actions, bind_actions]
      refine .actions ?_
      rw [List.forall₂_map_left_iff, List.forall₂_map_right_iff]
      refine ((List.forall₂_and_left _ _).mpr ⟨@ih, hchoices⟩).imp fun action action' h => ?_
      obtain ⟨hcontinuation, ⟨label, actors, guard, heffects, hbody⟩⟩ := h
      have hbound := List.rel_map (fun _ _ ho =>
        Obligation.Related.bind hvars period.start period.finish ho) heffects
      exact .mk _ _ _ hbound (hcontinuation hbody)
  | next rebinds =>
    cases h with
    | next hrebinds =>
      rw [Arrangement.bind, Arrangement.bind]
      exact .resume hr
        (List.rel_map (fun _ _ hx => hx.bind hvars period.start period.finish) hrebinds)
  | resume r'' rebinds _ =>
    cases h with
    | resume hinner hrebinds =>
      rw [Arrangement.bind, Arrangement.bind]
      exact .resume hinner hrebinds

end Arrangement

/-! ### What is valued -/

variable {env env' : Environment}

/-- Valuing the amounts from left to right values this one. -/
inductive Amount.Valued (env : Environment) : List Amount → Amount → Prop where
  | head (a : Amount) (rest : List Amount) : Valued env (a :: rest) a
  | tail {a b : Amount} {rest : List Amount} {x : Decimal} : a.value env = .ok x →
      Valued env rest b → Valued env (a :: rest) b

/-- Settling the tree values the amount, to rebind a variable to it. -/
inductive Arrangement.Revalues (env : Environment) : Arrangement → Amount → Prop where
  | here {r : Resume Arrangement} {period : Period} {a : Amount} :
      r.rollout.schedule.period? (r.rollout.period + 1) = some period →
      Amount.Valued env (r.rebinds.map Rebind.value) a → Revalues env (.resume r) a
  | later {r : Resume Arrangement} {b : Arrangement} {a : Amount} : r.step env = .ok b →
      Revalues env b a → Revalues env (.resume r) a

theorem Amount.Valued.eq_of_singleton {a b : Amount} (h : Valued env [a] b) : b = a := by
  cases h with
  | head => rfl
  | tail _ h => cases h

/-- The directive of a rollout whose body is an action set values its own rebinds only. -/
theorem Arrangement.Revalues.valued {schedule : Schedule} {choices : List (Action Arrangement)}
    {period : Nat} {vars : OrderedMap String Amount} {rebinds : List Rebind} {a : Amount}
    (h : Revalues env (.resume ⟨⟨schedule, .actions choices, period, vars⟩, rebinds⟩) a) :
    Amount.Valued env (rebinds.map Rebind.value) a := by
  cases h with
  | here _ ha => exact ha
  | @later _ b _ hstep ha =>
    exfalso
    rcases Resume.step_eq_ok.mp hstep with ⟨-, rfl⟩ | ⟨p, vars', -, -, rfl⟩
    · cases ha
    · rw [bind_actions] at ha
      cases ha

/-! ### Settling -/

section

variable (hR : Decimal.Congruence R D) (henv : env.Related R env')
include hR henv

/-- Related rebinds make related variables, or fail with related errors. -/
theorem alike_rebindAll {rebinds rebinds' : List Rebind}
    (h : List.Forall₂ (Rebind.Related R) rebinds rebinds') :
    ∀ {vars vars' : OrderedMap String Amount},
    OrderedMap.Related (Amount.Related R) vars vars' →
    (∀ a, Amount.Valued env (rebinds.map Rebind.value) a → a.DividesOnly D env) →
    (∀ a, Amount.Valued env' (rebinds'.map Rebind.value) a → a.DividesOnly D env') →
    Alike (EvalError.Related R) (OrderedMap.Related (Amount.Related R))
      (rebindAll env vars rebinds) (rebindAll env' vars' rebinds') := by
  induction h with
  | nil => exact fun hvars _ _ => .ok hvars
  | @cons r r' rest rest' hr _ ih =>
    intro vars vars' hvars hdiv hdiv'
    have hvalue := hr.value_related.value hR henv (hdiv _ (.head ..)) (hdiv' _ (.head ..))
    refine hvalue.bind_of fun x x' hx hx' hxx => ?_
    rw [hr.name_eq]
    exact ih (hvars.insert r'.name (.const hxx)) (fun a ha => hdiv a (.tail hx ha))
      (fun a ha => hdiv' a (.tail hx' ha))

namespace Arrangement

/-- One period further related directives lead to related trees. -/
theorem alike_step {r r' : Rollout Arrangement} {rebinds rebinds' : List Rebind}
    (hr : r.RelatedBy R r') (hrebinds : List.Forall₂ (Rebind.Related R) rebinds rebinds')
    (hdiv : ∀ a, (resume ⟨r, rebinds⟩).Revalues env a → a.DividesOnly D env)
    (hdiv' : ∀ a, (resume ⟨r', rebinds'⟩).Revalues env' a → a.DividesOnly D env') :
    Alike (EvalError.Related R) (Related R) (Resume.step env ⟨r, rebinds⟩)
      (Resume.step env' ⟨r', rebinds'⟩) := by
  obtain ⟨period, hschedule, hbody, hvars⟩ := hr
  have hperiods := hschedule.period?_eq (period + 1)
  unfold Resume.step
  dsimp only
  rw [← hperiods]
  cases hperiod : Schedule.period? _ (period + 1) with
  | none => exact .ok .zero
  | some p =>
    have hrebound := alike_rebindAll hR henv hrebinds hvars
      (fun a ha => hdiv a (.here hperiod ha))
      (fun a ha => hdiv' a (.here (hperiods ▸ hperiod) ha))
    exact hrebound.bind fun m m' hm =>
      .ok (Related.bind (.mk (period + 1) hschedule hbody hm) p hbody)

/-- **Related trees settle to related trees**, or fail with related errors. The induction is on how
the first one settles, the second follows it step by step. -/
theorem Related.settle {a b : Arrangement} (h : a.Related R b)
    (hdiv : ∀ x, a.Revalues env x → x.DividesOnly D env)
    (hdiv' : ∀ x, b.Revalues env' x → x.DividesOnly D env') :
    Alike (EvalError.Related R) (Related R) (a.settle env) (b.settle env') := by
  induction a using settle.induct env generalizing b with
  | case1 r cause hstep =>
    cases h with
    | resume hr hrebinds =>
      rw [settle_resume, settle_resume]
      refine (alike_step hR henv hr hrebinds hdiv hdiv').bind_of fun c c' hc _ _ => ?_
      cases hstep.symm.trans hc
  | case2 r a hstep ih =>
    cases h with
    | resume hr hrebinds =>
      rw [settle_resume, settle_resume]
      refine (alike_step hR henv hr hrebinds hdiv hdiv').bind_of fun c c' hc hc' hcc => ?_
      cases hstep.symm.trans hc
      exact ih hcc (fun x hx => hdiv x (.later hc hx)) (fun x hx => hdiv' x (.later hc' hx))
  | case3 rebinds =>
    cases h with
    | next hrebinds =>
      rw [settle_next, settle_next]
      exact .error (.unboundDirective hrebinds)
  | case4 =>
    cases h
    rw [settle_zero, settle_zero]
    exact .ok .zero
  | case5 choices =>
    cases h with
    | actions hchoices =>
      rw [settle_actions, settle_actions]
      exact .ok (.actions hchoices)

end Arrangement

end

/-! ### The same form -/

theorem rebindAll_congr : ∀ {rebinds : List Rebind} {vars : OrderedMap String Amount},
    (∀ a, Amount.Valued env (rebinds.map Rebind.value) a → a.value env = a.value env') →
    rebindAll env vars rebinds = rebindAll env' vars rebinds
  | [], _, _ => rfl
  | r :: rest, vars, h => by
    have hvalue := h r.value (.head ..)
    unfold rebindAll
    rw [← hvalue]
    cases hx : r.value.value env with
    | error cause => rfl
    | ok x => exact rebindAll_congr fun a ha => h a (.tail hx ha)

theorem Resume.step_congr {r : Resume Arrangement}
    (h : ∀ a, (Arrangement.resume r).Revalues env a → a.value env = a.value env') :
    r.step env = r.step env' := by
  unfold step
  dsimp only
  cases hperiod : r.rollout.schedule.period? (r.rollout.period + 1) with
  | none => rfl
  | some period =>
    dsimp only
    rw [rebindAll_congr fun a ha => h a (.here hperiod ha)]

/-- **Where rebinds have the same values in the same form**, the tree settles to the same tree. -/
theorem Arrangement.settle_congr (a : Arrangement)
    (h : ∀ x, a.Revalues env x → x.value env = x.value env') : a.settle env = a.settle env' := by
  induction a using settle.induct env with
  | case1 r cause hstep =>
    rw [settle_resume, settle_resume, ← Resume.step_congr h, hstep]
    rfl
  | case2 r a hstep ih =>
    rw [settle_resume, settle_resume, ← Resume.step_congr h, hstep]
    exact ih fun x hx => h x (.later hstep hx)
  | case3 rebinds => rw [settle_next, settle_next]
  | case4 => rw [settle_zero, settle_zero]
  | case5 choices => rw [settle_actions, settle_actions]

end Covenant
