/-
# Rewriting is reading

A contract whose tree is rewritten at each election and the interpreter that
rewrites nothing give the same answers to every log. A position `p` stands for
the tree that its node comes to when it is bound to the period, `p.tree`:
whatever the interpreter does at a position, the contract does at that tree, and
where the interpreter then is, it stands for what is left of the contract. So
`p.tree.elect` is `p.elect`, with positions for trees.

Key definitions: `Position.tree`, `Position.Valid`.
Key theorems: `Position.Valid.settle_tree`, `Position.Valid.elect_tree`,
`rollOut_refines`.
-/
import Covenant.Proofs.Interpreter
import Covenant.Proofs.Run
import Covenant.Proofs.Schedule.Partition

namespace Covenant

variable {env : Environment} {start finish : Date} {vars : OrderedMap String Amount}

/-! ### Effects and rebinds -/

/-- Bound effects come to what `paymentsIn` has of the effects where they stand. -/
theorem resolveAll_bind : ∀ effects : List Obligation,
    resolveAll env (effects.map (Obligation.bind start finish vars)) =
      paymentsIn env ⟨some (start, finish), vars⟩ effects
  | [] => rfl
  | o :: rest => by
    rw [List.map_cons, resolveAll, paymentsIn, resolveAll_bind rest, ← o.amount.value_bind]
    unfold Obligation.resolve Obligation.bind
    dsimp only
    cases (o.amount.bind start finish vars).value env <;> rfl

/-- Bound rebinds give the variables what `rebindValues` has of the rebinds where they stand. -/
theorem rebindAll_bind {read : OrderedMap String Amount} : ∀ (rebinds : List Rebind)
    (vars : OrderedMap String Amount),
    rebindAll env vars (rebinds.map (Rebind.bind start finish read)) =
      (rebindValues env ⟨some (start, finish), read⟩ rebinds).map fun values =>
        vars.insertAll (values.map fun e => (e.1, .const e.2))
  | [], vars => rfl
  | r :: rest, vars => by
    rw [List.map_cons, rebindAll, rebindValues, ← r.value.value_bind]
    unfold Rebind.bind
    dsimp only
    cases (r.value.bind start finish read).value env with
    | error cause => rfl
    | ok value =>
      refine (rebindAll_bind rest (vars.insert r.name (.const value))).trans ?_
      cases rebindValues env ⟨some (start, finish), read⟩ rest <;> rfl

namespace Position

/-! ### The tree of a position -/

/-- The tree that a position stands for: `p.node`, bound to the period. -/
def tree (p : Position) : Arrangement :=
  match p.rollout.schedule.period? p.rollout.period with
  | some period => p.node.bind p.rollout period
  | none => .zero

theorem tree_zero (r : Rollout Arrangement) : tree ⟨r, .zero⟩ = .zero := by
  unfold tree
  split
  · rw [Arrangement.bind]
  · rfl

/-- A position in a valid `rollout`, at a part of a body that passes its checks. -/
structure Valid (p : Position) : Prop where
  rollout_ok : p.rollout.Valid
  node_ok : p.node.check (.rollout p.rollout.schedule.initial.keys) = .ok ()

namespace Valid

variable {p : Position}

/-- A valid position is at a period, and its frame has the bounds of that. -/
theorem exists_period (h : p.Valid) : ∃ period,
    p.rollout.schedule.period? p.rollout.period = some period ∧
      p.tree = p.node.bind p.rollout period ∧
      p.rollout.frame = ⟨some (period.start, period.finish), p.rollout.vars⟩ := by
  obtain ⟨period, hperiod⟩ := Option.isSome_iff_exists.mp h.rollout_ok.period_isSome
  refine ⟨period, hperiod, ?_, ?_⟩
  · rw [tree, hperiod]
  · rw [Rollout.frame, hperiod]
    rfl

/-- Nothing is left at a position if nothing is left of its tree. -/
theorem isZero_tree (h : p.Valid) : p.tree.isZero = p.node.isZero := by
  obtain ⟨period, -, htree, -⟩ := h.exists_period
  rw [htree]
  cases p.node <;> simp only [Arrangement.bind, Arrangement.isZero]

/-- A valid position stays valid at another part of a body that passes. -/
theorem at_node (h : p.Valid) {node : Arrangement}
    (hnode : node.check (.rollout p.rollout.schedule.initial.keys) = .ok ()) :
    Valid ⟨p.rollout, node⟩ := ⟨h.rollout_ok, hnode⟩

end Valid

/-! ### Going on -/

/-- Rebinds that pass in `Scope.topLevel` pass inside a rollout. -/
theorem check_next_of_topLevel {declared : List String} {rebinds : List Rebind}
    (h : Scope.topLevel.checkRebinds declared [] rebinds = .ok ()) :
    (Arrangement.next rebinds).check (.rollout declared) = .ok () := by
  obtain ⟨hall, hnodup⟩ := Scope.checkRebinds_eq_ok.mp h
  refine Arrangement.check_next_eq_ok.mpr ⟨declared, rfl, ?_⟩
  refine Scope.checkRebinds_eq_ok.mpr ⟨fun r hr => ?_, hnodup⟩
  obtain ⟨hname, hseen, hclosed⟩ := hall r hr
  refine ⟨hname, hseen, fun name hname => ?_⟩
  rw [hclosed.1] at hname
  cases hname

/-- A `resume` of a valid rollout is `next` in that rollout, and stands for itself. -/
theorem tree_next {r : Rollout Arrangement} {rebinds : List Rebind} (hr : r.Valid)
    (hrebinds : Scope.topLevel.checkRebinds r.schedule.initial.keys [] rebinds = .ok ()) :
    Valid ⟨r, .next rebinds⟩ ∧ tree ⟨r, .next rebinds⟩ = .resume ⟨r, rebinds⟩ := by
  have hvalid : Valid ⟨r, .next rebinds⟩ := ⟨hr, check_next_of_topLevel hrebinds⟩
  refine ⟨hvalid, ?_⟩
  obtain ⟨period, -, htree, -⟩ := hvalid.exists_period
  have hall := (Scope.checkRebinds_eq_ok.mp hrebinds).1
  rw [htree, Arrangement.bind]
  congr 2
  refine (List.map_congr_left fun x hx => ?_).trans (List.map_id rebinds)
  have hclosed : x.value.Closed := (hall x hx).2.2
  rw [Rebind.bind, hclosed.bind_eq]
  rfl

theorem proceed_zero (r : Rollout Arrangement) : proceed env ⟨r, .zero⟩ = .ok ⟨r, .zero⟩ := by
  rw [proceed]

theorem proceed_actions (r : Rollout Arrangement) (choices : List (Action Arrangement)) :
    proceed env ⟨r, .actions choices⟩ = .ok ⟨r, .actions choices⟩ := by
  rw [proceed]

theorem proceed_resume (r' r : Rollout Arrangement) (rebinds : List Rebind) :
    proceed env ⟨r', .resume ⟨r, rebinds⟩⟩ = proceed env ⟨r, .next rebinds⟩ := by
  conv =>
    lhs
    rw [proceed]

/-- After the last period `proceed` ends at `zero`, and no rebind is valued. -/
theorem proceed_next_of_last {r : Rollout Arrangement} (rebinds : List Rebind)
    (h : r.schedule.period? (r.period + 1) = none) :
    proceed env ⟨r, .next rebinds⟩ = .ok ⟨r, .zero⟩ := by
  rw [proceed]
  split
  · rfl
  · rename_i hsome
    rw [h] at hsome
    cases hsome

/-- Before it the rebinds are valued, and the body starts again in `r.advance values`. -/
theorem proceed_next {r : Rollout Arrangement} (rebinds : List Rebind) {period : Period}
    (h : r.schedule.period? (r.period + 1) = some period) :
    proceed env ⟨r, .next rebinds⟩ =
      rebindValues env r.frame rebinds >>= fun values =>
        proceed env ⟨r.advance values, r.body⟩ := by
  rw [proceed]
  split
  · rename_i hnone
    rw [h] at hnone
    cases hnone
  · cases rebindValues env r.frame rebinds <;> rfl

/-- A rollout of actions goes on to the actions of its next period, or ends. -/
theorem proceed_next_eq_ok {r : Rollout Arrangement} {rebinds : List Rebind}
    {choices : List (Action Arrangement)} {q : Position} (hbody : r.body = .actions choices)
    (h : proceed env ⟨r, .next rebinds⟩ = .ok q) :
    (r.schedule.period? (r.period + 1) = none ∧ q = ⟨r, .zero⟩) ∨
      (r.schedule.period? (r.period + 1)).isSome ∧ ∃ values,
        rebindValues env r.frame rebinds = .ok values ∧ q = ⟨r.advance values, r.body⟩ := by
  cases hperiod : r.schedule.period? (r.period + 1) with
  | none =>
    rw [proceed_next_of_last rebinds hperiod] at h
    cases h
    exact .inl ⟨rfl, rfl⟩
  | some period =>
    rw [proceed_next rebinds hperiod] at h
    obtain ⟨values, hvalues, h⟩ := bind_eq_ok.mp h
    rw [hbody, proceed_actions] at h
    cases h
    exact .inr ⟨rfl, values, hvalues, by rw [hbody]⟩

/-- Where a rollout goes on to is a valid position, if it has values for its rebinds. -/
theorem Valid.advance {r : Rollout Arrangement} {rebinds : List Rebind} {period : Period}
    {values : List (String × Decimal)} (h : Valid ⟨r, .next rebinds⟩)
    (hperiod : r.schedule.period? (r.period + 1) = some period)
    (hvalues : rebindValues env r.frame rebinds = .ok values) :
    Valid ⟨r.advance values, r.body⟩ := by
  obtain ⟨p, -, -, hframe⟩ := h.exists_period
  have hrebinds := h.rollout_ok.checkRebinds_bind p h.node_ok
  have hvars := @rebindAll_bind env p.start p.finish r.vars rebinds r.vars
  rw [← hframe, hvalues] at hvars
  exact ⟨h.rollout_ok.next hrebinds hvars (by rw [hperiod]; rfl), h.rollout_ok.body_ok⟩

/-- After the last period nothing is left of the tree either. -/
theorem Valid.settle_tree_of_last {r : Rollout Arrangement} {rebinds : List Rebind}
    (h : Valid ⟨r, .next rebinds⟩) (hlast : r.schedule.period? (r.period + 1) = none) :
    (tree ⟨r, .next rebinds⟩).settle env = .ok .zero := by
  obtain ⟨p, -, htree, -⟩ := h.exists_period
  rw [htree, Arrangement.bind, Arrangement.settle_resume, Resume.step_of_last hlast]
  exact Arrangement.settle_zero env

/-- Before it the tree settles as the tree of where the rollout goes on to. -/
theorem Valid.settle_tree_next {r : Rollout Arrangement} {rebinds : List Rebind} {period : Period}
    (h : Valid ⟨r, .next rebinds⟩) (hperiod : r.schedule.period? (r.period + 1) = some period) :
    (tree ⟨r, .next rebinds⟩).settle env =
      rebindValues env r.frame rebinds >>= fun values =>
        (tree ⟨r.advance values, r.body⟩).settle env := by
  obtain ⟨p, -, htree, hframe⟩ := h.exists_period
  rw [htree, Arrangement.bind, Arrangement.settle_resume, Resume.step]
  dsimp only at hframe ⊢
  rw [hperiod]
  dsimp only
  rw [rebindAll_bind, hframe]
  cases rebindValues env ⟨some (p.start, p.finish), r.vars⟩ rebinds with
  | error cause => rfl
  | ok values =>
    have hnext : tree ⟨r.advance values, r.body⟩ =
        r.body.bind (r.advance values) period := by
      simp only [tree, Rollout.advance, hperiod]
    exact congrArg (Arrangement.settle env) hnext.symm

/-- **Settling is going on.** What `p.tree` settles to is the tree of where `p.proceed env` goes on
to, which is a valid position again. -/
theorem Valid.settle_tree (p : Position) : p.Valid →
    p.tree.settle env = (p.proceed env).map tree ∧ ∀ q, p.proceed env = .ok q → q.Valid := by
  induction p using proceed.induct env with
  | case1 r =>
    intro h
    rw [proceed_zero, Except.map, tree_zero, Arrangement.settle_zero]
    refine ⟨rfl, fun q hq => ?_⟩
    cases hq
    exact h
  | case2 r choices =>
    intro h
    obtain ⟨period, -, htree, -⟩ := h.exists_period
    rw [proceed_actions, Except.map, htree, Arrangement.bind, Arrangement.settle_actions]
    refine ⟨rfl, fun q hq => ?_⟩
    cases hq
    exact h
  | case3 r rebinds hlast =>
    intro h
    rw [proceed_next_of_last rebinds hlast, h.settle_tree_of_last hlast, Except.map, tree_zero]
    refine ⟨rfl, fun q hq => ?_⟩
    cases hq
    exact h.at_node rfl
  | case4 r rebinds period hperiod cause hvalues =>
    intro h
    rw [proceed_next rebinds hperiod, h.settle_tree_next hperiod, hvalues]
    exact ⟨rfl, fun q hq => by cases hq⟩
  | case5 r rebinds period hperiod values hvalues ih =>
    intro h
    rw [proceed_next rebinds hperiod, h.settle_tree_next hperiod, hvalues]
    exact ih (h.advance hperiod hvalues)
  | case6 r' r rebinds ih =>
    intro h
    obtain ⟨hr, hrebinds⟩ := Arrangement.check_resume_eq_ok.mp h.node_ok
    obtain ⟨hnext, htree⟩ := tree_next hr hrebinds
    obtain ⟨period, -, htree', -⟩ := h.exists_period
    rw [proceed_resume, htree', Arrangement.bind, ← htree]
    exact ih hnext

/-! ### Elections -/

/-- When `p.elect` succeeds, and what it comes to. -/
theorem elect_eq_ok {p q : Position} {actor : Party} {label : String} {day : Date}
    {payments : List Payment} : p.elect env actor label day = .ok (payments, q) ↔
      ∃ action, p.open? label day = some action ∧ action.actors.contains actor = true ∧
        paymentsIn env p.rollout.frame action.effects = .ok payments ∧
        proceed env ⟨p.rollout, action.continuation⟩ = .ok q := by
  unfold Position.elect carryOut
  cases p.open? label day with
  | none => simp
  | some action =>
    cases hactor : action.actors.contains actor with
    | false => simp [hactor]
    | true =>
      dsimp only
      rw [if_neg (by rw [hactor]; decide), mapError_eq_ok]
      simp only [bind_eq_ok, pure_eq_ok, Prod.mk.injEq]
      constructor
      · rintro ⟨_, hpayments, _, hproceed, rfl, rfl⟩
        exact ⟨action, rfl, hactor, hpayments, hproceed⟩
      · rintro ⟨x, hx, -, hpayments, hproceed⟩
        cases hx
        exact ⟨payments, hpayments, q, hproceed, rfl, rfl⟩

theorem of_open?_eq_some {p : Position} {label : String} {day : Date} {action : Action Arrangement}
    (h : p.open? label day = some action) : action ∈ p.node.choices ∧ action.label = label := by
  refine ⟨List.mem_of_find?_eq_some h, ?_⟩
  have hfound := List.find?_some h
  rw [Bool.and_eq_true, decide_eq_true_iff] at hfound
  exact hfound.2

/-- The open action of `p.tree` is that of `p`, bound to the period. -/
theorem open?_tree {p : Position} {period : Period}
    (hperiod : p.rollout.schedule.period? p.rollout.period = some period) (label : String)
    (day : Date) :
    p.tree.open? label day =
      (p.open? label day).map (Arrangement.bindAction p.rollout period) := by
  have htree : p.tree = p.node.bind p.rollout period := by rw [tree, hperiod]
  have hframe : p.rollout.frame = ⟨some (period.start, period.finish), p.rollout.vars⟩ := by
    rw [Rollout.frame, hperiod]
    rfl
  have hchoices : p.tree.choices =
      p.node.choices.map (Arrangement.bindAction p.rollout period) := by
    rw [htree]
    cases p.node with
    | actions choices => rw [Arrangement.bind_actions]; rfl
    | zero => rw [Arrangement.bind]; rfl
    | next rebinds => rw [Arrangement.bind]; rfl
    | resume r => rw [Arrangement.bind]; rfl
  unfold Arrangement.open? Arrangement.available open?
  rw [hchoices, List.find?_filter, List.find?_map, hframe]
  congr 2
  funext action
  simp only [Function.comp_apply, Arrangement.bindAction, Bool.decide_and, Bool.decide_eq_true,
    @Guard.holds_bind period.start period.finish p.rollout.vars]
  rfl

namespace Valid

variable {p : Position}

/-- After an open action the interpreter is at a valid position again. -/
theorem at_continuation (h : p.Valid) {label : String} {day : Date} {action : Action Arrangement}
    (hopen : p.open? label day = some action) : Valid ⟨p.rollout, action.continuation⟩ := by
  have hmem : action ∈ p.node.choices := List.mem_of_find?_eq_some hopen
  have hnode := h.node_ok
  cases hp : p.node with
  | actions choices =>
    rw [hp] at hmem hnode
    exact h.at_node ((Arrangement.check_actions_eq_ok.mp hnode).2 action hmem).2
  | zero => rw [hp] at hmem; cases hmem
  | next rebinds => rw [hp] at hmem; cases hmem
  | resume r => rw [hp] at hmem; cases hmem

/-- What a bound action comes to is what the action comes to where it stands. -/
theorem carryOut_tree (h : p.Valid) {period : Period}
    (hperiod : p.rollout.schedule.period? p.rollout.period = some period) {label : String}
    {day : Date} {action : Action Arrangement} (hopen : p.open? label day = some action) :
    Arrangement.carryOut env (Arrangement.bindAction p.rollout period action) =
      (carryOut env p action).map fun made => (made.1, made.2.tree) := by
  have htree : tree ⟨p.rollout, action.continuation⟩ =
      action.continuation.bind p.rollout period := by
    rw [tree, hperiod]
  have hframe : p.rollout.frame = ⟨some (period.start, period.finish), p.rollout.vars⟩ := by
    rw [Rollout.frame, hperiod]
    rfl
  have hsettle := (@settle_tree env _ (h.at_continuation hopen)).1
  rw [htree] at hsettle
  unfold Arrangement.carryOut Arrangement.bindAction carryOut
  dsimp only
  rw [resolveAll_bind, hsettle, hframe]
  cases paymentsIn env ⟨some (period.start, period.finish), p.rollout.vars⟩ action.effects with
  | error cause => rfl
  | ok payments => cases proceed env ⟨p.rollout, action.continuation⟩ <;> rfl

/-- **An election at a position is one at its tree**: `p.tree.elect` is refused as `p.elect` is, or
has the same payments, and leads to the tree of where the interpreter then is. -/
theorem elect_tree (h : p.Valid) (actor : Party) (label : String) (day : Date) :
    (p.tree.elect env actor label day).map (fun e => (e.payments, e.successor)) =
      (p.elect env actor label day).map fun made => (made.1, made.2.tree) := by
  obtain ⟨period, hperiod, -, -⟩ := h.exists_period
  unfold Arrangement.elect Position.elect
  rw [← Arrangement.open?, open?_tree hperiod label day]
  cases hopen : p.open? label day with
  | none => rfl
  | some action =>
    have hactors : (Arrangement.bindAction p.rollout period action).actors = action.actors := rfl
    dsimp only [Option.map]
    rw [h.carryOut_tree hperiod hopen, hactors]
    cases action.actors.contains actor with
    | false => rfl
    | true => cases carryOut env p action <;> rfl

/-- The elections that a tree makes are those of its position. -/
theorem elect_tree_eq_ok (h : p.Valid) {actor : Party} {label : String} {day : Date}
    {e : Election} : p.tree.elect env actor label day = .ok e ↔
      ∃ payments q, p.elect env actor label day = .ok (payments, q) ∧
        e = ⟨label, actor, day, payments, q.tree⟩ := by
  have hmap := @elect_tree env p h actor label day
  constructor
  · intro he
    obtain ⟨_, payments, successor, -, -, -, rfl⟩ := Arrangement.elect_eq_ok.mp he
    rw [he] at hmap
    cases hq : p.elect env actor label day with
    | error cause =>
      rw [hq] at hmap
      cases hmap
    | ok made =>
      rw [hq] at hmap
      cases hmap
      exact ⟨made.1, made.2, rfl, rfl⟩
  · rintro ⟨payments, q, hq, rfl⟩
    rw [hq] at hmap
    cases he : p.tree.elect env actor label day with
    | error cause =>
      rw [he] at hmap
      cases hmap
    | ok e =>
      obtain ⟨_, payments', successor, -, -, -, rfl⟩ := Arrangement.elect_eq_ok.mp he
      rw [he] at hmap
      cases hmap
      rfl

/-- An election leads from a valid position to a valid position. -/
theorem valid_elect (h : p.Valid) {actor : Party} {label : String} {day : Date}
    {payments : List Payment} {q : Position}
    (helect : p.elect env actor label day = .ok (payments, q)) : q.Valid := by
  obtain ⟨action, hopen, -, -, hproceed⟩ := elect_eq_ok.mp helect
  exact (settle_tree _ (h.at_continuation hopen)).2 q hproceed

end Valid
end Position

/-! ### Logs -/

/-- Two ways to make elections have the same `answers` to a log, if states `s` of the one stand for
states `f s` of the other and elections respect that. -/
theorem answers_eq_of_simulation {σ τ : Type} {isZero : σ → Bool} {isZero' : τ → Bool}
    {elect : Environment → σ → LogStep → Except ElectionError (List Payment × σ)}
    {elect' : Environment → τ → LogStep → Except ElectionError (List Payment × τ)}
    (f : σ → τ) (good : σ → Prop) (hzero : ∀ s, good s → isZero' (f s) = isZero s)
    (helect : ∀ env s step, good s →
      elect' env (f s) step = (elect env s step).map fun made => (made.1, f made.2))
    (hgood : ∀ env s step payments s', good s → elect env s step = .ok (payments, s') → good s') :
    ∀ (log : List (Environment × LogStep)) (s : σ), good s →
      answers isZero' elect' (f s) log = answers isZero elect s log
  | [], _, _ => rfl
  | (env, step) :: rest, s, hs => by
    unfold answers
    rw [helect env s step hs]
    cases hmade : elect env s step with
    | error cause =>
      have ih := answers_eq_of_simulation f good hzero helect hgood rest s hs
      simp only [Except.map, hzero s hs, ih]
    | ok made =>
      obtain ⟨payments, s'⟩ := made
      have hs' := hgood env s step payments s' hs hmade
      have ih := answers_eq_of_simulation f good hzero helect hgood rest s' hs'
      simp only [Except.map, hzero s' hs', ih]

namespace Position

/-- `Position.start` is a valid position, whose tree is what is rolled out. -/
theorem valid_start {schedule : Schedule} {body t : Arrangement}
    (h : rollOut schedule body = .ok t) :
    (Position.start schedule body).Valid ∧ (Position.start schedule body).tree = t := by
  obtain ⟨hschedule, hbody, rfl⟩ := Arrangement.rollOut_eq_ok h
  have hclosed := (Schedule.check_eq_ok.mp hschedule).2.2
  exact ⟨⟨⟨hschedule, rfl, Schedule.period?_zero hschedule, hclosed, hbody⟩, hbody⟩, rfl⟩

/-- `p.tree` answers every log as the interpreter does at `p`. -/
theorem Valid.answers_tree {p : Position} (h : p.Valid) (log : List (Environment × LogStep)) :
    p.tree.answers log = p.answers log :=
  answers_eq_of_simulation tree Valid (fun _ hp => hp.isZero_tree)
    (fun _ _ step hp => hp.elect_tree step.actor step.label step.day)
    (fun _ _ _ _ _ hp helect => hp.valid_elect helect) log p h

end Position

/-- **Rewriting is reading.** What `rollOut` makes of a body, and `Arrangement.elect` rewrites at
each election, has the same `answers` to a log as the interpreter from `Position.start`, which
rewrites nothing: it accepts the same elections with the same payments, refuses the same ones with
the same error, and comes to nothing at the same step. -/
theorem rollOut_refines {schedule : Schedule} {body t : Arrangement}
    (h : rollOut schedule body = .ok t) (log : List (Environment × LogStep)) :
    t.isZero = (Position.start schedule body).node.isZero ∧
      t.answers log = (Position.start schedule body).answers log := by
  obtain ⟨hvalid, rfl⟩ := Position.valid_start h
  exact ⟨hvalid.isZero_tree, hvalid.answers_tree log⟩

/-- The first month is paid, then an election comes too early, then the second month is paid. -/
def payBothMonths : List (Environment × LogStep) :=
  [(⟨.empty, .empty⟩, ⟨⟨"acmeCorp"⟩, "pay", .literal 2015 2 2⟩),
    (⟨.empty, .empty⟩, ⟨⟨"acmeCorp"⟩, "pay", .literal 2015 2 28⟩),
    (⟨.empty, .empty⟩, ⟨⟨"acmeCorp"⟩, "pay", .literal 2015 3 2⟩)]

/-- The interpreter in the second month. -/
def inSecondMonth : Position :=
  ⟨(Position.start twoMonths payEachMonth).rollout.advance [("cap", .literal 900 0)], payEachMonth⟩

theorem start_payEachMonth_answers : (Position.start twoMonths payEachMonth).answers payBothMonths =
    [⟨.ok [⟨⟨"acmeCorp"⟩, ⟨"highStreetBank"⟩, .literal 1000 0, .usd⟩], false⟩,
      ⟨.error (.notEnabled "pay" (.literal 2015 2 28)), false⟩,
      ⟨.ok [⟨⟨"acmeCorp"⟩, ⟨"highStreetBank"⟩, .literal 900 0, .usd⟩], true⟩] := by
  have hfirst : (Position.start twoMonths payEachMonth).elect ⟨.empty, .empty⟩ ⟨"acmeCorp"⟩ "pay"
      (.literal 2015 2 2) =
        .ok ([⟨⟨"acmeCorp"⟩, ⟨"highStreetBank"⟩, .literal 1000 0, .usd⟩], inSecondMonth) := by
    refine Position.elect_eq_ok.mpr ⟨_, rfl, by decide, rfl, ?_⟩
    have hnext : (Position.start twoMonths payEachMonth).rollout.schedule.period? 1 =
        some ⟨1, .literal 2015 2 1, .literal 2015 3 1⟩ := rfl
    exact (Position.proceed_next _ hnext).trans (Position.proceed_actions _ _)
  have hearly : inSecondMonth.elect ⟨.empty, .empty⟩ ⟨"acmeCorp"⟩ "pay" (.literal 2015 2 28) =
      .error (.notEnabled "pay" (.literal 2015 2 28)) := rfl
  have hsecond : inSecondMonth.elect ⟨.empty, .empty⟩ ⟨"acmeCorp"⟩ "pay" (.literal 2015 3 2) =
      .ok ([⟨⟨"acmeCorp"⟩, ⟨"highStreetBank"⟩, .literal 900 0, .usd⟩],
        ⟨inSecondMonth.rollout, .zero⟩) := by
    refine Position.elect_eq_ok.mpr ⟨_, rfl, by decide, rfl, ?_⟩
    exact Position.proceed_next_of_last _ rfl
  unfold Position.answers payBothMonths
  simp only [answers, hfirst, hearly, hsecond]
  rfl

theorem payEachMonth_refines : ∃ t, rollOut twoMonths payEachMonth = .ok t ∧
    t.answers payBothMonths =
      [⟨.ok [⟨⟨"acmeCorp"⟩, ⟨"highStreetBank"⟩, .literal 1000 0, .usd⟩], false⟩,
        ⟨.error (.notEnabled "pay" (.literal 2015 2 28)), false⟩,
        ⟨.ok [⟨⟨"acmeCorp"⟩, ⟨"highStreetBank"⟩, .literal 900 0, .usd⟩], true⟩] := by
  obtain ⟨t, ht, -⟩ := payEachMonth_elect
  exact ⟨t, ht, (rollOut_refines ht payBothMonths).2.trans start_payEachMonth_answers⟩

end Covenant
