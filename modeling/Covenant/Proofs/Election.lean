/-
# What an election does

`a.elect env actor label day` succeeds on an open action that the party may
elect, if all its effects have values and its continuation settles; the payments
are those values, the successor is what the continuation settles to. It fails
for want of a value, `unresolved`, only if an effect or the continuation does.

Key theorems: `Arrangement.elect_eq_ok`, `Arrangement.elect_actions_eq_ok`,
`Arrangement.elect_eq_unresolved`, `resolveAll_pair_eq_ok`,
`resolveAll_eq_error`.
-/
import Covenant.Election
import Covenant.Proofs.Except
import Covenant.Proofs.Ordered
import Mathlib.Data.List.Nodup

namespace Covenant

/-- When `resolveAll` succeeds: each of the effects has a value. -/
theorem resolveAll_cons_eq_ok {env : Environment} {o : Obligation} {rest : List Obligation}
    {payments : List Payment} : resolveAll env (o :: rest) = .ok payments ↔
      ∃ x after, o.amount.value env = .ok x ∧ resolveAll env rest = .ok after ∧
        payments = ⟨o.payer, o.payee, x, o.currency⟩ :: after := by
  constructor
  · intro h
    obtain ⟨payment, hpayment, h⟩ := bind_eq_ok.mp h
    obtain ⟨after, hafter, ⟨⟩⟩ := bind_eq_ok.mp h
    obtain ⟨x, hx, ⟨⟩⟩ := bind_eq_ok.mp hpayment
    exact ⟨x, after, hx, hafter, rfl⟩
  · rintro ⟨x, after, hx, hafter, rfl⟩
    exact bind_eq_ok.mpr ⟨_, bind_eq_ok.mpr ⟨x, hx, rfl⟩, bind_eq_ok.mpr ⟨after, hafter, rfl⟩⟩

theorem resolveAll_pair_eq_ok {env : Environment} {o o' : Obligation} {payments : List Payment} :
    resolveAll env [o, o'] = .ok payments ↔
      ∃ x x', o.amount.value env = .ok x ∧ o'.amount.value env = .ok x' ∧
        payments = [⟨o.payer, o.payee, x, o.currency⟩, ⟨o'.payer, o'.payee, x', o'.currency⟩] := by
  rw [resolveAll_cons_eq_ok]
  constructor
  · rintro ⟨x, _, hx, hafter, rfl⟩
    obtain ⟨x', _, hx', ⟨⟩, rfl⟩ := resolveAll_cons_eq_ok.mp hafter
    exact ⟨x, x', hx, hx', rfl⟩
  · rintro ⟨x, x', hx, hx', rfl⟩
    exact ⟨x, _, hx, resolveAll_cons_eq_ok.mpr ⟨x', [], hx', rfl, rfl⟩, rfl⟩

theorem resolveAll_eq_error {env : Environment} {cause : EvalError} : ∀ {effects : List Obligation},
    resolveAll env effects = .error cause → ∃ o ∈ effects, o.amount.value env = .error cause
  | [], h => by cases h
  | o :: rest, h => by
    rcases bind_eq_error.mp h with h | ⟨payment, -, h⟩
    · rcases bind_eq_error.mp h with h | ⟨amount, -, h⟩
      · exact ⟨o, List.mem_cons_self, h⟩
      · cases h
    · rcases bind_eq_error.mp h with h | ⟨payments, -, h⟩
      · obtain ⟨x, hx, hvalue⟩ := resolveAll_eq_error h
        exact ⟨x, List.mem_cons_of_mem _ hx, hvalue⟩
      · cases h

namespace Arrangement

/-- The action with the label whose guard lets the day through. -/
def open? (a : Arrangement) (label : String) (day : Date) : Option (Action Arrangement) :=
  (a.available day).find? fun action => decide (action.label = label)

theorem mem_choices_of_open? {a : Arrangement} {label : String} {day : Date}
    {action : Action Arrangement} (h : a.open? label day = some action) : action ∈ a.choices :=
  (List.mem_filter.mp (List.mem_of_find?_eq_some h)).1

theorem carryOut_eq_ok {env : Environment} {action : Action Arrangement} {payments : List Payment}
    {successor : Arrangement} : carryOut env action = .ok (payments, successor) ↔
      resolveAll env action.effects = .ok payments ∧
        action.continuation.settle env = .ok successor := by
  unfold carryOut
  simp only [bind_eq_ok, pure_eq_ok, Prod.mk.injEq]
  constructor
  · rintro ⟨p, hp, s, hs, rfl, rfl⟩
    exact ⟨hp, hs⟩
  · rintro ⟨hp, hs⟩
    exact ⟨payments, hp, successor, hs, rfl, rfl⟩

theorem carryOut_eq_error {env : Environment} {action : Action Arrangement} {cause : EvalError}
    (h : carryOut env action = .error cause) :
    resolveAll env action.effects = .error cause ∨
      action.continuation.settle env = .error cause := by
  rcases bind_eq_error.mp h with h | ⟨payments, -, h⟩
  · exact .inl h
  · rcases bind_eq_error.mp h with h | ⟨successor, -, h⟩
    · exact .inr h
    · cases h

/-- When `elect` succeeds, and what it comes to. -/
theorem elect_eq_ok {env : Environment} {a : Arrangement} {actor : Party} {label : String}
    {day : Date} {e : Election} : a.elect env actor label day = .ok e ↔
      ∃ action payments successor, a.open? label day = some action ∧
        action.actors.contains actor = true ∧ carryOut env action = .ok (payments, successor) ∧
        e = ⟨label, actor, day, payments, successor⟩ := by
  unfold elect
  rw [← open?]
  cases hopen : a.open? label day with
  | none => simp
  | some action =>
    cases hactor : action.actors.contains actor with
    | false => simp [hactor]
    | true =>
      cases hcarry : carryOut env action with
      | error cause => simp [hactor, hcarry]
      | ok made =>
        obtain ⟨payments, successor⟩ := made
        constructor
        · intro h
          simp only [hactor, hcarry, Bool.not_true, Bool.false_eq_true, ↓reduceIte,
            Except.ok.injEq] at h
          exact ⟨action, payments, successor, rfl, hactor, hcarry, h.symm⟩
        · rintro ⟨x, p, s, hx, -, hmade, rfl⟩
          cases hx
          rw [hcarry] at hmade
          cases hmade
          simp [hactor, hcarry]

/-- An election tells who made it, of what and when. -/
theorem eq_of_elect_eq_ok {env : Environment} {a : Arrangement} {actor : Party} {label : String}
    {day : Date} {e : Election} (h : a.elect env actor label day = .ok e) :
    e.actor = actor ∧ e.label = label ∧ e.day = day := by
  obtain ⟨_, _, _, -, -, -, rfl⟩ := elect_eq_ok.mp h
  exact ⟨rfl, rfl, rfl⟩

theorem elect_zero_ne_ok {env : Environment} {actor : Party} {label : String} {day : Date}
    {e : Election} : zero.elect env actor label day ≠ .ok e := nofun

section

variable {choices : List (Action Arrangement)} (hlabels : (choices.map Action.label).Nodup)

include hlabels

/-- Where labels differ, every action that the day lets through is the one that its label opens. -/
theorem open?_actions_eq_some {label : String} {day : Date} {action : Action Arrangement} :
    (actions choices).open? label day = some action ↔
      action ∈ choices ∧ action.guard.holds day = true ∧ action.label = label := by
  unfold open?
  constructor
  · intro h
    obtain ⟨hmem, hguard⟩ := List.mem_filter.mp (List.mem_of_find?_eq_some h)
    exact ⟨hmem, hguard, by simpa using List.find?_some h⟩
  · rintro ⟨hmem, hguard, rfl⟩
    obtain ⟨x, hx⟩ : ∃ x, ((actions choices).available day).find?
        (fun x => decide (x.label = action.label)) = some x := by
      rw [← Option.isSome_iff_exists, List.find?_isSome]
      exact ⟨action, List.mem_filter.mpr ⟨hmem, hguard⟩, decide_eq_true rfl⟩
    have hlabel : x.label = action.label := by simpa using List.find?_some hx
    have hxmem := (List.mem_filter.mp (List.mem_of_find?_eq_some hx)).1
    rw [hx, List.inj_on_of_nodup_map hlabels hxmem hmem hlabel]

/-- When `e` is an election that a node of differently labelled actions makes. -/
theorem elect_actions_eq_ok {env : Environment} {e : Election} :
    (actions choices).elect env e.actor e.label e.day = .ok e ↔
      ∃ action ∈ choices, e.label = action.label ∧ action.guard.holds e.day = true ∧
        action.actors.contains e.actor = true ∧ resolveAll env action.effects = .ok e.payments ∧
        action.continuation.settle env = .ok e.successor := by
  rw [elect_eq_ok]
  constructor
  · rintro ⟨action, payments, successor, hopen, hactor, hcarry, he⟩
    obtain ⟨hmem, hguard, hlabel⟩ := (open?_actions_eq_some hlabels).mp hopen
    obtain ⟨hpayments, hsuccessor⟩ := carryOut_eq_ok.mp hcarry
    rw [he]
    exact ⟨action, hmem, hlabel.symm, he ▸ hguard, he ▸ hactor, hpayments, hsuccessor⟩
  · rintro ⟨action, hmem, hlabel, hguard, hactor, hpayments, hsuccessor⟩
    exact ⟨action, e.payments, e.successor,
      (open?_actions_eq_some hlabels).mpr ⟨hmem, hguard, hlabel.symm⟩, hactor,
      carryOut_eq_ok.mpr ⟨hpayments, hsuccessor⟩, rfl⟩

end

/-- When `elect` is refused for want of a value. -/
theorem elect_eq_unresolved {env : Environment} {a : Arrangement} {actor : Party} {label : String}
    {day : Date} {cause : EvalError} : a.elect env actor label day = .error (.unresolved cause) ↔
      ∃ action, a.open? label day = some action ∧ action.actors.contains actor = true ∧
        carryOut env action = .error cause := by
  unfold elect
  rw [← open?]
  cases hopen : a.open? label day with
  | none => simp
  | some action =>
    cases hactor : action.actors.contains actor with
    | false => simp [hactor]
    | true =>
      cases hcarry : carryOut env action with
      | error cause' => simp [hactor, hcarry]
      | ok made => simp [hactor, hcarry]

end Arrangement
end Covenant
