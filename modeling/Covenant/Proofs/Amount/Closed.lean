/-
# Closed amounts

An amount is closed if no state variable and no date of a period occurs in it.
`a.bind start finish vars`, where the values in `vars` are closed, leaves no
date of a period and only the state variables without a value; so it closes an
amount if every state variable in it has one. A closed amount is not touched by
it. The value of a closed amount never fails for want of a rollout,
`e.isUnbound`: where an amount does, a part of it is left to one.

Key definitions: `Amount.Closed`, `EvalError.isUnbound`, `Amount.Opens`,
`Amount.parts`.
Key theorems: `Amount.stateNames_bind`, `Amount.ofPeriod_bind`,
`Amount.closed_bind`, `Amount.Closed.bind_eq`, `Amount.value_eq_error`,
`Amount.Closed.not_isUnbound`.
-/
import Covenant.Amount.Value
import Covenant.Proofs.Amount.Valuation
import Covenant.Proofs.Observable
import Covenant.Proofs.Ordered

namespace Covenant

theorem ContractDate.calendarDate_of_not_ofPeriod {d : ContractDate}
    (h : d.ofPeriod = false) : ∃ date, d.calendarDate = .ok date := by
  cases d with
  | fixed date => exact ⟨date, rfl⟩
  | periodStart => cases h
  | periodEnd => cases h

namespace Amount

/-- Nothing in the amount is left to a rollout: `a.stateNames` is empty, and no `periodStart` or
`periodEnd` occurs. -/
def Closed (a : Amount) : Prop := a.stateNames = [] ∧ a.ofPeriod = false

@[simp] theorem closed_const (value : Decimal) : (const value).Closed := ⟨rfl, rfl⟩

@[simp] theorem closed_var (name : String) : (var name).Closed := ⟨rfl, rfl⟩

@[simp] theorem not_closed_state (name : String) : ¬(state name).Closed :=
  fun h => List.cons_ne_nil _ _ h.1

@[simp] theorem closed_observe {o : Observable ContractDate} :
    (observe o).Closed ↔ o.ofPeriod = false :=
  ⟨And.right, fun h => ⟨rfl, h⟩⟩

@[simp] theorem closed_binary {op : Operator} {left right : Amount} :
    (binary op left right).Closed ↔ left.Closed ∧ right.Closed :=
  Iff.trans (and_congr List.append_eq_nil_iff Bool.or_eq_false_iff) and_and_and_comm

@[simp] theorem closed_neg {x : Amount} : (neg x).Closed ↔ x.Closed := Iff.rfl

@[simp] theorem closed_plus {x : Amount} : (plus x).Closed ↔ x.Closed := Iff.rfl

@[simp] theorem closed_interest {principal rate : Amount} {c : DayCount} {s f : ContractDate} :
    (interest principal rate c s f).Closed ↔
      principal.Closed ∧ rate.Closed ∧ s.ofPeriod = false ∧ f.ofPeriod = false := by
  show principal.stateNames ++ rate.stateNames = [] ∧
      (s.ofPeriod || f.ofPeriod || principal.ofPeriod || rate.ofPeriod) = false ↔
    (principal.stateNames = [] ∧ principal.ofPeriod = false) ∧
      (rate.stateNames = [] ∧ rate.ofPeriod = false) ∧ s.ofPeriod = false ∧ f.ofPeriod = false
  simp only [List.append_eq_nil_iff, Bool.or_eq_false_iff]
  grind

@[simp] theorem closed_select {relation : Relation} {left right whenTrue otherwise : Amount} :
    (select relation left right whenTrue otherwise).Closed ↔
      left.Closed ∧ right.Closed ∧ whenTrue.Closed ∧ otherwise.Closed := by
  show left.stateNames ++ right.stateNames ++ whenTrue.stateNames ++ otherwise.stateNames = [] ∧
      (left.ofPeriod || right.ofPeriod || whenTrue.ofPeriod || otherwise.ofPeriod) = false ↔
    (left.stateNames = [] ∧ left.ofPeriod = false) ∧
      (right.stateNames = [] ∧ right.ofPeriod = false) ∧
      (whenTrue.stateNames = [] ∧ whenTrue.ofPeriod = false) ∧
      (otherwise.stateNames = [] ∧ otherwise.ofPeriod = false)
  simp only [List.append_eq_nil_iff, Bool.or_eq_false_iff]
  grind

section

variable {vars : OrderedMap String Amount} (start finish : Date)
  (hvars : ∀ e ∈ vars.entries, e.2.Closed)

include hvars

/-- **Binding leaves open the state variables without a value**, and no others. -/
theorem stateNames_bind (a : Amount) : (a.bind start finish vars).stateNames =
    a.stateNames.filter fun name => (vars.get? name).isNone := by
  induction a with
  | const value => rfl
  | var name => rfl
  | state name =>
    cases hvalue : vars.get? name with
    | none => simp [bind, stateNames, hvalue]
    | some value =>
      have hclosed := hvars _ (OrderedMap.mem_of_get?_eq_some hvalue)
      simp [bind, stateNames, hvalue, hclosed.1]
  | observe o => rfl
  | binary op left right ihl ihr => simp [bind, stateNames, ihl, ihr]
  | neg x ih => exact ih
  | plus x ih => exact ih
  | interest principal rate c s f ihp ihr => simp [bind, stateNames, ihp, ihr]
  | select relation left right whenTrue otherwise ihl ihr iht iho =>
    simp [bind, stateNames, ihl, ihr, iht, iho]

/-- `a.bind start finish vars` has calendar dates only. -/
theorem ofPeriod_bind (a : Amount) : (a.bind start finish vars).ofPeriod = false := by
  induction a with
  | const value => rfl
  | var name => rfl
  | state name =>
    cases hvalue : vars.get? name with
    | none => simp [bind, ofPeriod, hvalue]
    | some value =>
      have hclosed := hvars _ (OrderedMap.mem_of_get?_eq_some hvalue)
      simp [bind, hvalue, hclosed.2]
  | observe o => exact o.ofPeriod_bind start finish
  | binary op left right ihl ihr => simp [bind, ofPeriod, ihl, ihr]
  | neg x ih => exact ih
  | plus x ih => exact ih
  | interest principal rate c s f ihp ihr =>
    simp [bind, ofPeriod, ihp, ihr, ContractDate.ofPeriod_bind]
  | select relation left right whenTrue otherwise ihl ihr iht iho =>
    simp [bind, ofPeriod, ihl, ihr, iht, iho]

/-- **Binding closes an amount** whose state variables all have closed values in `vars`. -/
theorem closed_bind (a : Amount) (h : ∀ name ∈ a.stateNames, name ∈ vars.keys) :
    (a.bind start finish vars).Closed := by
  refine ⟨?_, ofPeriod_bind start finish hvars a⟩
  rw [stateNames_bind start finish hvars, List.filter_eq_nil_iff]
  intro name hname
  obtain ⟨value, hvalue⟩ := OrderedMap.get?_of_mem_keys (h name hname)
  simp [hvalue]

end

/-- A closed amount is the same in every period. -/
theorem Closed.bind_eq {a : Amount} (start finish : Date) (vars : OrderedMap String Amount) :
    a.Closed → a.bind start finish vars = a := by
  induction a with
  | const value => intro _; rfl
  | var name => intro _; rfl
  | state name => intro h; exact absurd h (not_closed_state name)
  | observe o =>
    intro h
    rw [bind, Observable.bind_of_not_ofPeriod (closed_observe.mp h)]
  | binary op left right ihl ihr =>
    intro h
    obtain ⟨hl, hr⟩ := closed_binary.mp h
    rw [bind, ihl hl, ihr hr]
  | neg x ih => intro h; rw [bind, ih (closed_neg.mp h)]
  | plus x ih => intro h; rw [bind, ih (closed_plus.mp h)]
  | interest principal rate c s f ihp ihr =>
    intro h
    obtain ⟨hp, hr, hs, hf⟩ := closed_interest.mp h
    rw [bind, ihp hp, ihr hr, ContractDate.bind_of_not_ofPeriod hs,
      ContractDate.bind_of_not_ofPeriod hf]
  | select relation left right whenTrue otherwise ihl ihr iht iho =>
    intro h
    obtain ⟨hl, hr, ht, ho⟩ := closed_select.mp h
    rw [bind, ihl hl, ihr hr, iht ht, iho ho]

end Amount

/-! ### What can go wrong -/

/-- Whether the error is that a part of a rollout stands outside every rollout. -/
def EvalError.isUnbound : EvalError → Bool
  | unboundState _ | unboundPeriodDate _ | unboundDirective _ => true
  | divisionByZero _ _ | overflow _ _ _ | unavailable _ | unboundVariable _ => false

theorem Environment.lookup_not_isUnbound {env : Environment} {name : String} {e : EvalError}
    (h : env.lookup name = .error e) : e.isUnbound = false := by
  unfold lookup at h
  split at h <;> cases h
  rfl

theorem Environment.observe_not_isUnbound {env : Environment} {key : ObservableKey} {e : EvalError}
    (h : env.observe key = .error e) : e.isUnbound = false := by
  unfold observe at h
  split at h <;> cases h
  rfl

theorem Operator.apply_not_isUnbound {op : Operator} {a b : Decimal} {e : EvalError}
    (h : op.apply a b = .error e) : e.isUnbound = false := by
  cases op <;> simp only [apply] at h <;> (repeat' split at h) <;> cases h <;> rfl

theorem DayCount.interest_not_isUnbound {c : DayCount} {principal rate : Decimal}
    {start finish : Date} {e : EvalError} (h : c.interest principal rate start finish = .error e) :
    e.isUnbound = false := by
  unfold interest at h
  rcases bind_eq_error.mp h with h | ⟨x, -, h⟩
  · exact Operator.apply_not_isUnbound h
  rcases bind_eq_error.mp h with h | ⟨y, -, h⟩
  · exact Operator.apply_not_isUnbound h
  · exact Operator.apply_not_isUnbound h

namespace Amount

/-- `e` says what is left to a rollout in `a`: one of its state variables, or a date of a period. -/
def Opens (a : Amount) (e : EvalError) : Prop :=
  (∃ name ∈ a.stateNames, e = .unboundState name) ∨
    a.ofPeriod = true ∧ ∃ date, e = .unboundPeriodDate date

/-- The amounts directly inside an amount, whether or not a valuation comes to them. -/
def parts : Amount → List Amount
  | const _ | var _ | state _ | observe _ => []
  | neg x | plus x => [x]
  | binary _ left right => [left, right]
  | interest principal rate _ _ _ => [principal, rate]
  | select _ left right whenTrue otherwise => [left, right, whenTrue, otherwise]

/-- What is open in a part is open in the whole. -/
theorem Opens.of_part {a part : Amount} {e : EvalError} (hpart : part ∈ a.parts)
    (h : part.Opens e) : a.Opens e := by
  have hnames : part.stateNames ⊆ a.stateNames := by
    intro name hname
    cases a <;> simp only [parts, List.mem_cons, List.not_mem_nil, or_false] at hpart <;>
      grind [stateNames]
  have hofPeriod : part.ofPeriod = true → a.ofPeriod = true := by
    intro hp
    cases a <;> simp only [parts, List.mem_cons, List.not_mem_nil, or_false] at hpart <;>
      grind [ofPeriod]
  exact h.imp (fun ⟨name, hname, he⟩ => ⟨name, hnames hname, he⟩) (And.imp_left hofPeriod)

theorem ofPeriod_of_calendarDate {d : ContractDate} {e : EvalError}
    (h : d.calendarDate = .error e) : d.ofPeriod = true ∧ ∃ date, e = .unboundPeriodDate date := by
  obtain ⟨date, hdate, rfl⟩ := mapError_eq_error.mp h
  refine ⟨Bool.not_eq_false _ ▸ fun hd => ?_, date, rfl⟩
  obtain ⟨_, hok⟩ := ContractDate.calendarDate_of_not_ofPeriod hd
  cases hok.symm.trans h

/-- What is valued on the way is a part. -/
theorem Visits.mem_parts {env : Environment} {a b : Amount} (h : a.Visits env b) : b ∈ a.parts := by
  cases h <;> simp [parts]

theorem Reaches.opens {env : Environment} {a b : Amount} {e : EvalError} (h : a.Reaches env b)
    (hb : b.Opens e) : a.Opens e := by
  induction h with
  | refl => exact hb
  | head hvisits _ ih => exact (ih hb).of_part hvisits.mem_parts

/-- An amount that fails although all it visits has values is itself left to a rollout, or
`e.isUnbound` is false. -/
theorem opens_of_first_failure {env : Environment} {a : Amount} {e : EvalError}
    (he : a.value env = .error e) (hparts : ∀ b, a.Visits env b → ∃ x, b.value env = .ok x) :
    e.isUnbound = false ∨ a.Opens e := by
  cases a with
  | const value => cases he
  | var name => exact .inl (Environment.lookup_not_isUnbound he)
  | state name =>
    cases he
    exact .inr (.inl ⟨name, by simp [stateNames], rfl⟩)
  | observe o =>
    rcases bind_eq_error.mp he with he | ⟨key, -, he⟩
    · obtain ⟨date, hdate, rfl⟩ := mapError_eq_error.mp he
      refine .inr (.inr ⟨Bool.not_eq_false _ ▸ fun ho => ?_, date, rfl⟩)
      obtain ⟨key, hkey⟩ := Observable.key_of_not_ofPeriod ho
      cases hkey.symm.trans hdate
    · exact .inl (Environment.observe_not_isUnbound he)
  | binary op left right =>
    obtain ⟨x, hx⟩ := hparts left .left
    obtain ⟨y, hy⟩ := hparts right (.right hx)
    rw [value_binary hx hy] at he
    exact .inl (Operator.apply_not_isUnbound he)
  | neg x =>
    obtain ⟨y, hy⟩ := hparts x .neg
    rw [value, hy] at he
    cases he
  | plus x =>
    obtain ⟨y, hy⟩ := hparts x .plus
    rw [value, hy] at he
    cases he
  | interest principal rate c s f =>
    obtain ⟨x, hx⟩ := hparts principal .principal
    obtain ⟨y, hy⟩ := hparts rate (.rate hx)
    rw [value_interest hx hy] at he
    rcases bind_eq_error.mp he with he | ⟨start, -, he⟩
    · obtain ⟨hs, hdate⟩ := ofPeriod_of_calendarDate he
      exact .inr (.inr ⟨by rw [ofPeriod, hs]; rfl, hdate⟩)
    rcases bind_eq_error.mp he with he | ⟨finish, -, he⟩
    · obtain ⟨hf, hdate⟩ := ofPeriod_of_calendarDate he
      exact .inr (.inr ⟨by rw [ofPeriod, hf, Bool.or_true]; rfl, hdate⟩)
    · exact .inl (DayCount.interest_not_isUnbound he)
  | select relation left right whenTrue otherwise =>
    obtain ⟨x, hx⟩ := hparts left .selectLeft
    obtain ⟨y, hy⟩ := hparts right (.selectRight hx)
    obtain ⟨z, hz⟩ := exists_value_select hx hy hparts
    cases hz.symm.trans he

/-- An amount fails for want of a rollout only where a part of it is left to one. -/
theorem value_eq_error {env : Environment} (a : Amount) {e : EvalError}
    (he : a.value env = .error e) : e.isUnbound = false ∨ a.Opens e := by
  obtain ⟨b, hreaches, hfails, hparts⟩ := exists_first_failure he
  exact (opens_of_first_failure hfails hparts).imp_right hreaches.opens

/-- **A closed amount needs no rollout**: its value may fail, but not for want of one. -/
theorem Closed.not_isUnbound {env : Environment} {a : Amount} (ha : a.Closed) {e : EvalError}
    (h : a.value env = .error e) : e.isUnbound = false := by
  rcases a.value_eq_error h with h | ⟨name, hname, -⟩ | ⟨hofPeriod, -⟩
  · exact h
  · rw [ha.1] at hname
    cases hname
  · rw [ha.2] at hofPeriod
    cases hofPeriod

/-- Only a directive fails with `unboundDirective`, never an amount. -/
theorem value_ne_unboundDirective {env : Environment} {rebinds : List Rebind} (a : Amount) :
    a.value env ≠ .error (.unboundDirective rebinds) := by
  intro h
  rcases a.value_eq_error h with h | ⟨name, -, h⟩ | ⟨-, date, h⟩ <;> cases h

end Amount

end Covenant
