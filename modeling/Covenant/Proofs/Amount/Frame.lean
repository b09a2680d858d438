/-
# Amounts read in place

Inside a rollout an amount can be valued without rewriting it: `a.valueIn env
frame` reads a state variable from the values that `frame.vars` has, and the
start and the end of the period from `frame.bounds`. This is the same as to bind
the amount to the period first and to value what comes out, result for result
and error for error; all that can then be missing is a variable without a value.
Read outside of every period and without variables, an amount has its own value.

Key definitions: `Frame`, `Amount.valueIn`, `Guard.holdsIn`, `Frame.outside`.
Key theorems: `Amount.value_bind`, `Amount.Closed.valueIn_eq`,
`Amount.valueIn_outside`, `Guard.holds_bind`, `Amount.value_substituted`.
-/
import Covenant.Proofs.Amount.Closed

namespace Covenant

/-- What the text of a rollout is read in: the `bounds` of the period, if there is one, and `vars`,
the values of the state variables. -/
structure Frame where
  bounds : Option (Date × Date)
  vars : OrderedMap String Amount

namespace Frame

/-- The calendar date that a contract date stands for. -/
def date? (frame : Frame) : ContractDate → Option Date
  | .fixed date => some date
  | .periodStart => frame.bounds.map (·.1)
  | .periodEnd => frame.bounds.map (·.2)

/-- The calendar date that a contract date stands for, or `unboundPeriodDate` if there is no
period. -/
def date (frame : Frame) (d : ContractDate) : Except EvalError Date :=
  match frame.date? d with
  | some date => .ok date
  | none => .error (.unboundPeriodDate d)

/-- The key of an observable, its dates read in the frame. -/
def key (frame : Frame) : Observable ContractDate → Except EvalError ObservableKey
  | .fixing index start finish => do
    let start ← frame.date start
    let finish ← frame.date finish
    return .fixing index start finish
  | .spot base quoted on => do return .spot base quoted (← frame.date on)
  | .quote name on => do return .quote name (← frame.date on)

/-- The value of a state variable: that of the amount it stands for in `vars`. -/
def state (frame : Frame) (env : Environment) (name : String) : Except EvalError Decimal :=
  match frame.vars.get? name with
  | some a => a.value env
  | none => .error (.unboundState name)

end Frame

/-- Whether the guard lets a day through, its date read in the frame; `guard.holds` of what
`guard.bind` leaves. -/
def Guard.holdsIn (frame : Frame) (day : Date) : Guard → Bool
  | anytime => true
  | before date => (frame.date? date).any fun t => decide (day < t)
  | after date => (frame.date? date).any fun t => decide (t < day)

/-- The value of an amount, read in the frame: a second evaluator beside `Amount.value`, which
substitutes nothing. -/
def Amount.valueIn (env : Environment) (frame : Frame) : Amount → Except EvalError Decimal
  | const value => .ok value
  | var name => env.lookup name
  | state name => frame.state env name
  | observe observable => do
    let key ← frame.key observable
    env.observe key
  | binary op left right => do
    let a ← left.valueIn env frame
    let b ← right.valueIn env frame
    op.apply a b
  | neg x => do return (← x.valueIn env frame).neg
  | plus x => do return (← x.valueIn env frame).max .zero
  | interest principal rate dayCount start finish => do
    let principal ← principal.valueIn env frame
    let rate ← rate.valueIn env frame
    let start ← frame.date start
    let finish ← frame.date finish
    dayCount.interest principal rate start finish
  | select relation left right whenTrue otherwise => do
    let a ← left.valueIn env frame
    let b ← right.valueIn env frame
    if relation.holds a b then whenTrue.valueIn env frame else otherwise.valueIn env frame

/-! ### Reading is binding -/

variable {env : Environment} {start finish : Date} {vars : OrderedMap String Amount}

theorem ContractDate.calendarDate_bind (d : ContractDate) :
    (d.bind start finish).calendarDate = Frame.date ⟨some (start, finish), vars⟩ d := by
  cases d <;> rfl

theorem Observable.key_bind (o : Observable ContractDate) :
    (o.bind start finish).key.mapError .unboundPeriodDate =
      Frame.key ⟨some (start, finish), vars⟩ o := by
  cases o with
  | fixing index s f => cases s <;> cases f <;> rfl
  | spot base quoted on => cases on <;> rfl
  | quote name on => cases on <;> rfl

theorem Guard.holds_bind (g : Guard) (day : Date) :
    (g.bind start finish).holds day = g.holdsIn ⟨some (start, finish), vars⟩ day := by
  cases g with
  | anytime => rfl
  | before date => cases date <;> rfl
  | after date => cases date <;> rfl

/-- **Reading is binding.** `a.bind start finish vars` has the value that `a` has read in place. -/
theorem Amount.value_bind (a : Amount) :
    (a.bind start finish vars).value env = a.valueIn env ⟨some (start, finish), vars⟩ := by
  induction a with
  | const value => rfl
  | var name => rfl
  | state name =>
    unfold valueIn Frame.state bind
    cases vars.get? name <;> rfl
  | observe o => rw [bind, value, valueIn, Observable.key_bind]
  | binary op left right ihl ihr => rw [bind, value, valueIn, ihl, ihr]
  | neg x ih => rw [bind, value, valueIn, ih]
  | plus x ih => rw [bind, value, valueIn, ih]
  | interest principal rate c s f ihp ihr =>
    rw [bind, value, valueIn, ihp, ihr]
    simp only [@ContractDate.calendarDate_bind start finish vars]
  | select relation left right whenTrue otherwise ihl ihr iht iho =>
    rw [bind, value, valueIn, ihl, ihr, iht, iho]

/-- A closed amount has the same value in every period as outside. -/
theorem Amount.Closed.valueIn_eq {a : Amount} (h : a.Closed) :
    a.valueIn env ⟨some (start, finish), vars⟩ = a.value env := by
  rw [← value_bind, h.bind_eq]

/-! ### Reading outside of every period -/

namespace Frame

/-- No period and no variables: here `a.valueIn` is `a.value`. -/
def outside : Frame := ⟨none, .empty⟩

theorem date_outside (d : ContractDate) : outside.date d = d.calendarDate := by
  cases d <;> rfl

theorem key_outside (o : Observable ContractDate) :
    outside.key o = o.key.mapError .unboundPeriodDate := by
  cases o with
  | fixing index s f => cases s <;> cases f <;> rfl
  | spot base quoted on => cases on <;> rfl
  | quote name on => cases on <;> rfl

end Frame

/-- Read outside of every period, an amount has its own value. -/
theorem Amount.valueIn_outside (a : Amount) : a.valueIn env .outside = a.value env := by
  induction a with
  | const value => rfl
  | var name => rfl
  | state name => rfl
  | observe o => rw [value, valueIn, Frame.key_outside]
  | binary op left right ihl ihr => rw [value, valueIn, ihl, ihr]
  | neg x ih => rw [value, valueIn, ih]
  | plus x ih => rw [value, valueIn, ih]
  | interest principal rate c s f ihp ihr =>
    rw [value, valueIn, ihp, ihr]
    simp only [Frame.date_outside]
  | select relation left right whenTrue otherwise ihl ihr iht iho =>
    rw [value, valueIn, ihl, ihr, iht, iho]

/-- A bound amount fails for want of a rollout only with `unboundState name`, where `vars` has no
value for the name. -/
theorem Amount.value_bind_eq_error (hvars : ∀ e ∈ vars.entries, e.2.Closed) {a : Amount}
    {e : EvalError} (h : (a.bind start finish vars).value env = .error e)
    (hunbound : e.isUnbound = true) :
    ∃ name ∈ a.stateNames, name ∉ vars.keys ∧ e = .unboundState name := by
  rcases value_eq_error _ h with hbound | ⟨name, hname, rfl⟩ | ⟨hofPeriod, -⟩
  · rw [hbound] at hunbound
    cases hunbound
  · rw [stateNames_bind start finish hvars, List.mem_filter, Option.isNone_iff_eq_none,
      OrderedMap.get?_eq_none_iff] at hname
    exact ⟨name, hname.1, hname.2, rfl⟩
  · rw [ofPeriod_bind start finish hvars] at hofPeriod
    cases hofPeriod

/-- **Substitution is reading in place.** Whatever the amount, the period and the closed values of
the state variables, `a.bind start finish vars` has the value, or fails with the error, of
`a.valueIn` at the frame of the period and of `vars`. In `Frame.outside` that is `a.value env`
itself. For want of a rollout, `e.isUnbound`, the substituted amount fails only with `unboundState`
of a name that occurs in it and is no key of `vars`. -/
theorem Amount.value_substituted {vars : OrderedMap String Amount}
    (hvars : ∀ e ∈ vars.entries, e.2.Closed) (env : Environment) (start finish : Date)
    (a : Amount) :
    (a.bind start finish vars).value env = a.valueIn env ⟨some (start, finish), vars⟩ ∧
    a.valueIn env .outside = a.value env ∧
    ∀ e, (a.bind start finish vars).value env = .error e → e.isUnbound = true →
      ∃ name ∈ a.stateNames, name ∉ vars.keys ∧ e = .unboundState name := by
  refine ⟨?_, ?_, fun e h hunbound => ?_⟩
  · exact a.value_bind
  · exact a.valueIn_outside
  · exact value_bind_eq_error hvars h hunbound

/-- Interest at LIBOR over the period on a margin, or what is owed if there is no margin. -/
def marginInterest : Amount :=
  .select .gt (.state "margin") (.const .zero)
    (.interest (.state "margin") (.observe (.fixing "LIBOR" .periodStart .periodEnd)) .act360
      .periodStart .periodEnd)
    (.state "owed")

/-- A margin against a balance; nothing says what is owed. -/
def marginOfBalance : OrderedMap String Amount := .ofList [("margin", .neg (.var "balance"))]

/-- LIBOR at one percent in January, and a balance. -/
def januaryWith (balance : Decimal) : Environment :=
  ⟨.ofList [("balance", balance)],
    .ofList [(.fixing "LIBOR" (.literal 2015 1 1) (.literal 2015 2 1), .literal 1 2)]⟩

theorem marginInterest_substituted :
    (∀ e ∈ marginOfBalance.entries, e.2.Closed) ∧
    (marginInterest.bind (.literal 2015 1 1) (.literal 2015 2 1) marginOfBalance).value
      (januaryWith (Decimal.literal 3600 0).neg) = .ok (.literal 310 2) ∧
    (marginInterest.bind (.literal 2015 1 1) (.literal 2015 2 1) marginOfBalance).value
      (januaryWith (.literal 3600 0)) = .error (.unboundState "owed") ∧
    "owed" ∉ marginOfBalance.keys := by
  have hclosed : ∀ e ∈ marginOfBalance.entries, e.2.Closed := by
    intro e he
    rw [List.mem_singleton.mp he]
    exact ⟨rfl, rfl⟩
  have hsubstituted := fun balance => Amount.value_substituted hclosed (januaryWith balance)
    (.literal 2015 1 1) (.literal 2015 2 1) marginInterest
  obtain ⟨hdebit, -, -⟩ := hsubstituted (Decimal.literal 3600 0).neg
  obtain ⟨hcredit, -, hmissing⟩ := hsubstituted (.literal 3600 0)
  have howed := hcredit.trans (show _ = Except.error (.unboundState "owed") from rfl)
  obtain ⟨name, -, hname, heq⟩ := hmissing _ howed rfl
  cases heq
  exact ⟨hclosed, hdebit.trans (by decide +kernel), howed, hname⟩

end Covenant
