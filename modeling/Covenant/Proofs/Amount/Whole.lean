/-
# Amounts in whole numbers

An amount that neither divides nor bears interest has a meaning over the whole
numbers, where nothing is too large: `a.whole? env`. If its constants and what
it looks up are whole numbers without places, `a.value env` is that meaning or
there is none: it is refused just if a number it needs is not known or an exact
result on the way is out of range, and then the first such result is the reason.

Key definitions: `Amount.Whole`, `Amount.whole?`, `Amount.InRange`,
`Amount.Lacks`, `Amount.Exceeds`.
Key theorems: `Amount.Whole.isExact`, `Amount.Whole.exists_lacks_or_exceeds`,
`Amount.value_exact_or_refused`.
-/
import Covenant.Proofs.Amount.Operator
import Covenant.Proofs.Amount.Valuation

namespace Covenant
namespace Amount

/-! ### The meaning over the whole numbers -/

/-- The amount is about whole numbers: its constants and what is known of its variables and
observables have `scale = 0`, and it neither divides nor bears interest. -/
def Whole (env : Environment) : Amount → Prop
  | const x => x.scale = 0
  | var name => ∀ x, env.bindings.get? name = some x → x.scale = 0
  | state _ => True
  | observe o => ∀ key x, o.key = .ok key → env.market.get? key = some x → x.scale = 0
  | binary op left right => op ≠ .div ∧ left.Whole env ∧ right.Whole env
  | neg x | plus x => x.Whole env
  | interest _ _ _ _ _ => False
  | select _ left right whenTrue otherwise =>
    left.Whole env ∧ right.Whole env ∧ whenTrue.Whole env ∧ otherwise.Whole env

/-- The amount over the whole numbers, of whatever size; none if a number it needs is not known. -/
def whole? (env : Environment) : Amount → Option Int
  | const x => some x.unscaled
  | var name => (env.bindings.get? name).map Decimal.unscaled
  | state _ => none
  | observe o =>
    match o.key with
    | .ok key => (env.market.get? key).map Decimal.unscaled
    | .error _ => none
  | binary op left right => do
    let i ← left.whole? env
    let j ← right.whole? env
    op.whole? i j
  | neg x => do return -(← x.whole? env)
  | plus x => do return max (← x.whole? env) 0
  | interest _ _ _ _ _ => none
  | select relation left right whenTrue otherwise => do
    let i ← left.whole? env
    let j ← right.whole? env
    if relation.whole i j then whenTrue.whole? env else otherwise.whole? env

/-- `a.whole? env` is a whole number of 96 bits, so `Decimal.limit` is above it. -/
def InRange (env : Environment) (a : Amount) : Prop :=
  ∃ i, a.whole? env = some i ∧ i.natAbs < Decimal.limit

/-- `d` is the whole number `a.whole? env`, without places. -/
def IsExact (env : Environment) (a : Amount) (d : Decimal) : Prop :=
  ∃ i, a.whole? env = some i ∧ d.IsWhole i

variable {env : Environment} {a b left right whenTrue otherwise : Amount} {op : Operator}
  {relation : Relation} {i j k : Int} {x y d : Decimal} {e : EvalError}

theorem whole?_binary (hi : left.whole? env = some i) (hj : right.whole? env = some j) :
    (binary op left right).whole? env = op.whole? i j := by
  rw [whole?, hi, hj]
  rfl

theorem whole?_select (hi : left.whole? env = some i) (hj : right.whole? env = some j) :
    (select relation left right whenTrue otherwise).whole? env =
      if relation.whole i j then whenTrue.whole? env else otherwise.whole? env := by
  rw [whole?, hi, hj]
  rfl

/-! ### Values are exact -/

namespace Whole

theorem visits (ha : a.Whole env) (h : a.Visits env b) : b.Whole env := by
  cases h with
  | left => exact ha.2.1
  | right => exact ha.2.2
  | neg => exact ha
  | plus => exact ha
  | principal => exact ha.elim
  | rate => exact ha.elim
  | selectLeft => exact ha.1
  | selectRight => exact ha.2.1
  | whenTrue => exact ha.2.2.1
  | otherwise => exact ha.2.2.2

theorem reaches (ha : a.Whole env) (h : a.Reaches env b) : b.Whole env :=
  h.keeps visits ha

theorem isExact_lookup {name : String} (h : (var name).Whole env)
    (hd : env.lookup name = .ok d) : (var name).IsExact env d := by
  unfold Environment.lookup at hd
  split at hd
  · rename_i hget
    cases hd
    exact ⟨d.unscaled, by rw [whole?, hget]; rfl, .of_scale (h d hget)⟩
  · cases hd

theorem isExact_observe {o : Observable ContractDate} {key : ObservableKey}
    (h : (observe o).Whole env) (hkey : o.key = .ok key) (hd : env.observe key = .ok d) :
    (observe o).IsExact env d := by
  unfold Environment.observe at hd
  split at hd
  · rename_i hget
    cases hd
    exact ⟨d.unscaled, by rw [whole?, hkey]; dsimp only; rw [hget]; rfl,
      .of_scale (h key d hkey hget)⟩
  · cases hd

/-- **A value is exact**: `a.value env` is the number that `a.whole? env` is, and it is written
without places. -/
theorem isExact : ∀ {a : Amount} {d : Decimal}, a.Whole env → a.value env = .ok d →
    a.IsExact env d := by
  intro a
  induction a with
  | const x =>
    intro d ha hd
    cases hd
    exact ⟨_, rfl, .of_scale ha⟩
  | var name => exact isExact_lookup
  | state name =>
    intro d ha hd
    cases hd
  | observe o =>
    intro d ha hd
    obtain ⟨key, hkey, hd⟩ := bind_eq_ok.mp hd
    exact isExact_observe ha (mapError_eq_ok.mp hkey) hd
  | binary op left right ihl ihr =>
    intro d ha hd
    obtain ⟨x, hx, hd⟩ := bind_eq_ok.mp hd
    obtain ⟨y, hy, hd⟩ := bind_eq_ok.mp hd
    obtain ⟨i, hi, hxi⟩ := ihl ha.2.1 hx
    obtain ⟨j, hj, hyj⟩ := ihr ha.2.2 hy
    obtain ⟨k, hk⟩ := Operator.exists_whole? ha.1 i j
    exact ⟨k, (whole?_binary hi hj).trans hk, Operator.isWhole_of_apply_eq_ok hxi hyj hk hd⟩
  | neg x ih =>
    intro d ha hd
    obtain ⟨x', hx, hd⟩ := bind_eq_ok.mp hd
    obtain ⟨i, hi, hxi⟩ := ih ha hx
    cases hd
    exact ⟨-i, by rw [whole?, hi]; rfl, hxi.neg⟩
  | plus x ih =>
    intro d ha hd
    obtain ⟨x', hx, hd⟩ := bind_eq_ok.mp hd
    obtain ⟨i, hi, hxi⟩ := ih ha hx
    cases hd
    exact ⟨max i 0, by rw [whole?, hi]; rfl, hxi.max .zero⟩
  | interest principal rate dayCount start finish _ _ => exact fun ha => ha.elim
  | select relation left right whenTrue otherwise ihl ihr iht iho =>
    intro d ha hd
    obtain ⟨x, hx, hd⟩ := bind_eq_ok.mp hd
    obtain ⟨y, hy, hd⟩ := bind_eq_ok.mp hd
    obtain ⟨i, hi, hxi⟩ := ihl ha.1 hx
    obtain ⟨j, hj, hyj⟩ := ihr ha.2.1 hy
    rw [Relation.holds_whole hxi hyj] at hd
    unfold IsExact
    rw [whole?_select hi hj]
    -- the branch that is taken is the one that the whole numbers choose
    cases hholds : relation.whole i j with
    | true =>
      rw [hholds, if_pos rfl] at hd
      exact iht ha.2.2.1 hd
    | false =>
      rw [hholds, if_neg Bool.false_ne_true] at hd
      exact iho ha.2.2.2 hd

end Whole

/-! ### Failures have a reason -/

/-- The amount needs a number that is not known: it fails with `e`, whatever the range. -/
inductive Lacks (env : Environment) : Amount → EvalError → Prop where
  | var {name : String} : env.bindings.get? name = none →
      Lacks env (.var name) (.unboundVariable name)
  | state {name : String} : Lacks env (.state name) (.unboundState name)
  | date {o : Observable ContractDate} {date : ContractDate} : o.key = .error date →
      Lacks env (.observe o) (.unboundPeriodDate date)
  | observe {o : Observable ContractDate} {key : ObservableKey} : o.key = .ok key →
      env.market.get? key = none → Lacks env (.observe o) (.unavailable key)

/-- The amount is `op` on `x` and `y`, and the exact `op.whole?` of them has more than 96 bits. -/
inductive Exceeds (env : Environment) : Amount → Operator → Decimal → Decimal → Prop where
  | intro {op : Operator} {left right : Amount} {x y : Decimal} {i j k : Int} :
      left.value env = .ok x → right.value env = .ok y →
      left.whole? env = some i → right.whole? env = some j →
      op.whole? i j = some k → Decimal.limit ≤ k.natAbs →
      Exceeds env (.binary op left right) op x y

theorem Lacks.not_inRange (h : a.Lacks env e) : ¬a.InRange env := by
  rintro ⟨i, hi, -⟩
  cases h with
  | var hget => simp [whole?, hget] at hi
  | state => cases hi
  | date hkey => simp [whole?, hkey] at hi
  | observe hkey hget => simp [whole?, hkey, hget] at hi

theorem Exceeds.not_inRange (h : a.Exceeds env op x y) : ¬a.InRange env := by
  rintro ⟨k', hk', hlt⟩
  cases h with
  | intro _ _ hi hj hk hlimit =>
    cases ((whole?_binary hi hj).trans hk).symm.trans hk'
    exact Nat.not_lt.mpr hlimit hlt

/-- An operation whose exact result is out of range is refused, with its operands in the
`overflow`. -/
theorem Exceeds.value (h : a.Exceeds env op x y) (ha : a.Whole env) :
    a.value env = .error (.overflow op x y) := by
  cases h with
  | intro hx hy hi hj hk hlimit =>
    obtain ⟨i', hi', hxi⟩ := Whole.isExact ha.2.1 hx
    obtain ⟨j', hj', hyj⟩ := Whole.isExact ha.2.2 hy
    cases hi.symm.trans hi'
    cases hj.symm.trans hj'
    rw [value_binary hx hy]
    exact Operator.apply_eq_error_of_whole hxi hyj hk hlimit

namespace Whole

/-- What fails although all it `Visits` has values lacks a number or exceeds the range. -/
theorem lacks_or_exceeds (ha : a.Whole env) (he : a.value env = .error e)
    (hparts : ∀ b, a.Visits env b → ∃ x, b.value env = .ok x) :
    a.Lacks env e ∨ ∃ op x y, e = .overflow op x y ∧ a.Exceeds env op x y := by
  cases a with
  | const x => cases he
  | var name =>
    unfold value Environment.lookup at he
    split at he
    · cases he
    · rename_i hget
      cases he
      exact .inl (.var hget)
  | state name =>
    cases he
    exact .inl .state
  | observe o =>
    rcases bind_eq_error.mp he with he | ⟨key, hkey, he⟩
    · obtain ⟨date, hdate, rfl⟩ := mapError_eq_error.mp he
      exact .inl (.date hdate)
    · unfold Environment.observe at he
      split at he
      · cases he
      · rename_i hget
        cases he
        exact .inl (.observe (mapError_eq_ok.mp hkey) hget)
  | binary op left right =>
    obtain ⟨x, hx⟩ := hparts left .left
    obtain ⟨y, hy⟩ := hparts right (.right hx)
    obtain ⟨i, hi, hxi⟩ := isExact ha.2.1 hx
    obtain ⟨j, hj, hyj⟩ := isExact ha.2.2 hy
    obtain ⟨k, hk⟩ := Operator.exists_whole? ha.1 i j
    rw [value_binary hx hy] at he
    -- both operands are exact, so only the size of the exact result is left to fail
    rcases Nat.lt_or_ge k.natAbs Decimal.limit with hlt | hlimit
    · obtain ⟨d, hd, -⟩ := Operator.apply_eq_ok_of_whole hxi hyj hk hlt
      cases hd.symm.trans he
    · cases (Operator.apply_eq_error_of_whole hxi hyj hk hlimit).symm.trans he
      exact .inr ⟨op, x, y, rfl, .intro hx hy hi hj hk hlimit⟩
  | neg x =>
    obtain ⟨y, hy⟩ := hparts x .neg
    rw [value, hy] at he
    cases he
  | plus x =>
    obtain ⟨y, hy⟩ := hparts x .plus
    rw [value, hy] at he
    cases he
  | interest principal rate dayCount start finish => exact ha.elim
  | select relation left right whenTrue otherwise =>
    obtain ⟨x, hx⟩ := hparts left .selectLeft
    obtain ⟨y, hy⟩ := hparts right (.selectRight hx)
    obtain ⟨z, hz⟩ := exists_value_select hx hy hparts
    cases hz.symm.trans he

/-- **A refusal has a reason**: some `b` that is reached `Lacks` a number or `Exceeds` the range. -/
theorem exists_lacks_or_exceeds (ha : a.Whole env) (he : a.value env = .error e) :
    ∃ b, a.Reaches env b ∧
      (b.Lacks env e ∨ ∃ op x y, e = .overflow op x y ∧ b.Exceeds env op x y) := by
  obtain ⟨b, hreaches, hfails, hparts⟩ := exists_first_failure he
  exact ⟨b, hreaches, (ha.reaches hreaches).lacks_or_exceeds hfails hparts⟩

/-- An amount has a value if all that it `Reaches` is in range. -/
theorem exists_value (ha : a.Whole env) (h : ∀ b, a.Reaches env b → b.InRange env) :
    ∃ d, a.value env = .ok d := by
  cases hvalue : a.value env with
  | ok d => exact ⟨d, rfl⟩
  | error e =>
    obtain ⟨b, hreaches, hlacks | ⟨op, x, y, -, hexceeds⟩⟩ := ha.exists_lacks_or_exceeds hvalue
    · exact absurd (h b hreaches) hlacks.not_inRange
    · exact absurd (h b hreaches) hexceeds.not_inRange

/-- An overflow is the answer just if an exact result on the way is out of range. -/
theorem value_eq_overflow_iff (ha : a.Whole env) :
    a.value env = .error (.overflow op x y) ↔ ∃ b, a.Reaches env b ∧ b.Exceeds env op x y := by
  constructor
  · intro h
    obtain ⟨b, hreaches, hlacks | ⟨op, x, y, heq, hexceeds⟩⟩ := ha.exists_lacks_or_exceeds h
    · cases hlacks
    · cases heq
      exact ⟨b, hreaches, hexceeds⟩
  · rintro ⟨b, hreaches, hexceeds⟩
    exact hreaches.error (hexceeds.value (ha.reaches hreaches))

end Whole

/-- **Whole numbers are exact or refused.** An amount with `a.Whole env` has a value if each `b` it
`Reaches` is `InRange`: known, and of 96 bits. It fails with `overflow op x y` just if it reaches an
operation on values `x` and `y` that `Exceeds` the range. And a value, whenever there is one,
`IsExact`: it is `a.whole? env`, without places. -/
theorem value_exact_or_refused (env : Environment) (a : Amount) (ha : a.Whole env) :
    ((∀ b, a.Reaches env b → b.InRange env) → ∃ d, a.value env = .ok d ∧ a.IsExact env d) ∧
      (∀ op x y, a.value env = .error (.overflow op x y) ↔
        ∃ b, a.Reaches env b ∧ b.Exceeds env op x y) ∧
      ∀ d, a.value env = .ok d → a.IsExact env d := by
  refine ⟨fun h => ?_, fun op x y => ha.value_eq_overflow_iff, fun d => ha.isExact⟩
  obtain ⟨d, hd⟩ := ha.exists_value h
  exact ⟨d, hd, ha.isExact hd⟩

/-- One more than the largest number of 96 bits is refused, one less is exact. -/
theorem succ_refused_pred_exact :
    let largest := Decimal.ofInt (2 ^ 96 - 1) (by decide)
    let env : Environment := ⟨OrderedMap.empty.insert "n" largest, .empty⟩
    (binary .add (var "n") (const .one)).value env = .error (.overflow .add largest .one) ∧
      ∃ d, (binary .sub (var "n") (const .one)).value env = .ok d ∧
        (binary .sub (var "n") (const .one)).IsExact env d := by
  intro largest env
  have hget : env.bindings.get? "n" = some largest := by decide
  have hn : (var "n").Whole env := fun x hx => by
    cases hget.symm.trans hx
    rfl
  have hvar : (var "n").whole? env = some (2 ^ 96 - 1) := by rw [whole?, hget]; rfl
  have hvalue : (var "n").value env = .ok largest := by
    rw [value, Environment.lookup, hget]
  constructor
  · have hwhole : (binary .add (var "n") (const .one)).Whole env := ⟨by decide, hn, rfl⟩
    refine ((value_exact_or_refused env _ hwhole).2.1 .add largest .one).mpr ⟨_, .refl _, ?_⟩
    exact .intro hvalue rfl hvar rfl rfl (by decide)
  · have hwhole : (binary .sub (var "n") (const .one)).Whole env := ⟨by decide, hn, rfl⟩
    refine (value_exact_or_refused env _ hwhole).1 fun b hb => ?_
    cases hb with
    | refl => exact ⟨_, whole?_binary hvar rfl, by decide⟩
    | head hvisits hrest =>
      cases hvisits with
      | left =>
        cases hrest with
        | refl => exact ⟨_, hvar, by decide⟩
        | head hvisits _ => cases hvisits
      | right _ =>
        cases hrest with
        | refl => exact ⟨1, rfl, by decide⟩
        | head hvisits _ => cases hvisits

end Amount
end Covenant
