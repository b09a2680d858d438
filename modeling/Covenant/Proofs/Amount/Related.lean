/-
# Amounts with related numbers in them

Two amounts are the same expression with numbers in it that are related by `R`.
If arithmetic keeps `R`, they have related values in environments that have
related data, or fail for the same reason with related numbers in it: the
constructors are gone through once, whatever `R` is. The divisions that valuing
comes to must be among those of `D`, for which quotients keep `R`.

Key definitions: `Amount.Related`, `EvalError.Related`, `Environment.Related`,
`Amount.Divides`, `Amount.DividesOnly`.
Key theorems: `Amount.Related.agrees`, `Amount.Related.bind`,
`Operator.alike_apply`, `Amount.Related.value`.
-/
import Covenant.Obligation
import Covenant.Proofs.Amount.Operator
import Covenant.Proofs.Decimal.Congruence
import Covenant.Proofs.Except
import Covenant.Proofs.Ordered

namespace Covenant

variable {R D : Decimal → Decimal → Prop}

/-! ### Expressions -/

/-- The same expression, with numbers in it that are related by `R`. -/
inductive Amount.Related (R : Decimal → Decimal → Prop) : Amount → Amount → Prop where
  | const {x y : Decimal} : R x y → Related R (.const x) (.const y)
  | var (name : String) : Related R (.var name) (.var name)
  | state (name : String) : Related R (.state name) (.state name)
  | observe (o : Observable ContractDate) : Related R (.observe o) (.observe o)
  | binary (op : Operator) {left left' right right' : Amount} :
      Related R left left' → Related R right right' →
      Related R (.binary op left right) (.binary op left' right')
  | neg {x x' : Amount} : Related R x x' → Related R (.neg x) (.neg x')
  | plus {x x' : Amount} : Related R x x' → Related R (.plus x) (.plus x')
  | interest {principal principal' rate rate' : Amount} (dayCount : DayCount)
      (start finish : ContractDate) : Related R principal principal' → Related R rate rate' →
      Related R (.interest principal rate dayCount start finish)
        (.interest principal' rate' dayCount start finish)
  | select (relation : Relation) {left left' right right' whenTrue whenTrue' otherwise otherwise' :
      Amount} : Related R left left' → Related R right right' → Related R whenTrue whenTrue' →
      Related R otherwise otherwise' →
      Related R (.select relation left right whenTrue otherwise)
        (.select relation left' right' whenTrue' otherwise')

/-- A rebind of the same variable to related amounts. -/
structure Rebind.Related (R : Decimal → Decimal → Prop) (r r' : Rebind) : Prop where
  name_eq : r.name = r'.name
  value_related : r.value.Related R r'.value

/-- An obligation between the same parties in the same currency, its amounts related. -/
structure Obligation.Related (R : Decimal → Decimal → Prop) (o o' : Obligation) : Prop where
  payer_eq : o.payer = o'.payer
  payee_eq : o.payee = o'.payee
  currency_eq : o.currency = o'.currency
  amount_related : o.amount.Related R o'.amount

namespace Amount

theorem Related.refl (hR : ∀ x, R x x) (a : Amount) : a.Related R a := by
  induction a with
  | const x => exact .const (hR x)
  | var name => exact .var name
  | state name => exact .state name
  | observe o => exact .observe o
  | binary op _ _ ihl ihr => exact .binary op ihl ihr
  | neg _ ih => exact .neg ih
  | plus _ ih => exact .plus ih
  | interest _ _ dayCount start finish ihp ihr => exact .interest dayCount start finish ihp ihr
  | select relation _ _ _ _ ihl ihr iht iho => exact .select relation ihl ihr iht iho

/-- Related amounts pass for the same expression: `a.agrees b` decides so. -/
theorem Related.agrees (hR : Decimal.Congruence R D) {a b : Amount} (h : a.Related R b) :
    a.agrees b = true := by
  induction h with
  | const hxy => exact hR.agrees hxy
  | var name => simp [Amount.agrees]
  | state name => simp [Amount.agrees]
  | observe o => simp [Amount.agrees]
  | binary op _ _ ihl ihr => simp [Amount.agrees, ihl, ihr]
  | neg _ ih => exact ih
  | plus _ ih => exact ih
  | interest dayCount start finish _ _ ihp ihr => simp [Amount.agrees, ihp, ihr]
  | select relation _ _ _ _ ihl ihr iht iho => simp [Amount.agrees, ihl, ihr, iht, iho]

/-- Bound to the same period, with related values for the state variables, they stay related. -/
theorem Related.bind {vars vars' : OrderedMap String Amount}
    (hvars : OrderedMap.Related (Related R) vars vars') (start finish : Date) {a b : Amount}
    (h : a.Related R b) : (a.bind start finish vars).Related R (b.bind start finish vars') := by
  induction h with
  | const hxy => exact .const hxy
  | var name => exact .var name
  | state name =>
    unfold Amount.bind
    rcases rel_cases (hvars.get? name) with ⟨hx, hx'⟩ | ⟨v, v', hx, hx', hv⟩
    · rw [hx, hx']
      exact .state name
    · rw [hx, hx']
      exact hv
  | observe o => exact .observe _
  | binary op _ _ ihl ihr => exact .binary op ihl ihr
  | neg _ ih => exact .neg ih
  | plus _ ih => exact .plus ih
  | interest dayCount s f _ _ ihp ihr => exact .interest dayCount _ _ ihp ihr
  | select relation _ _ _ _ ihl ihr iht iho => exact .select relation ihl ihr iht iho

end Amount

section

variable {vars vars' : OrderedMap String Amount}
  (hvars : OrderedMap.Related (Amount.Related R) vars vars') (start finish : Date)
include hvars

theorem Rebind.Related.bind {r r' : Rebind} (h : r.Related R r') :
    (r.bind start finish vars).Related R (r'.bind start finish vars') :=
  ⟨h.name_eq, h.value_related.bind hvars start finish⟩

theorem Obligation.Related.bind {o o' : Obligation} (h : o.Related R o') :
    (o.bind start finish vars).Related R (o'.bind start finish vars') :=
  ⟨h.payer_eq, h.payee_eq, h.currency_eq, h.amount_related.bind hvars start finish⟩

end

theorem Obligation.Related.agrees (hR : Decimal.Congruence R D) {o o' : Obligation}
    (h : o.Related R o') : o.agrees o' = true := by
  simp [Obligation.agrees, h.payer_eq, h.payee_eq, h.currency_eq, h.amount_related.agrees hR]

/-! ### Errors and environments -/

/-- The same error, with related numbers in it. -/
inductive EvalError.Related (R : Decimal → Decimal → Prop) : EvalError → EvalError → Prop where
  | same (e : EvalError) : Related R e e
  | divisionByZero {a a' b b' : Decimal} : R a a' → R b b' →
      Related R (.divisionByZero a b) (.divisionByZero a' b')
  | overflow (op : Operator) {a a' b b' : Decimal} : R a a' → R b b' →
      Related R (.overflow op a b) (.overflow op a' b')
  | unboundDirective {rebinds rebinds' : List Rebind} :
      List.Forall₂ (Rebind.Related R) rebinds rebinds' →
      Related R (.unboundDirective rebinds) (.unboundDirective rebinds')

/-- Values related by `R`, or related errors. -/
abbrev RelatedValue (R : Decimal → Decimal → Prop) :
    Except EvalError Decimal → Except EvalError Decimal → Prop :=
  Alike (EvalError.Related R) R

/-- The same variables and the same observables have a value in both, and related ones. -/
structure Environment.Related (R : Decimal → Decimal → Prop) (env env' : Environment) : Prop where
  bindings_related : OrderedMap.Related R env.bindings env'.bindings
  market_related : OrderedMap.Related R env.market env'.market

/-- What does not depend on numbers is alike whatever numbers are related. -/
theorem alike_same {α : Type} (x : Except EvalError α) :
    Alike (EvalError.Related R) (· = ·) x x :=
  .refl EvalError.Related.same (fun _ => rfl) x

namespace Environment.Related

variable {env env' : Environment}

theorem refl (hR : ∀ x, R x x) (env : Environment) : env.Related R env :=
  ⟨.refl hR _, .refl hR _⟩

theorem lookup (h : env.Related R env') (name : String) :
    RelatedValue R (env.lookup name) (env'.lookup name) := by
  unfold Environment.lookup
  rcases rel_cases (h.bindings_related.get? name) with ⟨hx, hx'⟩ | ⟨v, v', hx, hx', hv⟩
  · rw [hx, hx']
    exact .error (.same _)
  · rw [hx, hx']
    exact .ok hv

theorem observe (h : env.Related R env') (key : ObservableKey) :
    RelatedValue R (env.observe key) (env'.observe key) := by
  unfold Environment.observe
  rcases rel_cases (h.market_related.get? key) with ⟨hx, hx'⟩ | ⟨v, v', hx, hx', hv⟩
  · rw [hx, hx']
    exact .error (.same _)
  · rw [hx, hx']
    exact .ok hv

end Environment.Related

/-! ### Operations -/

namespace Operator

variable (op : Operator) {a a' b b' : Decimal}

theorem rel_result? (hR : Decimal.Congruence R D) (ha : R a a') (hb : R b b')
    (hzero : op = .div → b.isZero = false) (hdiv : op = .div → D a b)
    (hdiv' : op = .div → D a' b') :
    Option.Rel R (op.result? a b) (op.result? a' b') := by
  cases op with
  | add => exact hR.add ha hb
  | sub => exact hR.sub ha hb
  | mul => exact hR.mul ha hb
  | div => exact hR.div ha hb (hzero rfl) (hdiv rfl) (hdiv' rfl)
  | min => exact .some (hR.min ha hb)
  | max => exact .some (hR.max ha hb)

/-- On related operands `op.apply` comes to related results, or both fail with the operands in the
error. -/
theorem alike_apply (hR : Decimal.Congruence R D) (ha : R a a') (hb : R b b')
    (hdiv : op = .div → b.isZero = false → D a b)
    (hdiv' : op = .div → b'.isZero = false → D a' b') :
    RelatedValue R (op.apply a b) (op.apply a' b') := by
  have hzero := hR.isZero hb
  by_cases hbyZero : op = .div ∧ b.isZero = true
  · obtain ⟨rfl, hb0⟩ := hbyZero
    unfold apply
    dsimp only
    rw [← hzero, hb0]
    exact .error (.divisionByZero ha hb)
  · have hb0 : op = .div → b.isZero = false := fun hop =>
      Bool.eq_false_iff.mpr fun hb0 => hbyZero ⟨hop, hb0⟩
    have hresult := op.rel_result? hR ha hb hb0 (fun hop => hdiv hop (hb0 hop))
      (fun hop => hdiv' hop (hzero ▸ hb0 hop))
    rw [apply_eq hb0, apply_eq (hzero ▸ hb0)]
    rcases rel_cases hresult with ⟨hx, hx'⟩ | ⟨x, x', hx, hx', hxx⟩
    · rw [hx, hx']
      exact .error (.overflow op ha hb)
    · rw [hx, hx']
      exact .ok hxx

end Operator

/-- The days and the basis of `interest` are the same on both sides, and a basis is a narrow
divisor. -/
theorem DayCount.alike_interest (hR : Decimal.Congruence R D) (convention : DayCount)
    {principal principal' rate rate' : Decimal} (hp : R principal principal') (hr : R rate rate')
    (start finish : Date) :
    RelatedValue R (convention.interest principal rate start finish)
      (convention.interest principal' rate' start finish) := by
  have hbasis : ∀ h, (Decimal.ofNat convention.basis h).mantissa < UInt64.size := by
    cases convention <;> decide
  unfold interest
  refine (Operator.mul.alike_apply hR hp hr (fun h => nomatch h) (fun h => nomatch h)).bind
    fun x x' hx => ?_
  refine (Operator.mul.alike_apply hR hx (hR.refl _) (fun h => nomatch h)
    (fun h => nomatch h)).bind fun y y' hy => ?_
  exact Operator.div.alike_apply hR hy (hR.refl _) (fun _ hzero => hR.narrow _ hzero (hbasis _))
    (fun _ hzero => hR.narrow _ hzero (hbasis _))

theorem Relation.holds_eq (hR : Decimal.Congruence R D) (relation : Relation)
    {a a' b b' : Decimal} (ha : R a a') (hb : R b b') :
    relation.holds a b = relation.holds a' b' := by
  unfold holds
  rw [hR.compare ha hb]

/-! ### Values -/

namespace Amount

/-- Valuing the amount in `env` divides the first number by the second. The branch of a choice that
is not taken divides nothing. -/
inductive Divides (env : Environment) : Amount → Decimal → Decimal → Prop where
  | here {left right : Amount} {x y : Decimal} : left.value env = .ok x → right.value env = .ok y →
      y.isZero = false → Divides env (.binary .div left right) x y
  | left {op : Operator} {left right : Amount} {x y : Decimal} : Divides env left x y →
      Divides env (.binary op left right) x y
  | right {op : Operator} {left right : Amount} {v x y : Decimal} : left.value env = .ok v →
      Divides env right x y → Divides env (.binary op left right) x y
  | neg {a : Amount} {x y : Decimal} : Divides env a x y → Divides env (.neg a) x y
  | plus {a : Amount} {x y : Decimal} : Divides env a x y → Divides env (.plus a) x y
  | principal {principal rate : Amount} {dayCount : DayCount} {start finish : ContractDate}
      {x y : Decimal} : Divides env principal x y →
      Divides env (.interest principal rate dayCount start finish) x y
  | rate {principal rate : Amount} {dayCount : DayCount} {start finish : ContractDate}
      {v x y : Decimal} : principal.value env = .ok v → Divides env rate x y →
      Divides env (.interest principal rate dayCount start finish) x y
  | selectLeft {relation : Relation} {left right whenTrue otherwise : Amount} {x y : Decimal} :
      Divides env left x y → Divides env (.select relation left right whenTrue otherwise) x y
  | selectRight {relation : Relation} {left right whenTrue otherwise : Amount} {v x y : Decimal} :
      left.value env = .ok v → Divides env right x y →
      Divides env (.select relation left right whenTrue otherwise) x y
  | whenTrue {relation : Relation} {left right whenTrue otherwise : Amount} {v w x y : Decimal} :
      left.value env = .ok v → right.value env = .ok w → relation.holds v w = true →
      Divides env whenTrue x y → Divides env (.select relation left right whenTrue otherwise) x y
  | otherwise {relation : Relation} {left right whenTrue otherwise : Amount} {v w x y : Decimal} :
      left.value env = .ok v → right.value env = .ok w → relation.holds v w = false →
      Divides env otherwise x y → Divides env (.select relation left right whenTrue otherwise) x y

/-- `D` holds of every dividend and divisor that valuing the amount comes to. -/
def DividesOnly (D : Decimal → Decimal → Prop) (env : Environment) (a : Amount) : Prop :=
  ∀ x y, a.Divides env x y → D x y

/-- **Related amounts have related values** `a.value env` and `b.value env'` in environments that
are related, or fail with related errors. -/
theorem Related.value (hR : Decimal.Congruence R D) {env env' : Environment}
    (henv : env.Related R env') {a b : Amount} (h : a.Related R b) :
    a.DividesOnly D env → b.DividesOnly D env' → RelatedValue R (a.value env) (b.value env') := by
  induction h with
  | const hxy => exact fun _ _ => .ok hxy
  | var name => exact fun _ _ => henv.lookup name
  | state name => exact fun _ _ => .error (.same _)
  | observe o =>
    intro _ _
    refine (alike_same _).bind ?_
    rintro key _ rfl
    exact henv.observe key
  | binary op _ _ ihl ihr =>
    intro hdiv hdiv'
    have hl := ihl (fun x y h => hdiv x y (.left h)) (fun x y h => hdiv' x y (.left h))
    refine hl.bind_of fun v v' hv hv' hvv => ?_
    have hr := ihr (fun x y h => hdiv x y (.right hv h)) (fun x y h => hdiv' x y (.right hv' h))
    refine hr.bind_of fun w w' hw hw' hww => ?_
    refine op.alike_apply hR hvv hww (fun hop hzero => ?_) (fun hop hzero => ?_)
    · subst hop
      exact hdiv v w (.here hv hw hzero)
    · subst hop
      exact hdiv' v' w' (.here hv' hw' hzero)
  | neg _ ih =>
    intro hdiv hdiv'
    have hx := ih (fun x y h => hdiv x y (.neg h)) (fun x y h => hdiv' x y (.neg h))
    refine hx.bind fun v v' hv => .ok (hR.neg hv)
  | plus _ ih =>
    intro hdiv hdiv'
    have hx := ih (fun x y h => hdiv x y (.plus h)) (fun x y h => hdiv' x y (.plus h))
    refine hx.bind fun v v' hv => .ok (hR.max hv (hR.refl _))
  | interest dayCount start finish _ _ ihp ihr =>
    intro hdiv hdiv'
    have hp := ihp (fun x y h => hdiv x y (.principal h)) (fun x y h => hdiv' x y (.principal h))
    refine hp.bind_of fun v v' hv hv' hvv => ?_
    have hr := ihr (fun x y h => hdiv x y (.rate hv h)) (fun x y h => hdiv' x y (.rate hv' h))
    refine hr.bind fun w w' hww => ?_
    refine (alike_same _).bind ?_
    rintro s _ rfl
    refine (alike_same _).bind ?_
    rintro f _ rfl
    exact dayCount.alike_interest hR hvv hww s f
  | select relation _ _ _ _ ihl ihr iht iho =>
    intro hdiv hdiv'
    have hl := ihl (fun x y h => hdiv x y (.selectLeft h)) (fun x y h => hdiv' x y (.selectLeft h))
    refine hl.bind_of fun v v' hv hv' hvv => ?_
    have hr := ihr (fun x y h => hdiv x y (.selectRight hv h))
      (fun x y h => hdiv' x y (.selectRight hv' h))
    refine hr.bind_of fun w w' hw hw' hww => ?_
    have hsame := relation.holds_eq hR hvv hww
    cases hholds : relation.holds v w with
    | true =>
      rw [if_pos rfl, if_pos (hsame ▸ hholds)]
      exact iht (fun x y h => hdiv x y (.whenTrue hv hw hholds h))
        (fun x y h => hdiv' x y (.whenTrue hv' hw' (hsame ▸ hholds) h))
    | false =>
      rw [if_neg Bool.false_ne_true, if_neg (by rw [← hsame, hholds]; exact Bool.false_ne_true)]
      exact iho (fun x y h => hdiv x y (.otherwise hv hw hholds h))
        (fun x y h => hdiv' x y (.otherwise hv' hw' (hsame ▸ hholds) h))

end Amount
end Covenant
