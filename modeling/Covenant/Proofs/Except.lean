/-
# Results that may fail

A sequence of steps succeeds if each of them does, and otherwise fails as the
first that fails. Two results are alike, `Alike E R x y`, if both succeed, with
values related by `R`, or both fail, with errors related by `E`; steps that are
alike make alike sequences. A result stands against another,
`Stands lifted x y`, if the other is the same, unless it is a failure of a kind
that may be lifted; steps that stand make sequences that stand.

Key definitions: `Alike`, `Stands`.
Key theorems: `bind_eq_ok`, `andThen_eq_ok`, `bind_eq_error`, `Alike.bind`,
`Stands.bind`.
-/

namespace Covenant

variable {ε α β : Type}

theorem bind_eq_ok {x : Except ε α} {f : α → Except ε β} {b : β} :
    x >>= f = .ok b ↔ ∃ a, x = .ok a ∧ f a = .ok b := by
  cases x <;> simp [bind, Except.bind]

/-- A check `x` followed by another step `y`. -/
theorem andThen_eq_ok {x : Except ε Unit} {y : Except ε β} {b : β} :
    (x >>= fun _ => y) = .ok b ↔ x = .ok () ∧ y = .ok b := by
  cases x <;> simp [bind, Except.bind]

theorem bind_eq_error {x : Except ε α} {f : α → Except ε β} {e : ε} :
    x >>= f = .error e ↔ x = .error e ∨ ∃ a, x = .ok a ∧ f a = .error e := by
  cases x <;> simp [bind, Except.bind]

theorem pure_eq_ok {a b : α} : (pure a : Except ε α) = .ok b ↔ a = b := by
  simp [pure, Except.pure]

theorem mapError_eq_ok {ε' : Type} {x : Except ε α} {f : ε → ε'} {a : α} :
    x.mapError f = .ok a ↔ x = .ok a := by
  cases x with
  | ok b => exact ⟨fun h => congrArg _ (Except.ok.inj h), fun h => congrArg _ (Except.ok.inj h)⟩
  | error e => exact ⟨nofun, nofun⟩

theorem mapError_eq_error {ε' : Type} {x : Except ε α} {f : ε → ε'} {e' : ε'} :
    x.mapError f = .error e' ↔ ∃ e, x = .error e ∧ e' = f e := by
  cases x with
  | ok b => exact ⟨nofun, fun ⟨_, h, _⟩ => nomatch h⟩
  | error e =>
    refine ⟨fun h => ⟨e, rfl, (Except.error.inj h).symm⟩, ?_⟩
    rintro ⟨_, ⟨⟩, rfl⟩
    rfl

theorem pure_ne_error {a : α} {e : ε} : (pure a : Except ε α) ≠ .error e := by
  simp [pure, Except.pure]

/-! ### Alike results -/

/-- Both results succeed, with values related by `R`, or both fail, with errors related by `E`. -/
inductive Alike (E : ε → ε → Prop) (R : α → α → Prop) : Except ε α → Except ε α → Prop where
  | ok {a b : α} : R a b → Alike E R (.ok a) (.ok b)
  | error {e e' : ε} : E e e' → Alike E R (.error e) (.error e')

namespace Alike

variable {E : ε → ε → Prop} {R : α → α → Prop} {S : β → β → Prop}

/-- Results that are alike are both errors or both values. -/
theorem error_or_ok {x y : Except ε α} (h : Alike E R x y) :
    (∃ e e', x = .error e ∧ y = .error e' ∧ E e e') ∨ ∃ a b, x = .ok a ∧ y = .ok b ∧ R a b := by
  cases h with
  | ok hab => exact .inr ⟨_, _, rfl, rfl, hab⟩
  | error he => exact .inl ⟨_, _, rfl, rfl, he⟩

theorem imp {R' : α → α → Prop} {x y : Except ε α} (h : Alike E R x y)
    (hR : ∀ a b, R a b → R' a b) : Alike E R' x y := by
  cases h with
  | ok hab => exact .ok (hR _ _ hab)
  | error he => exact .error he

theorem bind {x y : Except ε α} {f g : α → Except ε β} (h : Alike E R x y)
    (hnext : ∀ a b, R a b → Alike E S (f a) (g b)) : Alike E S (x >>= f) (y >>= g) := by
  cases h with
  | ok hab => exact hnext _ _ hab
  | error he => exact .error he

/-- What comes next, `f a` and `g b`, may depend on what the results were. -/
theorem bind_of {x y : Except ε α} {f g : α → Except ε β} (h : Alike E R x y)
    (hnext : ∀ a b, x = .ok a → y = .ok b → R a b → Alike E S (f a) (g b)) :
    Alike E S (x >>= f) (y >>= g) := by
  cases h with
  | ok hab => exact hnext _ _ rfl rfl hab
  | error he => exact .error he

theorem mapError {ε' : Type} {E' : ε' → ε' → Prop} {x y : Except ε α} {f : ε → ε'}
    (h : Alike E R x y) (hf : ∀ e e', E e e' → E' (f e) (f e')) :
    Alike E' R (x.mapError f) (y.mapError f) := by
  cases h with
  | ok hab => exact .ok hab
  | error he => exact .error (hf _ _ he)

theorem refl (hE : ∀ e, E e e) (hR : ∀ a, R a a) : ∀ x : Except ε α, Alike E R x x
  | .ok a => .ok (hR a)
  | .error e => .error (hE e)

end Alike

/-! ### Results that stand -/

/-- The first result is a failure of a kind that may be `lifted`, or the second is the same. -/
def Stands (lifted : ε → Bool) (x y : Except ε α) : Prop :=
  (∃ e, x = .error e ∧ lifted e = true) ∨ x = y

namespace Stands

variable {lifted : ε → Bool}

theorem refl (x : Except ε α) : Stands lifted x x := .inr rfl

theorem of_lifted {e : ε} (h : lifted e = true) (y : Except ε α) : Stands lifted (.error e) y :=
  .inl ⟨e, rfl, h⟩

/-- A value stands. -/
theorem eq_ok {x y : Except ε α} (h : Stands lifted x y) {a : α} (hx : x = .ok a) : y = .ok a := by
  rcases h with ⟨e, he, -⟩ | rfl
  · rw [hx] at he
    cases he
  · exact hx

/-- A failure of another kind stands. -/
theorem eq_error {x y : Except ε α} (h : Stands lifted x y) {e : ε} (hx : x = .error e)
    (he : lifted e = false) : y = .error e := by
  rcases h with ⟨e', he', hlifted⟩ | rfl
  · cases hx.symm.trans he'
    rw [he] at hlifted
    cases hlifted
  · exact hx

theorem mapError {ε' : Type} {lifted' : ε' → Bool} {x y : Except ε α} {f : ε → ε'}
    (h : Stands lifted x y) (hf : ∀ e, lifted e = true → lifted' (f e) = true) :
    Stands lifted' (x.mapError f) (y.mapError f) := by
  rcases h with ⟨e, rfl, he⟩ | rfl
  · exact of_lifted (hf e he) _
  · exact refl _

theorem bind {x y : Except ε α} {f g : α → Except ε β} (h : Stands lifted x y)
    (hnext : ∀ a, x = .ok a → Stands lifted (f a) (g a)) : Stands lifted (x >>= f) (y >>= g) := by
  rcases h with ⟨e, rfl, he⟩ | rfl
  · exact of_lifted he _
  · cases x with
    | ok a => exact hnext a rfl
    | error e => exact refl _

end Stands
end Covenant
