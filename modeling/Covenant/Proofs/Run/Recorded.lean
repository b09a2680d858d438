/-
# Runs with their environments

A run says which elections were made, but not what each was made in. Where that
matters, `RunIn` records the environments along with the elections; every run
can be recorded so.

Some contracts are a row of states, `state 0`, `state 1` and so on, each of
which is left for the next one only, save that the first may also be left for
good. Their runs are just those that take the row state by state, as far as they
get, or that leave it at once.

Key definitions: `RunIn`.
Key theorems: `run_iff_exists_runIn`, `runIn_row_iff`, `runIn_line_iff`.
-/
import Covenant.Proofs.Run
import Mathlib.Data.List.Induction

namespace Covenant

/-- A run of the contract `start`, each election with the environment that it was made in. -/
inductive RunIn (start : Arrangement) : List (Environment × Election) → Arrangement → Prop where
  | start : RunIn start [] start
  | elect {made : List (Environment × Election)} {a : Arrangement} {env : Environment}
      {e : Election} : RunIn start made a → a.elect env e.actor e.label e.day = .ok e →
      RunIn start (made ++ [(env, e)]) e.successor

/-- `Run` is what is left of `RunIn` without the environments. -/
theorem run_iff_exists_runIn {t a : Arrangement} {made : List Election} :
    Run t made a ↔ ∃ recorded, recorded.map Prod.snd = made ∧ RunIn t recorded a := by
  constructor
  · intro h
    induction h with
    | start => exact ⟨[], rfl, .start⟩
    | @elect made a env actor label day e _ helect ih =>
      obtain ⟨recorded, rfl, hrecorded⟩ := ih
      obtain ⟨rfl, rfl, rfl⟩ := Arrangement.eq_of_elect_eq_ok helect
      exact ⟨recorded ++ [(env, e)], by rw [List.map_append, List.map_singleton],
        hrecorded.elect helect⟩
  · rintro ⟨recorded, rfl, h⟩
    induction h with
    | start => exact .start
    | elect _ helect ih =>
      rw [List.map_append, List.map_singleton]
      exact ih.elect helect

/-- A run after one more election is a run. -/
theorem RunIn.cons {a b : Arrangement} {made : List (Environment × Election)} {env : Environment}
    {e : Election} (helect : a.elect env e.actor e.label e.day = .ok e)
    (h : RunIn e.successor made b) : RunIn a ((env, e) :: made) b := by
  induction h with
  | start => exact RunIn.elect .start helect
  | elect _ hlast ih => exact ih.elect hlast

/-! ### Rows of states -/

section

variable {state : Nat → Arrangement} {Next : Nat → Environment → Election → Prop}
  {Out : Environment → Election → Prop} {made : List (Environment × Election)} {a : Arrangement}

/-- What holds of every election of a longer row holds of those before and of the last. -/
theorem forall_getElem?_append_singleton {P : Nat → Environment → Election → Prop}
    {env : Environment} {e : Election} :
    (∀ i env' e', (made ++ [(env, e)])[i]? = some (env', e') → P i env' e') ↔
      (∀ i env' e', made[i]? = some (env', e') → P i env' e') ∧ P made.length env e := by
  constructor
  · intro h
    refine ⟨fun i env' e' hi => h i env' e' ?_, h _ _ _ List.getElem?_concat_length⟩
    rw [List.getElem?_append_left (List.getElem?_eq_some_iff.mp hi).1, hi]
  · rintro ⟨hmade, hlast⟩ i env' e' hi
    rcases Nat.lt_trichotomy i made.length with hlt | rfl | hgt
    · rw [List.getElem?_append_left hlt] at hi
      exact hmade i env' e' hi
    · rw [List.getElem?_concat_length] at hi
      cases hi
      exact hlast
    · rw [List.getElem?_eq_none (by rw [List.length_append, List.length_singleton]; omega)] at hi
      cases hi

/-- A row has no more elections than places. -/
theorem length_le_of_forall_getElem? {n : Nat}
    (h : ∀ i env e, made[i]? = some (env, e) → i < n) : made.length ≤ n :=
  Nat.le_of_not_lt fun hlt =>
    absurd (h n made[n].1 made[n].2 (List.getElem?_eq_getElem hlt)) (Nat.lt_irrefl n)

/-- **The runs of a row of states** take it state by state, by elections that are `Next`, as far as
they get, or leave it at once, by one that is `Out`. -/
theorem runIn_row_iff (hrow : ∀ i env e, (state i).elect env e.actor e.label e.day = .ok e ↔
      (Next i env e ∧ e.successor = state (i + 1)) ∨
        (i = 0 ∧ Out env e ∧ e.successor = .zero)) :
    RunIn (state 0) made a ↔
      (a = state made.length ∧
        ∀ i env e, made[i]? = some (env, e) → Next i env e ∧ e.successor = state (i + 1)) ∨
      ∃ env e, made = [(env, e)] ∧ Out env e ∧ e.successor = .zero ∧ a = .zero := by
  constructor
  · intro h
    induction h with
    | start => exact .inl ⟨rfl, fun i env e hi => by cases hi⟩
    | @elect made a env e _ helect ih =>
      obtain ⟨rfl, hmade⟩ | ⟨_, _, -, -, -, rfl⟩ := ih
      · obtain ⟨hnext, hsuccessor⟩ | ⟨hfirst, hout, hsuccessor⟩ := (hrow _ _ _).mp helect
        · rw [List.length_append, List.length_singleton]
          exact .inl ⟨hsuccessor,
            forall_getElem?_append_singleton.mpr ⟨hmade, hnext, hsuccessor⟩⟩
        · cases List.eq_nil_of_length_eq_zero hfirst
          exact .inr ⟨env, e, rfl, hout, hsuccessor, hsuccessor⟩
      · -- nothing is left to elect once the row has been left
        exact absurd helect Arrangement.elect_zero_ne_ok
  · rintro (⟨rfl, hmade⟩ | ⟨env, e, rfl, hout, hsuccessor, rfl⟩)
    · induction made using List.reverseRecOn with
      | nil => exact .start
      | append_singleton made last ih =>
        obtain ⟨env, e⟩ := last
        obtain ⟨hmade, hlast⟩ := forall_getElem?_append_singleton.mp hmade
        rw [List.length_append, List.length_singleton, ← hlast.2]
        exact (ih hmade).elect ((hrow _ _ _).mpr (.inl hlast))
    · rw [← hsuccessor]
      exact RunIn.elect .start ((hrow 0 env e).mpr (.inr ⟨rfl, hout, hsuccessor⟩))

/-- A row that cannot be left is taken by elections that are `Next`, as far as its runs get. -/
theorem runIn_line_iff (hline : ∀ i env e, (state i).elect env e.actor e.label e.day = .ok e ↔
      Next i env e ∧ e.successor = state (i + 1)) :
    RunIn (state 0) made a ↔ a = state made.length ∧
      ∀ i env e, made[i]? = some (env, e) → Next i env e ∧ e.successor = state (i + 1) := by
  have hrow (i : Nat) (env : Environment) (e : Election) :
      (state i).elect env e.actor e.label e.day = .ok e ↔
        (Next i env e ∧ e.successor = state (i + 1)) ∨ (i = 0 ∧ False ∧ e.successor = .zero) := by
    rw [hline]
    exact (or_iff_left fun h => h.2.1).symm
  refine (runIn_row_iff hrow).trans (or_iff_left ?_)
  · rintro ⟨_, _, -, ⟨⟩, -⟩

end

end Covenant
