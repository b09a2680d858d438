/-
# Contracts that stay open

A contract stays open, `StaysOpen`, if after a date every node of it has an
action that any one of its parties may elect, and so has the body of every
rollout, whose schedule ends by that date. No election loses this, and so
whatever a run leaves of such a contract can be elected of on every later day.

That an action is open does not say that it succeeds: a value may be missing, or
be too large. A contract ends by elections of a kind, `EndsBy`, if there are
such elections that leave nothing of it.

Key definitions: `Guard.OpensBy`, `Arrangement.StaysOpen`, `Arrangement.EndsBy`.
Key theorems: `Run.exists_available`, `Arrangement.endsBy_iff_exists_runIn`.
-/
import Covenant.Proofs.Run.Recorded
import Covenant.Proofs.Schedule.Partition

namespace Covenant

variable {last : Date}

/-! ### Guards -/

namespace Guard

/-- The guard lets every day after `last` through, if periods end by then. -/
def OpensBy (last : Date) : Guard → Prop
  | anytime => True
  | before _ => False
  | after date => ∀ t ∈ date.date?, t ≤ last

variable {g : Guard}

theorem opensBy_after_periodEnd : (after .periodEnd).OpensBy last := by
  rintro _ ⟨⟩

theorem OpensBy.bind (h : g.OpensBy last) {start finish : Date} (hstart : start ≤ last)
    (hfinish : finish ≤ last) : (g.bind start finish).OpensBy last := by
  cases g with
  | anytime => trivial
  | before date => exact h
  | after date =>
    cases date with
    | fixed date => exact h
    | periodStart => rintro _ ⟨⟩; exact hstart
    | periodEnd => rintro _ ⟨⟩; exact hfinish

/-- Outside of rollouts it then does let them through. -/
theorem OpensBy.holds (h : g.OpensBy last) (hfixed : g.ofPeriod = false) {day : Date}
    (hday : last < day) : g.holds day = true := by
  cases g with
  | anytime => rfl
  | before date => exact h.elim
  | after date =>
    cases date with
    | fixed date => exact decide_eq_true (Int.lt_of_le_of_lt (h date rfl) hday)
    | periodStart => cases hfixed
    | periodEnd => cases hfixed

end Guard

/-! ### Open trees -/

/-- After `last` any one of the parties may elect the action. -/
structure Action.Offered (last : Date) (parties : List Party) (action : Action Arrangement) :
    Prop where
  opens : action.guard.OpensBy last
  contains : ∀ p ∈ parties, action.actors.contains p = true

namespace Arrangement

variable {parties : List Party}

/-- At every node there is an action that is `Offered`, and the schedules of all rollouts end by
`last`. -/
inductive StaysOpen (last : Date) (parties : List Party) : Arrangement → Prop where
  | zero : StaysOpen last parties .zero
  | actions {choices : List (Action Arrangement)} :
      (∃ action ∈ choices, action.Offered last parties) →
      (∀ action ∈ choices, StaysOpen last parties action.continuation) →
      StaysOpen last parties (.actions choices)
  | next {rebinds : List Rebind} : StaysOpen last parties (.next rebinds)
  | resume {r : Rollout Arrangement} {rebinds : List Rebind} :
      r.schedule.finish ≤ last → StaysOpen last parties r.body →
      StaysOpen last parties (.resume ⟨r, rebinds⟩)

namespace StaysOpen

/-- Bound to a period of a rollout that stays open, a tree stays open. -/
theorem bind {a : Arrangement} (h : a.StaysOpen last parties) {r : Rollout Arrangement}
    (hfinish : r.schedule.finish ≤ last) (hbody : r.body.StaysOpen last parties) {i : Nat}
    {period : Period} (hperiod : r.schedule.period? i = some period) :
    (a.bind r period).StaysOpen last parties := by
  have hend : period.finish ≤ last := Int.le_trans (Schedule.finish_le_finish hperiod) hfinish
  have hstart : period.start ≤ last :=
    Int.le_trans (Int.le_of_lt (Schedule.start_lt_finish hperiod)) hend
  induction h with
  | zero => rw [Arrangement.bind]; exact .zero
  | actions hoffered _ ih =>
    rw [bind_actions]
    obtain ⟨action, hmem, hopens, hparties⟩ := hoffered
    refine .actions ⟨_, List.mem_map_of_mem hmem, hopens.bind hstart hend, hparties⟩ ?_
    intro bound hbound
    obtain ⟨action, hmem, rfl⟩ := List.mem_map.mp hbound
    exact ih action hmem
  | next => rw [Arrangement.bind]; exact .resume hfinish hbody
  | resume hinner hinnerBody => rw [Arrangement.bind]; exact .resume hinner hinnerBody

theorem step {env : Environment} {r : Resume Arrangement} {a : Arrangement}
    (h : (Arrangement.resume r).StaysOpen last parties) (hstep : r.step env = .ok a) :
    a.StaysOpen last parties := by
  obtain ⟨r, rebinds⟩ := r
  cases h with
  | resume hfinish hbody =>
    obtain ⟨-, rfl⟩ | ⟨period, vars, hperiod, -, rfl⟩ := Resume.step_eq_ok.mp hstep
    · exact .zero
    · exact hbody.bind (r := r.following vars) hfinish hbody hperiod

/-- **No election loses it**: `e.successor` stays open. -/
theorem elect {env : Environment} {a : Arrangement} (h : a.StaysOpen last parties) {actor : Party}
    {label : String} {day : Date} {e : Election} (helect : a.elect env actor label day = .ok e) :
    e.successor.StaysOpen last parties := by
  obtain ⟨action, payments, successor, hopen, -, hcarry, rfl⟩ := elect_eq_ok.mp helect
  have hmem := mem_choices_of_open? hopen
  cases h with
  | actions _ hafter =>
    exact (settle_keeps step _ (hafter action hmem) (carryOut_eq_ok.mp hcarry).2).2
  | zero => cases hmem
  | next => cases hmem
  | resume => cases hmem

/-- What is rolled out from a body that stays open stays open. -/
theorem rollOut {schedule : Schedule} {body t : Arrangement}
    (hbuild : Covenant.rollOut schedule body = .ok t) (hfinish : schedule.finish ≤ last)
    (hbody : body.StaysOpen last parties) : t.StaysOpen last parties := by
  obtain ⟨-, -, rfl⟩ := rollOut_eq_ok hbuild
  unfold Rollout.instantiate
  dsimp only
  split
  · rename_i period hperiod
    exact hbody.bind (r := ⟨schedule, body, 0, schedule.initial⟩) hfinish hbody hperiod
  · exact .zero

/-- What is left and stays open can be elected of, by any party. -/
theorem exists_available {a : Arrangement} (h : a.StaysOpen last parties)
    (hvalid : a.validate = .ok ()) (hsettled : a.Settled) (ha : a ≠ .zero) {day : Date}
    (hday : last < day) :
    ∃ action ∈ a.available day, ∀ p ∈ parties, action.actors.contains p = true := by
  obtain rfl | ⟨choices, rfl⟩ := hsettled
  · exact absurd rfl ha
  · cases h with
    | actions hoffered _ =>
      obtain ⟨action, hmem, hopens, hparties⟩ := hoffered
      have hfixed := not_ofPeriod_of_mem_choices hvalid hmem
      exact ⟨action, List.mem_filter.mpr ⟨hmem, hopens.holds hfixed hday⟩, hparties⟩

end StaysOpen
end Arrangement

section

variable {t a : Arrangement} {made : List Election} {parties : List Party}

theorem Run.staysOpen (ht : t.StaysOpen last parties) (hrun : Run t made a) :
    a.StaysOpen last parties := by
  induction hrun with
  | start => exact ht
  | elect _ helect ih => exact ih.elect helect

/-- Every state of a run of a settled contract is settled. -/
theorem Run.settled (ht : t.validate = .ok ()) (hsettled : t.Settled) (hrun : Run t made a) :
    a.Settled := by
  cases hrun with
  | start => exact hsettled
  | elect hrun helect => exact (Arrangement.validate_elect (hrun.validate ht).1 helect).1

/-- **Contracts that stay open can always be elected of.** -/
theorem Run.exists_available (ht : t.validate = .ok ()) (hsettled : t.Settled)
    (hopen : t.StaysOpen last parties) (hrun : Run t made a) (ha : a ≠ .zero) {day : Date}
    (hday : last < day) :
    ∃ action ∈ a.available day, ∀ p ∈ parties, action.actors.contains p = true :=
  (hrun.staysOpen hopen).exists_available (hrun.validate ht).1 (hrun.settled ht hsettled) ha hday

end

/-! ### Coming to an end -/

namespace Arrangement

/-- There are elections for which `P` holds, one after another, after which nothing is left. -/
inductive EndsBy (P : Environment → Election → Prop) : Arrangement → Prop where
  | zero : EndsBy P .zero
  | elect {a : Arrangement} {env : Environment} {e : Election} :
      a.elect env e.actor e.label e.day = .ok e → P env e → EndsBy P e.successor → EndsBy P a

variable {P : Environment → Election → Prop}

theorem EndsBy.imp {Q : Environment → Election → Prop} {a : Arrangement} (h : a.EndsBy P)
    (himp : ∀ env e, P env e → Q env e) : a.EndsBy Q := by
  induction h with
  | zero => exact .zero
  | elect helect hkind _ ih => exact .elect helect (himp _ _ hkind) ih

theorem EndsBy.of_runIn {a b : Arrangement} {made : List (Environment × Election)}
    (hrun : RunIn a made b) (hall : ∀ x ∈ made, P x.1 x.2) (h : b.EndsBy P) : a.EndsBy P := by
  induction hrun with
  | start => exact h
  | elect _ helect ih =>
    obtain ⟨hmade, hlast⟩ := List.forall_mem_append.mp hall
    exact ih hmade (.elect helect (hlast _ List.mem_cons_self) h)

/-- `a.EndsBy P` is a run to the end with such elections. -/
theorem endsBy_iff_exists_runIn {a : Arrangement} :
    a.EndsBy P ↔ ∃ made, RunIn a made .zero ∧ ∀ x ∈ made, P x.1 x.2 := by
  constructor
  · intro h
    induction h with
    | zero => exact ⟨[], .start, fun _ h => absurd h List.not_mem_nil⟩
    | elect helect hkind _ ih =>
      obtain ⟨made, hrun, hall⟩ := ih
      exact ⟨_ :: made, RunIn.cons helect hrun, List.forall_mem_cons.mpr ⟨hkind, hall⟩⟩
  · rintro ⟨made, hrun, hall⟩
    exact .of_runIn hrun hall .zero

end Arrangement
end Covenant
