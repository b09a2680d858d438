/-
# No template gets stuck

Whatever the terms are, as long as anything is left of a contract that a
template makes, there is an action on every day after its last date,
`template.last?`, that either party may elect. And either party can then bring
the contract to an end all by itself, `EndsBy`, if the market and the variables
let it; but for a swap that is so only if the fixed leg of every period that is
left has a value. A swap on a notional that is too large has none for its first
period, and nothing can ever be elected of it.

Key definitions: `Template`, `Template.FixedLegsFrom`.
Key theorems: `Template.staysOpen`, `Template.never_stuck`,
`SwapTerms.tooLarge_stuck`.
-/
import Covenant.Proofs.Terms.Discharge

namespace Covenant

/-! ### What stays open -/

section

variable {last : Date}

theorem SwapTerms.staysOpen_body (terms : SwapTerms) :
    terms.body.StaysOpen last [terms.floatingPayer, terms.fixedPayer] := by
  refine .actions ⟨_, List.mem_cons_self, Guard.opensBy_after_periodEnd,
    Party.forall_contains_or _ _⟩ fun action haction => ?_
  rw [List.mem_singleton.mp haction]
  exact .next

theorem TarfTerms.staysOpen_settlement (terms : TarfTerms) :
    terms.settlement.StaysOpen last [terms.bank, terms.corp] := by
  refine .actions ⟨_, List.mem_cons_self, Guard.opensBy_after_periodEnd,
    Party.forall_contains_or _ _⟩ fun action haction => ?_
  rw [List.mem_singleton.mp haction]
  exact .next

/-- Either party can skip a period, and after an exercise either can settle it. -/
theorem TarfTerms.staysOpen_body (terms : TarfTerms) :
    terms.body.StaysOpen last [terms.bank, terms.corp] := by
  refine .actions ⟨_, List.mem_cons_of_mem _ List.mem_cons_self, Guard.opensBy_after_periodEnd,
    Party.forall_contains_or _ _⟩ fun action haction => ?_
  rcases List.mem_pair.mp haction with rfl | rfl
  · exact terms.staysOpen_settlement
  · exact .next

theorem SwaptionTerms.offered_exchange (terms : SwaptionTerms) {start finish : Date}
    (hfinish : finish ≤ last) (continuation : Arrangement) :
    (terms.exchange start finish continuation).Offered last [terms.bank, terms.corp] where
  opens := by
    rintro _ ⟨⟩
    exact hfinish
  contains := Party.forall_contains_or _ _

theorem SwaptionTerms.staysOpen_exchanges (terms : SwaptionTerms) :
    ∀ {all : List (Date × Date)}, (∀ p ∈ all, p.2 ≤ last) →
      (terms.exchanges all).StaysOpen last [terms.bank, terms.corp]
  | [], _ => .zero
  | (start, finish) :: rest, hall => by
    obtain ⟨hfinish, hrest⟩ := List.forall_mem_cons.mp hall
    refine .actions ⟨_, List.mem_cons_self, terms.offered_exchange hfinish _⟩
      fun action haction => ?_
    rw [List.mem_singleton.mp haction]
    exact terms.staysOpen_exchanges hrest

theorem SwaptionTerms.staysOpen_cancellable (terms : SwaptionTerms) {all : List (Date × Date)}
    (hall : ∀ p ∈ all, p.2 ≤ last) :
    (terms.cancellable all).StaysOpen last [terms.bank, terms.corp] := by
  cases all with
  | nil => exact .zero
  | cons period rest =>
    obtain ⟨hfinish, hrest⟩ := List.forall_mem_cons.mp hall
    refine .actions ⟨_, List.mem_cons_self, terms.offered_exchange hfinish _⟩
      fun action haction => ?_
    rcases List.mem_pair.mp haction with rfl | rfl
    · exact terms.staysOpen_exchanges hrest
    · exact .zero

theorem SwaptionTerms.settled_cancellable (terms : SwaptionTerms) :
    ∀ all, (terms.cancellable all).Settled
  | [] => .inl rfl
  | _ :: _ => .inr ⟨_, rfl⟩

/-- No period ends after the last of the dates. -/
theorem SwaptionTerms.staysOpen_after_zero (terms : SwaptionTerms)
    (hlast : ∀ d ∈ terms.accrualDates, d ≤ last) :
    (terms.after 0).StaysOpen last [terms.bank, terms.corp] := by
  refine terms.staysOpen_cancellable fun p hp => ?_
  obtain ⟨i, hi⟩ := List.mem_iff_getElem?.mp hp
  exact hlast _ (List.mem_of_getElem? (getElem?_periods.mp hi).2)

theorem FxForwardTerms.staysOpen_actions (terms : FxForwardTerms) :
    (Arrangement.actions [terms.deliver, terms.cashSettle]).StaysOpen terms.maturity
      [terms.buyer, terms.seller] := by
  refine .actions ⟨_, List.mem_cons_self, ?_, Party.forall_contains_or _ _⟩
    fun action haction => ?_
  · rintro _ ⟨⟩
    exact Int.le_refl _
  · rcases List.mem_pair.mp haction with rfl | rfl
    · exact .zero
    · exact .zero

end

/-! ### Templates -/

/-- The terms of a contract that a template makes. -/
inductive Template where
  | swaption (terms : SwaptionTerms)
  | tarf (terms : TarfTerms)
  | swap (terms : SwapTerms)
  | fxForward (terms : FxForwardTerms)

namespace Template

/-- The contract that the template makes of its terms. -/
def build : Template → Except ConstructionError Arrangement
  | swaption terms => terms.build
  | tarf terms => terms.build
  | swap terms => terms.build
  | fxForward terms => terms.build

/-- The two parties. -/
def parties : Template → List Party
  | swaption terms => [terms.bank, terms.corp]
  | tarf terms => [terms.bank, terms.corp]
  | swap terms => [terms.floatingPayer, terms.fixedPayer]
  | fxForward terms => [terms.buyer, terms.seller]

/-- The last date: of `accrualDates`, of the schedule, or `maturity`. -/
def last? : Template → Option Date
  | swaption terms => terms.accrualDates.getLast?
  | tarf terms => some terms.finish
  | swap terms => some terms.finish
  | fxForward terms => some terms.maturity

/-- For a swap, that every period from number `i` on has a value for its fixed leg; of the others
nothing is asked. -/
def FixedLegsFrom : Template → Nat → Prop
  | swap terms, i => terms.FixedLegsFrom i
  | _, _ => True

/-- What `rollOut` makes of a body of actions that stays open is a contract that stays open. -/
theorem staysOpen_rollOut {schedule : Schedule} {choices : List (Action Arrangement)}
    {t : Arrangement} {parties : List Party}
    (hopen : (Arrangement.actions choices).StaysOpen schedule.finish parties)
    (hbuild : rollOut schedule (.actions choices) = .ok t) :
    t.validate = .ok () ∧ t.Settled ∧ t.StaysOpen schedule.finish parties := by
  refine ⟨Arrangement.validate_rollOut hbuild, ?_, hopen.rollOut hbuild (Int.le_refl _)⟩
  obtain ⟨-, -, rfl⟩ := Arrangement.rollOut_eq_ok hbuild
  unfold Rollout.instantiate
  dsimp only
  split
  · rw [Arrangement.bind_actions]
    exact .inr ⟨_, rfl⟩
  · exact .inl rfl

/-- **A template makes contracts that stay open** after `template.last?`. -/
theorem staysOpen {template : Template} {t : Arrangement} (hbuild : template.build = .ok t) :
    ∃ last, template.last? = some last ∧
      t.validate = .ok () ∧ t.Settled ∧ t.StaysOpen last template.parties := by
  cases template with
  | swaption terms =>
    obtain ⟨⟨hdates, hincreasing⟩, rfl⟩ := SwaptionTerms.build_eq_ok.mp hbuild
    have hsome : (terms.accrualDates.getLast?).isSome = true := by
      rw [List.getLast?_isSome, ← List.length_pos_iff]
      omega
    obtain ⟨last, hlast⟩ := Option.isSome_iff_exists.mp hsome
    exact ⟨last, hlast, terms.validate_cancellable _, terms.settled_cancellable _,
      terms.staysOpen_after_zero (Date.le_of_getLast?_eq_some hincreasing hlast)⟩
  | tarf terms => exact ⟨_, rfl, staysOpen_rollOut terms.staysOpen_body hbuild⟩
  | swap terms => exact ⟨_, rfl, staysOpen_rollOut terms.staysOpen_body hbuild⟩
  | fxForward terms =>
    have hvalid := Arrangement.validate_of_accepted (.arranged hbuild)
    cases FxForwardTerms.build_eq_ok.mp hbuild
    exact ⟨_, rfl, hvalid, .inr ⟨_, rfl⟩, terms.staysOpen_actions⟩

section

variable {template : Template} {t a : Arrangement} {made : List Election} {last day : Date}
  {p : Party}

/-- **When what is left can be brought to an end** by one party, after the last date: always, but
for a swap just if `FixedLegsFrom made.length`. -/
theorem endsBy_iff (hbuild : template.build = .ok t) (hrun : Run t made a)
    (hlast : template.last? = some last) (hday : last < day) (hp : p ∈ template.parties) :
    a.EndsBy (MadeBy p day) ↔ template.FixedLegsFrom made.length := by
  cases template with
  | swaption terms =>
    obtain ⟨⟨-, hincreasing⟩, -⟩ := SwaptionTerms.build_eq_ok.mp hbuild
    have hdays : ∀ d ∈ terms.accrualDates, d < day := fun d hd =>
      Int.lt_of_le_of_lt (Date.le_of_getLast?_eq_some hincreasing hlast d hd) hday
    exact iff_of_true (SwaptionTerms.endsBy_of_run hbuild hrun (List.mem_pair.mp hp) hdays) trivial
  | tarf terms =>
    cases hlast
    exact iff_of_true (TarfTerms.endsBy_of_run hbuild hrun (List.mem_pair.mp hp) hday) trivial
  | swap terms =>
    cases hlast
    rw [SwapTerms.eq_inPeriod_of_run hbuild hrun]
    exact SwapTerms.endsBy_iff (List.mem_pair.mp hp) hday
  | fxForward terms =>
    cases hlast
    exact iff_of_true (FxForwardTerms.endsBy_of_run hbuild hrun (List.mem_pair.mp hp) hday) trivial

end

/-- **No template gets stuck.** After `template.last?` of a contract that `template.build` has, as
long as a run has left anything of it, `a.available day` has an action that either party may elect.
And either party can bring it to an end by elections of its own, `a.EndsBy (MadeBy p day)`, in
environments that let it: just if `template.FixedLegsFrom made.length`, which asks of a swap that
the fixed leg of every period that is left has a value, and nothing of the others. A target
redemption forward that is `atStart` of a period can be brought to an end by elections that are
`Skips`, in every environment; otherwise it was exercised in this period. -/
theorem never_stuck (template : Template) {t : Arrangement} (hbuild : template.build = .ok t) :
    ∃ last, template.last? = some last ∧ ∀ made a, Run t made a → ∀ day, last < day →
      (a ≠ .zero →
        ∃ action ∈ a.available day, ∀ p ∈ template.parties, action.actors.contains p = true) ∧
      (∀ p ∈ template.parties,
        a.EndsBy (MadeBy p day) ↔ template.FixedLegsFrom made.length) ∧
      ∀ terms, template = .tarf terms →
        (∃ i vars, a = terms.atStart i vars ∧
          ∀ p ∈ template.parties, ∀ env, a.EndsBy (TarfTerms.Skips p day env)) ∨
        ∃ s : TarfTerms.Standing, s.exercised = true ∧ a = terms.tree (some s) := by
  obtain ⟨last, hlast, hvalid, hsettled, hopen⟩ := staysOpen hbuild
  refine ⟨last, hlast, fun made a hrun day hday => ⟨fun ha => ?_, fun p hp => ?_, ?_⟩⟩
  · exact hrun.exists_available hvalid hsettled hopen ha hday
  · exact endsBy_iff hbuild hrun hlast hday hp
  · rintro terms rfl
    cases hlast
    obtain ⟨i, vars, rfl⟩ | hexercised := TarfTerms.atStart_or_exercised hbuild hrun
    · exact .inl ⟨i, vars, rfl, fun p hp env =>
        TarfTerms.endsBy_skips (List.mem_pair.mp hp) hday env⟩
    · exact .inr hexercised

/-- From the start of `tenAtMost` on `acmeCorp` can end it the day after it ended. -/
theorem tenAtMost_never_stuck : ∃ t, (tarf .tenAtMost).build = .ok t ∧ t ≠ .zero ∧
    (∃ action ∈ t.available (.literal 2015 3 2),
      ∀ p ∈ (tarf .tenAtMost).parties, action.actors.contains p = true) ∧
    t.EndsBy (MadeBy ⟨"acmeCorp"⟩ (.literal 2015 3 2)) := by
  have hbuild : (tarf .tenAtMost).build =
      .ok (TarfTerms.tenAtMost.tree (some TarfTerms.tenAtMost.first)) := rfl
  have hleft := TarfTerms.tree_ne_zero (TarfTerms.valid_first hbuild).1
  obtain ⟨last, hlast, hall⟩ := never_stuck _ hbuild
  cases hlast
  obtain ⟨havailable, hends, -⟩ := hall [] _ .start (.literal 2015 3 2) (by decide)
  exact ⟨_, hbuild, hleft, havailable hleft,
    (hends ⟨"acmeCorp"⟩ (List.mem_cons_of_mem _ List.mem_cons_self)).mpr trivial⟩

end Template

/-! ### A swap that is stuck -/

namespace SwapTerms

/-- The first quarter of the usual swap, at a rate of 100% and on a notional that can be written but
not times 90 days. -/
def tooLarge : SwapTerms :=
  { standard with
    finish := .literal 2015 4 1
    notional := .literal 50000000000000000000000000000 0
    fixedRate := .one }

theorem firstQuarter_tooLarge : tooLarge.fixedDayCount.interest tooLarge.notional
    tooLarge.fixedRate (.literal 2015 1 1) (.literal 2015 4 1) =
      .error (.overflow .mul (.literal 50000000000000000000000000000 0) (.literal 90 0)) := by
  decide +kernel

/-- **A swap on too large a notional is stuck.** Its only action is never refused for the day, but
nobody can ever elect it, whatever the market is, and so the swap is never discharged. -/
theorem tooLarge_stuck : ∃ t, tooLarge.build = .ok t ∧ t ≠ .zero ∧
    (∃ action ∈ t.available (.literal 2015 4 2),
      ∀ p ∈ [tooLarge.floatingPayer, tooLarge.fixedPayer], action.actors.contains p = true) ∧
    (∀ env actor label day e, t.elect env actor label day ≠ .ok e) ∧
    ∀ made, ¬Run t made .zero := by
  have hbuild : tooLarge.build = .ok (tooLarge.inPeriod 0) := build_eq_ok.mpr ⟨rfl, rfl⟩
  have hperiod : tooLarge.schedule.period? 0 = some ⟨0, .literal 2015 1 1, .literal 2015 4 1⟩ := by
    decide
  have hleft : tooLarge.inPeriod 0 ≠ .zero := by
    rw [inPeriod_of_period hperiod]
    exact nofun
  have hstuck : ∀ env actor label day e,
      (tooLarge.inPeriod 0).elect env actor label day ≠ .ok e := by
    intro env actor label day e helect
    obtain ⟨rfl, rfl, rfl⟩ := Arrangement.eq_of_elect_eq_ok helect
    obtain ⟨⟨p, hp, hsettles⟩, -⟩ := elect_inPeriod_eq_ok.mp helect
    rw [Schedule.getElem?_periods, hperiod] at hp
    cases hp
    obtain ⟨_, _, x, ⟨⟩, ⟨⟩, hfixed⟩ := hsettles.pays.exists_fixed
    cases hfixed.symm.trans firstQuarter_tooLarge
  have hstays : ∀ {made a}, Run (tooLarge.inPeriod 0) made a → a = tooLarge.inPeriod 0 := by
    intro made a hrun
    induction hrun with
    | start => rfl
    | elect _ helect ih => exact absurd (ih ▸ helect) (hstuck _ _ _ _ _)
  exact ⟨_, hbuild, hleft, by decide, hstuck, fun made hrun => hleft (hstays hrun).symm⟩

end SwapTerms
end Covenant
