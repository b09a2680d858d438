/-
# What a target redemption forward pays in all

Every settlement pays no more than the cap, and the cap starts at the target. If
what is left of the target, `terms.target - paidOut`, can always be written as a
decimal, the cap is just that, and so the target is never exceeded. Otherwise
the cap is rounded, at times up: by the 10 ^ 28th part at most, once for each
payment that another one follows. By so much the target can be exceeded, and it
is.

Key definitions: `TarfTerms.paidOut`, `TarfTerms.slack`, `TarfTerms.TargetFits`.
Key theorems: `TarfTerms.Course.paidOut_le`, `TarfTerms.Course.cap_eq`,
`TarfTerms.Course.targetFits`, `TarfTerms.paidOut_bounds`.
-/
import Covenant.Proofs.Ledger
import Covenant.Proofs.Terms.Tarf

namespace Covenant
namespace TarfTerms

open Decimal (IsDecimal)

/-! ### What is paid -/

/-- What `terms.bank` pays with payments. -/
def paidBy (terms : TarfTerms) (payments : List Payment) : ℚ :=
  paid payments ⟨terms.bank, terms.quoted⟩

/-- What `terms.bank` pays in all. -/
def paidOut (terms : TarfTerms) (made : List Election) : ℚ :=
  terms.paidBy (made.flatMap Election.payments)

/-- After every election so far, and before the first, `terms.target` less `paidOut` can be written
as a decimal. -/
def TargetFits (terms : TarfTerms) (made : List Election) : Prop :=
  ∀ before, before <+: made → IsDecimal (terms.target.toRat - terms.paidOut before)

/-- How far an amount is stretched if it is rounded up `n` times, each time by its 10 ^ 28th
part. -/
def slack (n : Nat) : ℚ := (1 + 1 / 10 ^ 28) ^ n

theorem slack_zero : slack 0 = 1 := pow_zero _

theorem one_le_slack (n : Nat) : 1 ≤ slack n := one_le_pow₀ (by norm_num)

theorem slack_add (n m : Nat) : slack (n + m) = slack n * slack m := pow_add _ n m

section

variable {terms : TarfTerms} {s : Standing} {label : String} {payments : List Payment}
  {turn : Option Turn} {next : Option Standing}

theorem paidBy_payout (p : Decimal) :
    terms.paidBy [⟨terms.bank, terms.corp, p, terms.quoted⟩] = p.toRat := by
  simp [paidBy, paid, volume, Payment.payerAccount]

/-- A step pays between nothing and `s.cap`. -/
theorem Step.paidBy_le (h : terms.Step s label payments turn next) (hcap : 0 ≤ s.cap.toRat) :
    0 ≤ terms.paidBy payments ∧ terms.paidBy payments ≤ s.cap.toRat := by
  obtain ⟨rfl, -⟩ | ⟨p, hpermits, rfl, -, -⟩ := h.pays
  · exact ⟨le_rfl, hcap⟩
  · rw [paidBy_payout]
    exact ⟨hpermits.nonneg, hpermits.le_cap⟩

theorem Step.paidBy_eq_zero (h : terms.Step s label payments turn next)
    (hzero : nonzero payments = 0) : terms.paidBy payments = 0 := by
  obtain ⟨rfl, -⟩ | ⟨p, -, rfl, -, -⟩ := h.pays
  · rfl
  · rw [paidBy_payout]
    refine Decimal.toRat_of_isZero ?_
    simpa [nonzero] using hzero

/-- **The next cap is exact** if some decimal denotes what is left. -/
theorem Step.cap_eq (h : terms.Step s label payments turn next)
    (hfits : IsDecimal (s.cap.toRat - terms.paidBy payments)) :
    ∀ s' ∈ next, s'.cap.toRat = s.cap.toRat - terms.paidBy payments := by
  intro s' hs'
  obtain ⟨rfl, hkeeps⟩ | ⟨p, -, rfl, -, hrest⟩ := h.pays
  · rw [hkeeps s' hs']
    exact (sub_zero _).symm
  · rw [paidBy_payout] at hfits ⊢
    have hexact := Decimal.sub_exact hfits
    rw [hrest s' hs', Option.map_some] at hexact
    exact Option.some.inj hexact

/-- **The next cap is rounded** by the 10 ^ 28th part at most, not at all if nothing was paid. -/
theorem Step.cap_le (h : terms.Step s label payments turn next) :
    ∀ s' ∈ next, s'.cap.toRat ≤
      (s.cap.toRat - terms.paidBy payments) * slack (nonzero payments) := by
  intro s' hs'
  obtain hzero | ⟨hone, -, -⟩ := h.nonzero_eq
  · have hpaid := h.paidBy_eq_zero hzero
    rw [h.cap_eq ⟨s.cap, by rw [hpaid, sub_zero]⟩ s' hs', hzero, slack_zero, mul_one]
  · obtain ⟨rfl, -⟩ | ⟨p, hpermits, rfl, -, hrest⟩ := h.pays
    · cases hone
    · have hround := le_of_abs_le (Decimal.sub_relative (hrest s' hs'))
      rw [abs_of_nonneg (sub_nonneg.mpr hpermits.le_cap)] at hround
      rw [hone, paidBy_payout, slack, pow_one, mul_add, mul_one, mul_one_div]
      linarith

end

/-! ### Courses -/

section

variable {terms : TarfTerms} {made : List Election} {turns : List Turn} {next : Option Standing}

theorem paidOut_append_singleton (terms : TarfTerms) (made : List Election) (e : Election) :
    terms.paidOut (made ++ [e]) = terms.paidOut made + terms.paidBy e.payments := by
  rw [paidOut, List.flatMap_append, List.flatMap_singleton]
  exact volume_append _ _ _ _

/-- What is left of the target can be written as a decimal as far as it could be before. -/
theorem TargetFits.of_append {e : Election} (h : terms.TargetFits (made ++ [e])) :
    terms.TargetFits made :=
  fun before hbefore => h before (hbefore.trans (List.prefix_append made [e]))

namespace Course

theorem paidOut_nonneg (h : terms.Course made turns next) (htarget : 0 ≤ terms.target.toRat) :
    0 ≤ terms.paidOut made := by
  induction h with
  | start => exact le_rfl
  | step hcourse hstep _ ih =>
    rw [paidOut_append_singleton]
    exact add_nonneg ih (hstep.paidBy_le (hcourse.cap_nonneg htarget _ rfl)).1

/-- What was paid and what is left come to the target, but for rounding: to no more than
`target * slack n` after `n` payments. -/
theorem paidOut_add_cap_le (h : terms.Course made turns next)
    (htarget : 0 ≤ terms.target.toRat) : ∀ s ∈ next, terms.paidOut made + s.cap.toRat ≤
      terms.target.toRat * slack (nonzero (made.flatMap Election.payments)) := by
  induction h with
  | start =>
    rintro _ ⟨⟩
    have hnone : nonzero (List.flatMap Election.payments []) = 0 := rfl
    rw [hnone, slack_zero, mul_one]
    exact (zero_add _).le
  | @step made turns s e turn next hcourse hstep _ ih =>
    intro s' hs'
    have hcap := hcourse.cap_nonneg htarget s rfl
    have hpaid := hcourse.paidOut_nonneg htarget
    have hstretch := one_le_slack (nonzero e.payments)
    rw [paidOut_append_singleton, List.flatMap_append, List.flatMap_singleton, nonzero_append,
      slack_add, ← mul_assoc]
    calc terms.paidOut made + terms.paidBy e.payments + s'.cap.toRat
        ≤ terms.paidOut made + terms.paidBy e.payments +
            (s.cap.toRat - terms.paidBy e.payments) * slack (nonzero e.payments) :=
          add_le_add_right (hstep.cap_le s' hs') _
      _ ≤ (terms.paidOut made + terms.paidBy e.payments) * slack (nonzero e.payments) +
            (s.cap.toRat - terms.paidBy e.payments) * slack (nonzero e.payments) :=
          add_le_add_left (le_mul_of_one_le_right
            (add_nonneg hpaid (hstep.paidBy_le hcap).1) hstretch) _
      _ = (terms.paidOut made + s.cap.toRat) * slack (nonzero e.payments) := by ring
      _ ≤ _ := mul_le_mul_of_nonneg_right (ih s rfl) (zero_le_one.trans hstretch)

/-- **The target is exceeded by rounding only**, by `slack` for each payment that another one
follows. -/
theorem paidOut_le (h : terms.Course made turns next) (htarget : 0 ≤ terms.target.toRat) :
    terms.paidOut made ≤
      terms.target.toRat * slack (nonzero (made.flatMap Election.payments) - 1) := by
  induction h with
  | start =>
    have hnone : nonzero (List.flatMap Election.payments []) = 0 := rfl
    rwa [hnone, Nat.zero_sub, slack_zero, mul_one]
  | @step made turns s e turn next hcourse hstep _ ih =>
    rw [paidOut_append_singleton, List.flatMap_append, List.flatMap_singleton, nonzero_append]
    obtain hzero | ⟨hone, -, -⟩ := hstep.nonzero_eq
    · rwa [hstep.paidBy_eq_zero hzero, hzero, add_zero, Nat.add_zero]
    · rw [hone, Nat.add_sub_cancel]
      have hcap := hcourse.cap_nonneg htarget s rfl
      have hlast := hcourse.paidOut_add_cap_le htarget s rfl
      exact (add_le_add_right (hstep.paidBy_le hcap).2 _).trans hlast

/-- **The cap is what is left of the target**, `terms.target` less `paidOut`, as long as that can be
written as a decimal. -/
theorem cap_eq (h : terms.Course made turns next) (hfits : terms.TargetFits made) :
    ∀ s ∈ next, s.cap.toRat = terms.target.toRat - terms.paidOut made := by
  induction h with
  | start =>
    rintro _ ⟨⟩
    exact (sub_zero _).symm
  | @step made turns s e turn next hcourse hstep _ ih =>
    have hcap := ih hfits.of_append s rfl
    have hleft := hfits _ (List.prefix_refl _)
    rw [paidOut_append_singleton, ← sub_sub, ← hcap] at hleft ⊢
    exact hstep.cap_eq hleft

/-- So the next election does not exceed it. -/
theorem paidOut_append_le {s : Standing} {e : Election} {turn : Option Turn}
    (h : terms.Course made turns (some s)) (htarget : 0 ≤ terms.target.toRat)
    (hfits : terms.TargetFits made) (hstep : terms.Step s e.label e.payments turn next) :
    terms.paidOut (made ++ [e]) ≤ terms.target.toRat := by
  have hle := (hstep.paidBy_le (h.cap_nonneg htarget s rfl)).2
  rw [h.cap_eq hfits s rfl] at hle
  rw [paidOut_append_singleton]
  linarith

/-- **The target is never exceeded** if `TargetFits`. -/
theorem paidOut_le_target (h : terms.Course made turns next) (htarget : 0 ≤ terms.target.toRat)
    (hfits : terms.TargetFits made) : terms.paidOut made ≤ terms.target.toRat := by
  cases h with
  | start => exact htarget
  | step hcourse hstep => exact hcourse.paidOut_append_le htarget hfits.of_append hstep

/-- `TargetFits` if target and payments have ended at a place `k` of which the target has fewer
units than the limit. -/
theorem targetFits {k : Nat} (h : terms.Course made turns next) (htarget : 0 ≤ terms.target.toRat)
    (hk : k ≤ 28) (hscale : terms.target.scale ≤ k)
    (hscales : ∀ p ∈ made.flatMap Election.payments, p.amount.scale ≤ k)
    (hlt : terms.target.toRat * Decimal.tenTo k < Decimal.limit) : terms.TargetFits made := by
  induction h with
  | start =>
    intro before hbefore
    rw [List.prefix_nil.mp hbefore]
    exact ⟨terms.target, (sub_zero _).symm⟩
  | @step made turns s e turn next hcourse hstep hsuccessor ih =>
    have hfits : terms.TargetFits made := ih fun p hp =>
      hscales p (by rw [List.flatMap_append]; exact List.mem_append_left _ hp)
    intro before hbefore
    obtain rfl | hbefore := List.prefix_concat_iff.mp hbefore
    · obtain ⟨units, hunits⟩ := exists_volume_mul_tenTo Payment.payerAccount
        ⟨terms.bank, terms.quoted⟩ hscales
      have hle := hcourse.paidOut_append_le htarget hfits hstep
      have hnonneg := (Course.step hcourse hstep hsuccessor).paidOut_nonneg htarget
      refine Decimal.isDecimal_of_mul_tenTo (s := k)
        (k := terms.target.unscaled * Decimal.tenTo (k - terms.target.scale) - units) ?_ ?_ hk
      · rw [sub_mul, Decimal.toRat_mul_tenTo hscale, Int.cast_sub]
        exact congrArg _ hunits
      · rw [abs_of_nonneg (sub_nonneg.mpr hle)]
        refine lt_of_le_of_lt (mul_le_mul_of_nonneg_right ?_ (Nat.cast_nonneg _)) hlt
        linarith
    · exact hfits before hbefore

end Course

/-- **How much a forward pays.** In every `Run` of the contract, `terms.paidOut` is no more than the
target stretched by `slack`, its 10 ^ 28th part, once for each `nonzero` payment but one, and there
are no more of these than `terms.uses`. It is no more than the target if `TargetFits`: what is left
can be written as a decimal after each election. So it can if target and payments have ended at a
place `k` of which the target has fewer units than `Decimal.limit`. -/
theorem paidOut_bounds (terms : TarfTerms) {t a : Arrangement} {made : List Election}
    (htarget : 0 ≤ terms.target.toRat) (hbuild : terms.build = .ok t) (hrun : Run t made a) :
    terms.paidOut made ≤
        terms.target.toRat * slack (nonzero (made.flatMap Election.payments) - 1) ∧
      nonzero (made.flatMap Election.payments) ≤ terms.uses.toNat ∧
      (terms.TargetFits made → terms.paidOut made ≤ terms.target.toRat) ∧
      ∀ k ≤ 28, terms.target.scale ≤ k →
        (∀ p ∈ made.flatMap Election.payments, p.amount.scale ≤ k) →
        terms.target.toRat * Decimal.tenTo k < Decimal.limit → terms.TargetFits made := by
  obtain ⟨turns, next, hcourse, -, -⟩ := exists_course htarget hbuild hrun
  exact ⟨hcourse.paidOut_le htarget, hcourse.nonzero_le.2, hcourse.paidOut_le_target htarget,
    fun k hk hscale hscales hlt => hcourse.targetFits htarget hk hscale hscales hlt⟩

end

theorem paidOut_twoPayments : tenAtMost.paidOut twoPayments = 10 + 5 / 10 ^ 28 := by
  have hfirst : (Decimal.literal 10000000000000000000000000005 28).toRat = 1 + 5 / 10 ^ 28 :=
    (Decimal.toRat_literal _).trans (by norm_num [Decimal.tenTo])
  have hsecond : (Decimal.literal 9000000000000000000000000000 27).toRat = 9 :=
    (Decimal.toRat_literal _).trans (by norm_num [Decimal.tenTo])
  have hsum : tenAtMost.paidOut twoPayments =
      (Decimal.literal 10000000000000000000000000005 28).toRat +
        (Decimal.literal 9000000000000000000000000000 27).toRat := by
    simp [paidOut, paidBy, paid, volume, twoPayments, Payment.payerAccount, tenAtMost, standard]
  rw [hsum, hfirst, hsecond]
  norm_num

/-- One payment is followed by another one, so the target is stretched once at most. -/
theorem tenAtMost_paidOut_bounds : ∃ t, 0 ≤ tenAtMost.target.toRat ∧ tenAtMost.build = .ok t ∧
    Run t twoPayments .zero ∧ tenAtMost.paidOut twoPayments ≤ 10 * slack 1 := by
  obtain ⟨t, hbuild, hrun⟩ := run_tenAtMost
  have hbound := (tenAtMost.paidOut_bounds target_tenAtMost_nonneg hbuild hrun).1
  rw [toRat_target_tenAtMost] at hbound
  exact ⟨t, target_tenAtMost_nonneg, hbuild, hrun, hbound⟩

/-- **The target is exceeded.** After the first payment what is left has no decimal and is rounded
up to `nineLeft`; all of it is paid. -/
theorem tenAtMost_exceeded : ∃ t, 0 ≤ tenAtMost.target.toRat ∧ tenAtMost.build = .ok t ∧
    Run t twoPayments .zero ∧ tenAtMost.target.toRat < tenAtMost.paidOut twoPayments := by
  obtain ⟨t, hbuild, hrun⟩ := run_tenAtMost
  refine ⟨t, target_tenAtMost_nonneg, hbuild, hrun, ?_⟩
  rw [toRat_target_tenAtMost, paidOut_twoPayments]
  norm_num

end TarfTerms
end Covenant
