/-
# Logs in parts

A log `steps ++ later` may be replayed in parts, each from what the part before
it left. The elections of the whole are those of the parts one after the other;
it fails as the first part that fails, the steps counted on from the parts
before. The one thing that is looked at across the seam is the order of the
dates, if that is asked for, and it is looked at before the election.

Key definitions: `Replay.allElections`, `Replay.seam`, `Replay.Failure.after`.
Key theorems: `Replay.elections_append`, `Replay.allElections_append`,
`replay_in_parts`.
-/
import Covenant.Proofs.Replay.Steps
import Covenant.Proofs.Run.Length

namespace Covenant
namespace Replay

variable {options : Options} {env : Environment}

/-! ### Steps counted on -/

/-- The failure, its step counted after `before` others. -/
def Failure.after (before : Nat) : Failure → Failure
  | election step actor label cause => election (before + step) actor label cause
  | outOfOrder step day => outOfOrder (before + step) day
  | failure => failure

theorem inOrder_after (before index : Nat) (last : Option Date) (step : LogStep) :
    inOrder options (before + index) last step =
      (inOrder options index last step).mapError (.after before) := by
  unfold inOrder
  split <;> rfl

/-- Where the count of steps begins shows only in a failure, as `Failure.after` says. -/
theorem elections_after (before : Nat) : ∀ (steps : List LogStep) (index : Nat)
    (last : Option Date) (a : Arrangement),
    elections options env (before + index) last a steps =
      (elections options env index last a steps).mapError (.after before)
  | [], _, _, _ => rfl
  | step :: rest, index, last, a => by
    rw [elections_cons, elections_cons, inOrder_after]
    cases inOrder options index last step with
    | error e => rfl
    | ok u =>
      cases a.elect env step.actor step.label step.day with
      | error cause => rfl
      | ok e =>
        have hrest := elections_after before rest (index + 1) (some step.day) e.successor
        show elections options env (before + (index + 1)) (some step.day) e.successor rest >>= _ =
          (elections options env (index + 1) (some step.day) e.successor rest >>= _).mapError _
        rw [hrest]
        cases elections options env (index + 1) (some step.day) e.successor rest <;> rfl

/-! ### One part after the other -/

/-- The day of the last step, or `last` if there is no step. -/
def lastDay (last : Option Date) : List LogStep → Option Date
  | [] => last
  | step :: rest => lastDay (some step.day) rest

theorem lastDay_cons (step : LogStep) (rest : List LogStep) (last : Option Date) :
    lastDay last (step :: rest) = (step :: rest).getLast?.map LogStep.day := by
  induction rest generalizing step last with
  | nil => rfl
  | cons next rest ih =>
    rw [lastDay, ih next, List.getLast?_cons_cons]

theorem lastDay_none (steps : List LogStep) :
    lastDay none steps = steps.getLast?.map LogStep.day := by
  cases steps with
  | nil => rfl
  | cons step rest => exact lastDay_cons step rest none

/-- The elections of a log in two parts: `later` goes on from what `steps` left, with its count of
steps and its last day. -/
theorem elections_append (later : List LogStep) : ∀ (steps : List LogStep) (index : Nat)
    (last : Option Date) (a : Arrangement),
    elections options env index last a (steps ++ later) = (do
      let r ← elections options env index last a steps
      let r' ← elections options env (index + steps.length) (lastDay last steps) r.2 later
      return (r.1 ++ r'.1, r'.2))
  | [], index, last, a => by
    show elections options env index last a later =
      elections options env index last a later >>= fun r => pure ([] ++ r.1, r.2)
    simp
  | step :: rest, index, last, a => by
    have hlength : index + (step :: rest).length = index + 1 + rest.length := by
      rw [List.length_cons]
      omega
    have hrest := elections_append later rest (index + 1) (some step.day)
    rw [List.cons_append, elections_cons, elections_cons, hlength, lastDay]
    simp only [hrest, bind_assoc, pure_bind, List.cons_append]

/-- The day before the first step matters only to whether that step is `inOrder`. -/
theorem elections_of_last (index : Nat) (last : Option Date) (a : Arrangement)
    (steps : List LogStep) :
    elections options env index last a steps = (do
      steps.head?.elim (.ok ()) (inOrder options index last)
      elections options env index none a steps) := by
  cases steps with
  | nil => rfl
  | cons step rest =>
    rw [elections_cons, elections_cons, inOrder_none]
    rfl

/-! ### Whole logs -/

/-- The elections of a whole log, and what is left after them: `elections` from the first step
on. -/
def allElections (options : Options) (env : Environment) (a : Arrangement)
    (steps : List LogStep) : Except Failure (List Election × Arrangement) :=
  elections options env 0 none a steps

/-- Whether the first step of `later` comes in the order that is asked for, after the last of
`steps`. -/
def seam (options : Options) (steps later : List LogStep) : Except Failure Unit :=
  later.head?.elim (.ok ()) (inOrder options steps.length (steps.getLast?.map LogStep.day))

/-- The parts are in order if the later one does not begin before the other ended. -/
theorem seam_eq_ok {steps later : List LogStep} : seam options steps later = .ok () ↔
    (options.requireChronological = true →
      ∀ last ∈ steps.getLast?, ∀ next ∈ later.head?, ¬ next.day < last.day) := by
  unfold seam
  cases later with
  | nil => simp
  | cons next rest =>
    rw [List.head?_cons, Option.elim_some, inOrder]
    cases steps.getLast? <;> simp [goesBack]

/-- The outcome of elections that were made: `netPositions` of their payments. -/
def net (r : List Election × Arrangement) : Except Failure Outcome := do
  let positions ← (netPositions (r.1.flatMap Election.payments)).mapError .positions
  return ⟨r.1, r.2, positions⟩

/-- A replay with `requireTerminal = false` makes the elections and nets them. -/
theorem run_eq_net (h : options.requireTerminal = false) (a : Arrangement) (steps : List LogStep) :
    run options env a steps = allElections options env a steps >>= net := by
  unfold run
  rw [h]
  rfl

/-- **The elections of a log in two parts**, the second replayed from what the first left. -/
theorem allElections_append (a : Arrangement) (steps later : List LogStep) :
    allElections options env a (steps ++ later) = (do
      let r ← allElections options env a steps
      seam options steps later
      let r' ← (allElections options env r.2 later).mapError (.after steps.length)
      return (r.1 ++ r'.1, r'.2)) := by
  unfold allElections seam
  have hlater : ∀ b, elections options env (0 + steps.length) (lastDay none steps) b later = (do
      later.head?.elim (.ok ()) (inOrder options steps.length (steps.getLast?.map LogStep.day))
      (elections options env 0 none b later).mapError (.after steps.length)) := by
    intro b
    rw [Nat.zero_add, lastDay_none, elections_of_last, ← elections_after, Nat.add_zero]
  simp only [elections_append, hlater, bind_assoc]

end Replay

/-- **A log can be split anywhere.** A replay with `requireTerminal = false` is
`Replay.allElections` and then `Replay.net`. All elections of `steps ++ later` succeed exactly if
those of `steps` do, the `Replay.seam` is in order, and those of `later` do from what the first part
left; they are the elections of both, and what is left is what the second part leaves. Otherwise the
log fails as its first part does, or by going back at the seam, or as the second part does with its
steps counted on, `Failure.after`. -/
theorem replay_in_parts {options : Replay.Options} (hopen : options.requireTerminal = false)
    (env : Environment) (t : Arrangement) (steps later : List LogStep) :
    (∀ a log, Replay.run options env a log =
      Replay.allElections options env a log >>= Replay.net) ∧
    (∀ made final, Replay.allElections options env t (steps ++ later) = .ok (made, final) ↔
      ∃ made₁ t₁ made₂, Replay.allElections options env t steps = .ok (made₁, t₁) ∧
        Replay.seam options steps later = .ok () ∧
        Replay.allElections options env t₁ later = .ok (made₂, final) ∧ made = made₁ ++ made₂) ∧
    ∀ failure, Replay.allElections options env t (steps ++ later) = .error failure ↔
      Replay.allElections options env t steps = .error failure ∨
      ∃ made₁ t₁, Replay.allElections options env t steps = .ok (made₁, t₁) ∧
        (Replay.seam options steps later = .error failure ∨
          Replay.seam options steps later = .ok () ∧
            ∃ cause, Replay.allElections options env t₁ later = .error cause ∧
              failure = cause.after steps.length) := by
  refine ⟨fun a log => Replay.run_eq_net hopen a log, fun made final => ?_, fun failure => ?_⟩
  · rw [Replay.allElections_append]
    constructor
    · intro h
      obtain ⟨⟨made₁, t₁⟩, h₁, h⟩ := bind_eq_ok.mp h
      obtain ⟨hseam, h⟩ := andThen_eq_ok.mp h
      obtain ⟨⟨made₂, final'⟩, h₂, h⟩ := bind_eq_ok.mp h
      cases h
      exact ⟨made₁, t₁, made₂, h₁, hseam, mapError_eq_ok.mp h₂, rfl⟩
    · rintro ⟨made₁, t₁, made₂, h₁, hseam, h₂, rfl⟩
      refine bind_eq_ok.mpr ⟨_, h₁, andThen_eq_ok.mpr ⟨hseam, ?_⟩⟩
      exact bind_eq_ok.mpr ⟨_, mapError_eq_ok.mpr h₂, rfl⟩
  · rw [Replay.allElections_append, bind_eq_error]
    refine or_congr_right ⟨?_, ?_⟩
    · rintro ⟨⟨made₁, t₁⟩, h₁, h⟩
      refine ⟨made₁, t₁, h₁, ?_⟩
      rcases bind_eq_error.mp h with hseam | ⟨_, hseam, h⟩
      · exact .inl hseam
      · rcases bind_eq_error.mp h with h₂ | ⟨_, -, h⟩
        · exact .inr ⟨hseam, mapError_eq_error.mp h₂⟩
        · cases h
    · rintro ⟨made₁, t₁, h₁, hseam | ⟨hseam, hcause⟩⟩
      · exact ⟨_, h₁, bind_eq_error.mpr (.inl hseam)⟩
      · refine ⟨_, h₁, bind_eq_error.mpr (.inr ⟨(), hseam, ?_⟩)⟩
        exact bind_eq_error.mpr (.inl (mapError_eq_error.mpr hcause))

/-- The standard options, with `requireChronological`. -/
def Replay.Options.chronological : Options := { Options.standard with requireChronological := true }

/-- The two months are paid in two parts. The second month is not paid twice, and the payment that
is refused is the third; it is not paid before the first month either. -/
theorem payEachMonth_in_parts :
    let month (day : Date) : LogStep := ⟨⟨"acmeCorp"⟩, "pay", day⟩
    let made (day : Date) (amount : Decimal) (left : Arrangement) : Election :=
      ⟨"pay", ⟨"acmeCorp"⟩, day, [⟨⟨"acmeCorp"⟩, ⟨"highStreetBank"⟩, amount, .usd⟩], left⟩
    let first := made (.literal 2015 2 2) (.literal 1000 0) secondMonth
    let second := made (.literal 2015 3 2) (.literal 900 0) .zero
    let paid (t : Arrangement) (steps : List LogStep) :=
      Replay.allElections .chronological ⟨.empty, .empty⟩ t (month (.literal 2015 2 2) :: steps)
    ∃ t, rollOut twoMonths payEachMonth = .ok t ∧
      Replay.Options.chronological.requireTerminal = false ∧
      paid t [month (.literal 2015 3 2)] = .ok ([first, second], .zero) ∧
      paid t [month (.literal 2015 3 2), month (.literal 2015 3 2)] =
        .error (.election 2 ⟨"acmeCorp"⟩ "pay" (.notEnabled "pay" (.literal 2015 3 2))) ∧
      paid t [month (.literal 2015 1 31)] = .error (.outOfOrder 1 (.literal 2015 1 31)) := by
  intro month made first second paid
  obtain ⟨t, ht, hfirst⟩ := payEachMonth_elect
  have hopen : Replay.Options.chronological.requireTerminal = false := rfl
  have hpaid : Replay.allElections .chronological ⟨.empty, .empty⟩ t
      [month (.literal 2015 2 2)] = .ok ([first], secondMonth) := by
    simp only [Replay.allElections, Replay.elections, month, hfirst]
    rfl
  have hsecond : Replay.allElections .chronological ⟨.empty, .empty⟩ secondMonth
      [month (.literal 2015 3 2)] = .ok ([second], .zero) := by
    simp only [Replay.allElections, Replay.elections, month, secondMonth_elect]
    rfl
  have htwice : Replay.allElections .chronological ⟨.empty, .empty⟩ secondMonth
      [month (.literal 2015 3 2), month (.literal 2015 3 2)] =
      .error (.election 1 ⟨"acmeCorp"⟩ "pay" (.notEnabled "pay" (.literal 2015 3 2))) := by
    have hinOrder : Replay.goesBack (some (.literal 2015 3 2)) (.literal 2015 3 2) = false := by
      decide +kernel
    simp only [Replay.allElections, Replay.elections, month, secondMonth_elect, hinOrder]
    rfl
  have hinOrder : ∀ rest, Replay.seam .chronological [month (.literal 2015 2 2)]
      (month (.literal 2015 3 2) :: rest) = .ok () := fun rest => Replay.seam_eq_ok.mpr (by
    rintro - _ ⟨⟩ _ ⟨⟩
    decide +kernel)
  have hback : Replay.seam .chronological [month (.literal 2015 2 2)]
      [month (.literal 2015 1 31)] = .error (.outOfOrder 1 (.literal 2015 1 31)) := by
    have hearlier : Replay.goesBack (some (.literal 2015 2 2)) (.literal 2015 1 31) = true := by
      decide +kernel
    simp only [Replay.seam, Replay.inOrder, List.head?_cons, List.getLast?_singleton,
      Option.elim_some, Option.map_some, month, hearlier]
    rfl
  have hparts := replay_in_parts hopen ⟨.empty, .empty⟩ t [month (.literal 2015 2 2)]
  refine ⟨t, ht, hopen, ?_, ?_, ?_⟩
  · exact ((hparts _).2.1 _ _).mpr ⟨_, _, _, hpaid, hinOrder [], hsecond, rfl⟩
  · exact ((hparts _).2.2 _).mpr (.inr ⟨_, _, hpaid, .inr ⟨hinOrder [_], _, htwice, rfl⟩⟩)
  · exact ((hparts _).2.2 _).mpr (.inr ⟨_, _, hpaid, .inl hback⟩)

end Covenant
