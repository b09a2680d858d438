/-
# The checks of a replay only filter

A replay may be asked to look at the order of the dates, `requireChronological`,
and at the end of the log, `requireTerminal`. Neither changes what an election
does: a replay that is asked for more comes to the same as one that is asked for
nothing, or is refused. The order is looked at before each election, so a log
that goes back is replayed up to its first step that does, and a failure before
that step comes first; the end is looked at before the payments are netted.

Key definitions: `Replay.Options.unchecked`, `Replay.Chronological`,
`Replay.TurnsBack`, `Replay.conclude`.
Key theorems: `Replay.exists_turnsBack`, `Replay.allElections_filtered`,
`Replay.allElections_eq_outOfOrder`, `replay_checks_filter`.
-/
import Covenant.Proofs.Replay.Splitting
import Mathlib.Data.List.Induction

namespace Covenant
namespace Replay

variable {options : Options} {env : Environment}

/-- The same `options`, with neither order nor an end of the log asked for. -/
def Options.unchecked (options : Options) : Options :=
  { options with requireChronological := false, requireTerminal := false }

/-! ### Logs in order -/

/-- The days of the log never go back. -/
def Chronological (steps : List LogStep) : Prop := steps.Pairwise fun a b => a.day ≤ b.day

/-- After `front` the step is the first that goes back: `front` is in order, and the step is earlier
than the one right before it. -/
structure TurnsBack (front : List LogStep) (step : LogStep) : Prop where
  chronological : Chronological front
  earlier : ∃ before ∈ front.getLast?, step.day < before.day

theorem Chronological.le_last {steps : List LogStep} (h : Chronological steps) {last : LogStep}
    (hlast : last ∈ steps.getLast?) : ∀ step ∈ steps, step.day ≤ last.day := by
  obtain ⟨init, rfl⟩ := List.getLast?_eq_some_iff.mp hlast
  intro step hstep
  rcases List.mem_append.mp hstep with hstep | hstep
  · exact (List.pairwise_append.mp h).2.2 step hstep last (List.mem_singleton_self _)
  · rw [List.mem_singleton.mp hstep]
    exact Int.le_refl _

/-- A log that is not `Chronological` has a first step that goes back. -/
theorem exists_turnsBack {steps : List LogStep} : ¬ Chronological steps →
    ∃ front step rest, steps = front ++ step :: rest ∧ TurnsBack front step := by
  induction steps using List.reverseRecOn with
  | nil => intro h; exact absurd List.Pairwise.nil h
  | append_singleton init step ih =>
    intro h
    by_cases hinit : Chronological init
    · refine ⟨init, step, [], rfl, hinit, ?_⟩
      by_contra hlate
      refine h (List.pairwise_append.mpr ⟨hinit, List.pairwise_singleton _ _, fun a ha b hb => ?_⟩)
      have hlast := List.getLast?_eq_some_getLast (List.ne_nil_of_mem ha)
      have hstep := Int.not_lt.mp fun hlt => hlate ⟨_, hlast, hlt⟩
      rw [List.mem_singleton.mp hb]
      exact Int.le_trans (hinit.le_last hlast a ha) hstep
    · obtain ⟨front, back, rest, rfl, hback⟩ := ih hinit
      exact ⟨front, back, rest ++ [step], by rw [List.append_assoc, List.cons_append], hback⟩

theorem TurnsBack.not_chronological {front rest : List LogStep} {step : LogStep}
    (h : TurnsBack front step) : ¬ Chronological (front ++ step :: rest) := by
  intro hsteps
  obtain ⟨before, hbefore, hlt⟩ := h.earlier
  have hle := (List.pairwise_append.mp hsteps).2.2 before (List.mem_of_getLast? hbefore) step
    List.mem_cons_self
  exact Int.not_le.mpr hlt hle

/-! ### Elections -/

/-- Where no step goes back, `elections` are made as if nothing was asked for. -/
theorem elections_eq_unchecked : ∀ {steps : List LogStep} {index : Nat} {last : Option Date}
    {a : Arrangement}, (options.requireChronological = true →
      (∀ day ∈ last, ∀ step ∈ steps, day ≤ step.day) ∧ Chronological steps) →
    elections options env index last a steps = elections options.unchecked env index last a steps
  | [], _, _, _, _ => rfl
  | step :: rest, index, last, a, h => by
    have hstep : inOrder options index last step = .ok () := by
      rw [inOrder_eq_ok, Bool.and_eq_false_imp]
      intro hasked
      cases last with
      | none => rfl
      | some day =>
        have hday := (h hasked).1 day rfl step List.mem_cons_self
        exact decide_eq_false (Int.not_lt.mpr hday)
    have hunchecked : inOrder options.unchecked index last step = .ok () := rfl
    have hrest : ∀ b, elections options env (index + 1) (some step.day) b rest =
        elections options.unchecked env (index + 1) (some step.day) b rest := fun b =>
      elections_eq_unchecked fun hasked => by
        obtain ⟨hhead, htail⟩ := List.pairwise_cons.mp (h hasked).2
        refine ⟨fun day hday s hs => ?_, htail⟩
        cases hday
        exact hhead s hs
    rw [elections_cons, elections_cons, hstep, hunchecked]
    simp only [hrest]

theorem allElections_eq_unchecked {a : Arrangement} {steps : List LogStep}
    (h : options.requireChronological = true → Chronological steps) :
    allElections options env a steps = allElections options.unchecked env a steps :=
  elections_eq_unchecked fun hasked => ⟨by simp, h hasked⟩

/-- If nothing is asked for, the parts of a log are replayed one after the other. -/
theorem allElections_unchecked_append (a : Arrangement) (front later : List LogStep) :
    allElections options.unchecked env a (front ++ later) = (do
      let r ← allElections options.unchecked env a front
      let r' ← (allElections options.unchecked env r.2 later).mapError (.after front.length)
      return (r.1 ++ r'.1, r'.2)) := by
  have hseam : seam options.unchecked front later = .ok () := seam_eq_ok.mpr nofun
  rw [allElections_append, hseam]
  rfl

/-- A log is refused as `outOfOrder` at the first step that goes back, after all elections before
it. -/
theorem allElections_of_turnsBack (hasked : options.requireChronological = true)
    {front : List LogStep} {step : LogStep} (h : TurnsBack front step) (a : Arrangement)
    (rest : List LogStep) :
    allElections options env a (front ++ step :: rest) =
      allElections options.unchecked env a front >>= fun _ =>
        .error (.outOfOrder front.length step.day) := by
  obtain ⟨before, hbefore, hlt⟩ := h.earlier
  have hseam : seam options front (step :: rest) = .error (.outOfOrder front.length step.day) := by
    rw [seam, List.head?_cons, Option.elim_some, hbefore, Option.map_some, inOrder, hasked,
      goesBack, Option.any_some, decide_eq_true hlt]
    rfl
  rw [allElections_append, hseam, allElections_eq_unchecked fun _ => h.chronological]
  rfl

/-- **The order of the dates only filters elections.** Either no step is refused for it, and
`allElections` is what it is with `options.unchecked`; or the elections are made up to the first
step that goes back, and it is refused. -/
theorem allElections_filtered (options : Options) (env : Environment) (a : Arrangement)
    (steps : List LogStep) :
    ((options.requireChronological = true → Chronological steps) ∧
      allElections options env a steps = allElections options.unchecked env a steps) ∨
    (options.requireChronological = true ∧ ∃ front step rest,
      steps = front ++ step :: rest ∧ TurnsBack front step ∧
      allElections options env a steps = allElections options.unchecked env a front >>= fun _ =>
        .error (.outOfOrder front.length step.day)) := by
  by_cases h : options.requireChronological = true → Chronological steps
  · exact .inl ⟨h, allElections_eq_unchecked h⟩
  · obtain ⟨hasked, hsteps⟩ := Classical.not_imp.mp h
    obtain ⟨front, step, rest, rfl, hback⟩ := exists_turnsBack hsteps
    exact .inr ⟨hasked, front, step, rest, rfl, hback,
      allElections_of_turnsBack hasked hback a rest⟩

/-- If nothing is asked for, elections fail only as one of them. -/
theorem elections_unchecked_eq_error {failure : Failure} : ∀ {steps : List LogStep} {index : Nat}
    {last : Option Date} {a : Arrangement},
    elections options.unchecked env index last a steps = .error failure →
      ∃ step actor label cause, failure = .election step actor label cause
  | [], _, _, _, h => nomatch h
  | step :: rest, index, last, a, h => by
    rw [elections_cons] at h
    rcases bind_eq_error.mp h with h | ⟨_, -, h⟩
    · cases h
    rcases bind_eq_error.mp h with h | ⟨e, -, h⟩
    · obtain ⟨cause, -, rfl⟩ := mapError_eq_error.mp h
      exact ⟨_, _, _, cause, rfl⟩
    rcases bind_eq_error.mp h with h | ⟨r, -, h⟩
    · exact elections_unchecked_eq_error h
    · cases h

theorem allElections_eq_ok {a : Arrangement} {steps : List LogStep}
    {r : List Election × Arrangement} : allElections options env a steps = .ok r ↔
      allElections options.unchecked env a steps = .ok r ∧
        (options.requireChronological = true → Chronological steps) := by
  rcases allElections_filtered options env a steps with
    ⟨hsteps, heq⟩ | ⟨hasked, front, step, rest, rfl, hback, heq⟩
  · rw [heq]
    exact (and_iff_left hsteps).symm
  · constructor
    · intro h
      rw [heq] at h
      obtain ⟨_, -, h⟩ := bind_eq_ok.mp h
      cases h
    · rintro ⟨-, hsteps⟩
      exact absurd (hsteps hasked) hback.not_chronological

/-- **Going back is reported at the first step that does**, as `outOfOrder`, if the elections before
it are made. -/
theorem allElections_eq_outOfOrder {a : Arrangement} {steps : List LogStep} {k : Nat} {day : Date} :
    allElections options env a steps = .error (.outOfOrder k day) ↔
      options.requireChronological = true ∧ ∃ front step rest, steps = front ++ step :: rest ∧
        TurnsBack front step ∧ front.length = k ∧ step.day = day ∧
        ∃ r, allElections options.unchecked env a front = .ok r := by
  constructor
  · intro h
    rcases allElections_filtered options env a steps with
      ⟨-, heq⟩ | ⟨hasked, front, step, rest, hsteps, hback, heq⟩
    · rw [heq] at h
      obtain ⟨_, _, _, _, helection⟩ := elections_unchecked_eq_error h
      cases helection
    · rw [heq] at h
      rcases bind_eq_error.mp h with h | ⟨r, hr, h⟩
      · obtain ⟨_, _, _, _, helection⟩ := elections_unchecked_eq_error h
        cases helection
      · cases h
        exact ⟨hasked, front, step, rest, hsteps, hback, rfl, rfl, r, hr⟩
  · rintro ⟨hasked, front, step, rest, rfl, hback, rfl, rfl, r, hr⟩
    rw [allElections_of_turnsBack hasked hback, hr]
    rfl

/-- A failure that is not `outOfOrder` is there if nothing is asked for. -/
theorem allElections_eq_error {a : Arrangement} {steps : List LogStep} {failure : Failure}
    (h : allElections options env a steps = .error failure) :
    (∃ k day, failure = .outOfOrder k day) ∨
      allElections options.unchecked env a steps = .error failure := by
  rcases allElections_filtered options env a steps with
    ⟨-, heq⟩ | ⟨-, front, step, rest, rfl, -, heq⟩
  · exact .inr (heq ▸ h)
  · rw [heq] at h
    rcases bind_eq_error.mp h with h | ⟨r, -, h⟩
    · refine .inr ?_
      rw [allElections_unchecked_append, h]
      rfl
    · cases h
      exact .inl ⟨_, _, rfl⟩

/-- An election that fails if nothing is asked for fails the same, unless a step goes back that is
not after it. -/
theorem allElections_of_election {a : Arrangement} {steps : List LogStep} {k : Nat} {actor : Party}
    {label : String} {cause : ElectionError}
    (h : allElections options.unchecked env a steps = .error (.election k actor label cause)) :
    allElections options env a steps = .error (.election k actor label cause) ∨
      ∃ j day, j ≤ k ∧ allElections options env a steps = .error (.outOfOrder j day) := by
  rcases allElections_filtered options env a steps with
    ⟨-, heq⟩ | ⟨-, front, step, rest, rfl, -, heq⟩
  · exact .inl (heq.trans h)
  · rw [allElections_unchecked_append] at h
    rcases bind_eq_error.mp h with h | ⟨r, hr, h⟩
    · rw [heq, h]
      exact .inl rfl
    rcases bind_eq_error.mp h with h | ⟨_, -, h⟩
    · obtain ⟨later, hlater, hcause⟩ := mapError_eq_error.mp h
      obtain ⟨k', _, _, _, rfl⟩ := elections_unchecked_eq_error hlater
      cases hcause
      refine .inr ⟨front.length, step.day, Nat.le_add_right _ _, ?_⟩
      rw [heq, hr]
      rfl
    · cases h

/-! ### The end of the log -/

/-- What follows the elections: the end is looked at, if that is asked for, and the payments are
netted. -/
def conclude (options : Options) (r : List Election × Arrangement) : Except Failure Outcome :=
  if options.requireTerminal && !r.2.isZero then .error .notTerminal else net r

theorem run_eq_conclude (options : Options) (env : Environment) (a : Arrangement)
    (steps : List LogStep) :
    run options env a steps = allElections options env a steps >>= conclude options := rfl

theorem net_eq_ok {r : List Election × Arrangement} {o : Outcome} (h : net r = .ok o) :
    o.final = r.2 := by
  obtain ⟨positions, -, h⟩ := bind_eq_ok.mp h
  cases h
  rfl

theorem net_eq_error {r : List Election × Arrangement} {failure : Failure}
    (h : net r = .error failure) : ∃ cause, failure = .positions cause := by
  rcases bind_eq_error.mp h with h | ⟨_, -, h⟩
  · obtain ⟨cause, -, rfl⟩ := mapError_eq_error.mp h
    exact ⟨cause, rfl⟩
  · cases h

/-- A log is concluded with its net positions, if it ends where that is asked for. -/
theorem conclude_eq_ok {r : List Election × Arrangement} {o : Outcome} :
    conclude options r = .ok o ↔
      net r = .ok o ∧ (options.requireTerminal = true → o.final = .zero) := by
  unfold conclude
  split
  · rename_i hopen
    obtain ⟨hasked, hleft⟩ := Bool.and_eq_true_iff.mp hopen
    refine ⟨nofun, fun ⟨h, hfinal⟩ => ?_⟩
    have hzero := Arrangement.isZero_eq_true.mpr ((net_eq_ok h).symm.trans (hfinal hasked))
    rw [hzero] at hleft
    cases hleft
  · rename_i hopen
    refine ⟨fun h => ⟨h, fun hasked => ?_⟩, And.left⟩
    rw [net_eq_ok h, ← Arrangement.isZero_eq_true]
    simpa [hasked] using hopen

theorem conclude_eq_error {r : List Election × Arrangement} {failure : Failure}
    (h : conclude options r = .error failure) :
    (failure = .notTerminal ∧ options.requireTerminal = true ∧ r.2 ≠ .zero) ∨
      net r = .error failure := by
  unfold conclude at h
  split at h
  · rename_i hopen
    obtain ⟨hasked, hleft⟩ := Bool.and_eq_true_iff.mp hopen
    cases h
    refine .inl ⟨rfl, hasked, fun hzero => ?_⟩
    rw [Arrangement.isZero_eq_true.mpr hzero] at hleft
    cases hleft
  · exact .inr h

/-- Whether the failure is one of a step of the log. -/
def Failure.ofStep : Failure → Bool
  | election _ _ _ _ | outOfOrder _ _ => true
  | notTerminal | disagreement _ | noHolders | positions _ | stored _ => false

/-- A replay fails at a step exactly as its elections do. -/
theorem run_eq_error_ofStep {a : Arrangement} {steps : List LogStep} {failure : Failure}
    (hstep : failure.ofStep = true) :
    run options env a steps = .error failure ↔
      allElections options env a steps = .error failure := by
  rw [run_eq_conclude, bind_eq_error]
  refine ⟨fun h => h.resolve_right ?_, .inl⟩
  rintro ⟨r, -, h⟩
  rcases conclude_eq_error h with ⟨rfl, -⟩ | h
  · cases hstep
  · obtain ⟨cause, rfl⟩ := net_eq_error h
    cases hstep

end Replay

/-- **The checks of a replay only filter.** `Replay.run` is `Replay.allElections`, then
`Replay.conclude`, which looks at the end of the log and nets. Whatever is asked for, it comes to
the outcome `o` that it comes to if nothing is asked for, `options.unchecked`, provided the log is
`Replay.Chronological` and `o.final` is `zero` where that is asked for. If an election fails with
nothing asked for, it fails the same with more asked for, or a step that is not after it goes back.
A log is refused as `outOfOrder` exactly at its first step that goes back, as `Replay.TurnsBack`
says, if the elections before it are made. Every other failure is for an end that was not reached,
after all elections were made, or is there with nothing asked for. -/
theorem replay_checks_filter (options : Replay.Options) (env : Environment) (t : Arrangement)
    (steps : List LogStep) :
    Replay.run options env t steps =
      Replay.allElections options env t steps >>= Replay.conclude options ∧
    (∀ o, Replay.run options env t steps = .ok o ↔
      Replay.run options.unchecked env t steps = .ok o ∧
        (options.requireChronological = true → Replay.Chronological steps) ∧
        (options.requireTerminal = true → o.final = .zero)) ∧
    (∀ k actor label cause,
      Replay.run options.unchecked env t steps = .error (.election k actor label cause) →
        Replay.run options env t steps = .error (.election k actor label cause) ∨
        ∃ j day, j ≤ k ∧ Replay.run options env t steps = .error (.outOfOrder j day)) ∧
    (∀ k day, Replay.run options env t steps = .error (.outOfOrder k day) ↔
      options.requireChronological = true ∧ ∃ front step rest, steps = front ++ step :: rest ∧
        Replay.TurnsBack front step ∧ front.length = k ∧ step.day = day ∧
        ∃ r, Replay.allElections options.unchecked env t front = .ok r) ∧
    ∀ failure, Replay.run options env t steps = .error failure →
      (∃ k day, failure = .outOfOrder k day) ∨
      (failure = .notTerminal ∧ options.requireTerminal = true ∧
        ∃ r, Replay.allElections options.unchecked env t steps = .ok r ∧ r.2 ≠ .zero) ∨
      Replay.run options.unchecked env t steps = .error failure := by
  have hfree : Replay.run options.unchecked env t steps =
      Replay.allElections options.unchecked env t steps >>= Replay.net :=
    Replay.run_eq_net rfl t steps
  refine ⟨Replay.run_eq_conclude options env t steps, fun o => ⟨fun h => ?_, ?_⟩,
    fun k actor label cause h => ?_,
    fun k day => (Replay.run_eq_error_ofStep rfl).trans Replay.allElections_eq_outOfOrder,
    fun failure h => ?_⟩
  · obtain ⟨r, hr, h⟩ := bind_eq_ok.mp h
    obtain ⟨hmade, hsteps⟩ := Replay.allElections_eq_ok.mp hr
    obtain ⟨hnet, hend⟩ := Replay.conclude_eq_ok.mp h
    exact ⟨hfree.trans (bind_eq_ok.mpr ⟨r, hmade, hnet⟩), hsteps, hend⟩
  · rintro ⟨h, hsteps, hend⟩
    obtain ⟨r, hmade, hnet⟩ := bind_eq_ok.mp (hfree.symm.trans h)
    have hr := Replay.allElections_eq_ok.mpr ⟨hmade, hsteps⟩
    exact bind_eq_ok.mpr ⟨r, hr, Replay.conclude_eq_ok.mpr ⟨hnet, hend⟩⟩
  · have hfails := (Replay.run_eq_error_ofStep rfl).mp h
    rcases Replay.allElections_of_election hfails with hsame | ⟨j, day, hle, hback⟩
    · exact .inl ((Replay.run_eq_error_ofStep rfl).mpr hsame)
    · exact .inr ⟨j, day, hle, (Replay.run_eq_error_ofStep rfl).mpr hback⟩
  · rcases bind_eq_error.mp h with h | ⟨r, hr, h⟩
    · refine (Replay.allElections_eq_error h).imp_right fun h => .inr ?_
      exact hfree.trans (bind_eq_error.mpr (.inl h))
    · have hmade := (Replay.allElections_eq_ok.mp hr).1
      rcases Replay.conclude_eq_error h with ⟨rfl, hasked, hleft⟩ | h
      · exact .inr (.inl ⟨rfl, hasked, r, hmade, hleft⟩)
      · exact .inr (.inr (hfree.trans (bind_eq_error.mpr (.inr ⟨r, hmade, h⟩))))

/-- The second of the two months is paid with a day before that of the first. -/
theorem payEachMonth_turns_back :
    let month (day : Date) : LogStep := ⟨⟨"acmeCorp"⟩, "pay", day⟩
    ∃ t, rollOut twoMonths payEachMonth = .ok t ∧
      Replay.TurnsBack [month (.literal 2015 2 2)] (month (.literal 2015 1 31)) ∧
      Replay.run .strict ⟨.empty, .empty⟩ t
        [month (.literal 2015 2 2), month (.literal 2015 1 31)] =
          .error (.outOfOrder 1 (.literal 2015 1 31)) := by
  intro month
  obtain ⟨t, ht, hfirst⟩ := payEachMonth_elect
  have hpaid : ∃ r, Replay.allElections Replay.Options.strict.unchecked ⟨.empty, .empty⟩ t
      [month (.literal 2015 2 2)] = .ok r := by
    simp only [Replay.allElections, Replay.elections, month, hfirst]
    exact ⟨_, rfl⟩
  have hback : Replay.TurnsBack [month (.literal 2015 2 2)] (month (.literal 2015 1 31)) :=
    ⟨List.pairwise_singleton _ _, _, rfl, by decide +kernel⟩
  refine ⟨t, ht, hback, ?_⟩
  exact ((replay_checks_filter .strict _ t _).2.2.2.1 1 _).mpr
    ⟨rfl, _, _, [], rfl, hback, rfl, rfl, hpaid⟩

end Covenant
