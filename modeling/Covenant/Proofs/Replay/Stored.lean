/-
# Runs on stored copies

A contract may be stored between elections, and each holder of it starts from
a copy of its own. As long as what was stored is read again, nobody can tell:
each election is refused for the same reason, or makes payments that agree and
leads to contracts that agree, and the holders never disagree.

Key definitions: `Arrangement.responses`, `storedResponses`,
`Replay.eachHolder`, `Election.Agree`, `Replay.Outcome.Agree`.
Key theorems: `Replay.responses_of_elections_eq_ok`, `same_storedResponses`,
`Replay.runHolders_eq_eachHolder`, `stored_runs_agree`.
-/
import Covenant.Proofs.Canonical.Snapshot
import Covenant.Proofs.Replay.Related

namespace Covenant

variable {R D : Decimal → Decimal → Prop}

/-! ### Elections that agree -/

/-- The two payments are of equal amounts in the same currency between the same parties. -/
structure Payment.Agree (p p' : Payment) : Prop where
  payer_eq : p.payer = p'.payer
  payee_eq : p.payee = p'.payee
  currency_eq : p.currency = p'.currency
  amount_agrees : p.amount.agrees p'.amount = true

theorem Payment.Related.agree (hR : Decimal.Congruence R D) {p p' : Payment} (h : p.Related R p') :
    p.Agree p' :=
  ⟨h.payer_eq, h.payee_eq, h.currency_eq, hR.agrees h.amount_related⟩

/-- The two are the same election with payments that agree and successors that do. -/
structure Election.Agree (e e' : Election) : Prop where
  label_eq : e.label = e'.label
  actor_eq : e.actor = e'.actor
  day_eq : e.day = e'.day
  payments_agree : List.Forall₂ Payment.Agree e.payments e'.payments
  successor_agrees : e.successor.agrees e'.successor = true

theorem Election.Related.agree (hR : Decimal.Congruence R D) {e e' : Election}
    (h : e.Related R e') : e.Agree e' where
  label_eq := h.label_eq
  actor_eq := h.actor_eq
  day_eq := h.day_eq
  payments_agree := h.payments_related.imp fun _ _ hp => hp.agree hR
  successor_agrees := h.successor_related.agrees hR

/-! ### Runs -/

/-- What a contract answers to a log with `elect`, each election in the same environment. A refusal
changes nothing. -/
def Arrangement.responses (env : Environment) :
    Arrangement → List LogStep → List (Except ElectionError Election)
  | _, [] => []
  | a, step :: rest =>
    match a.elect env step.actor step.label step.day with
    | .error cause => .error cause :: responses env a rest
    | .ok e => .ok e :: responses env e.successor rest

/-- What a snapshot answers to a log, if it is stored in a `layout` and read again before each
election. -/
def storedResponses (market : Market) :
    Snapshot → List (Json.Layout × LogStep) →
      Except StoredError (List (Except ElectionError Election))
  | _, [] => .ok []
  | s, (layout, step) :: rest => do
    let copy ← Snapshot.read (Text.bytes (s.text layout))
    match copy.arrangement.elect ⟨copy.bindings, market⟩ step.actor step.label step.day with
    | .error cause =>
      let later ← storedResponses market copy rest
      return .error cause :: later
    | .ok e =>
      let later ← storedResponses market ⟨e.successor, copy.bindings⟩ rest
      return .ok e :: later

/-- The same refusal, up to the sign of zeros in it. -/
abbrev ElectionError.Same : ElectionError → ElectionError → Prop :=
  ElectionError.Related Decimal.Same

/-- The same failure, up to the sign of zeros in it. -/
abbrev Replay.Failure.Same : Failure → Failure → Prop := Failure.Related Decimal.Same

/-- Both refuse for the same reason, or both make elections that agree. -/
abbrev AgreeingResponse : Except ElectionError Election → Except ElectionError Election → Prop :=
  Alike ElectionError.Same Election.Agree

/-- What a replay makes are the answers to its log, none of them a refusal. -/
theorem Replay.responses_of_elections_eq_ok {options : Replay.Options} {env : Environment} :
    ∀ {steps : List LogStep} {index : Nat} {last : Option Date} {a final : Arrangement}
      {made : List Election}, elections options env index last a steps = .ok (made, final) →
      a.responses env steps = made.map .ok
  | [], _, _, _, _, _, h => by
    cases h
    rfl
  | step :: rest, index, last, a, final, made, h => by
    obtain ⟨-, e, later, he, hlater, rfl⟩ := elections_cons_eq_ok.mp h
    rw [Arrangement.responses, he, List.map_cons]
    exact congrArg (.ok e :: ·) (responses_of_elections_eq_ok hlater)

namespace Snapshot

/-- What `read` has of a stored snapshot is `s.normal`. -/
theorem eq_normal_of_read_text {layout : Json.Layout} {s copy : Snapshot}
    (h : s.arrangement.validate = .ok ())
    (hcopy : read (Text.bytes (s.text layout)) = .ok copy) : copy = s.normal := by
  rw [read_text layout h] at hcopy
  split at hcopy
  · exact (Except.ok.inj hcopy).symm
  · cases hcopy

theorem validate_normal {s : Snapshot} (h : s.arrangement.validate = .ok ()) :
    s.normal.arrangement.validate = .ok () := by
  rw [normal, Arrangement.validate_normal, h]

end Snapshot

/-- Nothing is asked of the divisions of a replay whose numbers are the same up to the sign of
zeros. -/
theorem Arrangement.Related.elect_same {env env' : Environment}
    (henv : env.Related Decimal.Same env') {a b : Arrangement} (h : a.Related Decimal.Same b)
    (step : LogStep) :
    Alike ElectionError.Same (Election.Related Decimal.Same)
      (a.elect env step.actor step.label step.day) (b.elect env' step.actor step.label step.day) :=
  h.elect Decimal.congruence_same henv (fun _ _ _ _ _ _ _ _ => trivial)
    (fun _ _ _ _ _ _ _ _ => trivial)

/-- Storing a contract between elections changes its answers by signs of zeros at most. The
induction carries a contract that is stored, and one that is the same and never is. -/
theorem same_storedResponses {market : Market} {env : Environment} :
    ∀ {steps : List (Json.Layout × LogStep)} {s : Snapshot} {a : Arrangement}
      {answers : List (Except ElectionError Election)},
      s.arrangement.validate = .ok () → s.arrangement.Related Decimal.Same a →
      Environment.Related Decimal.Same ⟨s.bindings, market⟩ env →
      storedResponses market s steps = .ok answers →
      List.Forall₂ (Alike ElectionError.Same (Election.Related Decimal.Same)) answers
        (a.responses env (steps.map (·.2)))
  | [], _, _, _, _, _, _, h => by
    cases h
    exact .nil
  | (layout, step) :: rest, s, a, answers, hvalid, hsame, henv, h => by
    obtain ⟨copy, hcopy, h⟩ := bind_eq_ok.mp h
    have hnormal := Snapshot.eq_normal_of_read_text hvalid hcopy
    subst hnormal
    have hvalid' := Snapshot.validate_normal hvalid
    have hsame' : s.normal.arrangement.Related Decimal.Same a := hsame.normal_left
    have henv' : Environment.Related Decimal.Same ⟨s.normal.bindings, market⟩ env :=
      ⟨henv.bindings_related.mapValues_left fun x _ hx => x.same_normal.trans hx,
        henv.market_related⟩
    rw [List.map_cons, Arrangement.responses]
    rcases (hsame'.elect_same henv' step).error_or_ok with
      ⟨cause, cause', hmade, hmade', hcause⟩ | ⟨e, e', hmade, hmade', he⟩
    · rw [hmade] at h
      obtain ⟨later, hlater, h⟩ := bind_eq_ok.mp h
      cases h
      rw [hmade']
      exact .cons (.error hcause) (same_storedResponses hvalid' hsame' henv' hlater)
    · rw [hmade] at h
      obtain ⟨later, hlater, h⟩ := bind_eq_ok.mp h
      cases h
      rw [hmade']
      have hnext := (Arrangement.validate_elect hvalid' hmade).2
      have hrest := same_storedResponses (s := ⟨e.successor, s.normal.bindings⟩) hnext
        he.successor_related henv' hlater
      exact .cons (.ok he) hrest

/-! ### Holders -/

namespace Replay

/-- Both outcomes have elections, a final contract and positions that agree. -/
structure Outcome.Agree (o o' : Outcome) : Prop where
  elections_agree : List.Forall₂ Election.Agree o.elections o'.elections
  final_agrees : o.final.agrees o'.final = true
  positions_agree : o.positions.agrees o'.positions = true

theorem Outcome.Related.agree (hR : Decimal.Congruence R D) {o o' : Outcome} (h : o.Related R o') :
    o.Agree o' where
  elections_agree := h.elections_related.imp fun _ _ he => he.agree hR
  final_agrees := h.final_related.agrees hR
  positions_agree := h.positions_related.agrees hR

/-- Replays a log for every holder, one after the other, each reading its own copy. -/
def eachHolder (options : Options) (market : Market) (snapshot : Snapshot) (steps : List LogStep) :
    Except Failure Outcome :=
  if options.holders = 0 then .error .noHolders
  else do
    let copies := List.replicate options.holders (Text.bytes snapshot.canonical)
    let outcomes ← copies.mapM fun bytes => runHolder options market bytes steps
    settleHolders options (outcomes.map fun o => (o, o.digest))

theorem mapM_replicate_of_ok {ε α β : Type} {f : α → Except ε β} {x : α} {y : β}
    (h : f x = .ok y) : ∀ n, (List.replicate n x).mapM f = .ok (List.replicate n y)
  | 0 => rfl
  | n + 1 => by
    rw [List.replicate_succ, List.mapM_cons, h, mapM_replicate_of_ok h n]
    rfl

theorem mapM_replicate_of_error {ε α β : Type} {f : α → Except ε β} {x : α} {e : ε} {n : Nat}
    (h : f x = .error e) (hn : n ≠ 0) : (List.replicate n x).mapM f = .error e := by
  obtain ⟨n, rfl⟩ := Nat.exists_eq_succ_of_ne_zero hn
  rw [List.replicate_succ, List.mapM_cons, h]
  rfl

/-- Holders that come to the same outcome settle on it, whatever `n ≠ 0` there are. -/
theorem settleHolders_replicate (options : Options) (outcome : Outcome) (d : Digest) {n : Nat}
    (hn : n ≠ 0) : settleHolders options (List.replicate n (outcome, d)) = .ok outcome := by
  obtain ⟨n, rfl⟩ := Nat.exists_eq_succ_of_ne_zero hn
  have hsize : (OrderedSet.empty.insert d).size = 1 := rfl
  unfold settleHolders
  rw [List.map_replicate, OrderedSet.ofList_replicate]
  dsimp only
  rw [hsize]
  simp [List.replicate_succ]

/-- What several holders come to is what `runHolder` of one of them comes to. -/
theorem runHolders_eq_runHolder {options : Options} (hholders : options.holders ≠ 0)
    (market : Market) (snapshot : Snapshot) (steps : List LogStep) :
    runHolders options market snapshot steps =
      runHolder options market (Text.bytes snapshot.canonical) steps := by
  rw [runHolders, if_neg hholders]
  split
  · rename_i e h
    exact h.symm
  · rename_i outcome h
    rw [settleHolders_replicate options outcome _ hholders, h]

/-- Holders whose copies are read come to exactly what `run` of one copy comes to. -/
theorem runHolders_eq_run {options : Options} {market : Market} {s copy : Snapshot}
    (hholders : options.holders ≠ 0) (h : Snapshot.read (Text.bytes s.canonical) = .ok copy)
    (steps : List LogStep) : runHolders options market s steps =
      run options ⟨copy.bindings, market⟩ copy.arrangement steps := by
  rw [runHolders_eq_runHolder hholders, runHolder, h]
  rfl

/-- **Holders may replay one after the other**: that they come to the same is no assumption of
`runHolders`. -/
theorem runHolders_eq_eachHolder (options : Options) (market : Market) (snapshot : Snapshot)
    (steps : List LogStep) :
    runHolders options market snapshot steps = eachHolder options market snapshot steps := by
  by_cases hholders : options.holders = 0
  · rw [runHolders, eachHolder, if_pos hholders, if_pos hholders]
  · rw [runHolders_eq_runHolder hholders, eachHolder, if_neg hholders]
    dsimp only
    cases h : runHolder options market (Text.bytes snapshot.canonical) steps with
    | error e =>
      rw [mapM_replicate_of_error (f := (runHolder options market · steps)) h hholders]
      rfl
    | ok outcome =>
      rw [mapM_replicate_of_ok (f := (runHolder options market · steps)) h,
        ← settleHolders_replicate options outcome outcome.digest hholders]
      exact congrArg (settleHolders options) (by rw [List.map_replicate])

variable {options : Options} {env : Environment} {digests : List Digest}

theorem elections_ne_disagreement : ∀ {steps : List LogStep} {index : Nat} {last : Option Date}
    {a : Arrangement}, elections options env index last a steps ≠ .error (.disagreement digests)
  | [], _, _, _, h => by cases h
  | step :: rest, index, last, a, h => by
    rw [elections_cons] at h
    rcases bind_eq_error.mp h with h | ⟨_, _, h⟩
    · unfold inOrder at h
      split at h <;> cases h
    rcases bind_eq_error.mp h with h | ⟨e, _, h⟩
    · obtain ⟨cause, -, h⟩ := mapError_eq_error.mp h
      cases h
    rcases bind_eq_error.mp h with h | ⟨_, _, h⟩
    · exact elections_ne_disagreement h
    · exact pure_ne_error h

theorem run_ne_disagreement {a : Arrangement} {steps : List LogStep} :
    run options env a steps ≠ .error (.disagreement digests) := by
  intro h
  rcases bind_eq_error.mp h with h | ⟨⟨made, final⟩, -, h⟩
  · exact elections_ne_disagreement h
  · dsimp only at h
    split at h
    · cases h
    · rcases bind_eq_error.mp h with h | ⟨_, _, h⟩
      · cases hpositions : netPositions (made.flatMap Election.payments) with
        | error cause =>
          rw [hpositions] at h
          cases h
        | ok positions =>
          rw [hpositions] at h
          cases h
      · exact pure_ne_error h

theorem runHolder_ne_disagreement {market : Market} {bytes : List UInt8} {steps : List LogStep} :
    runHolder options market bytes steps ≠ .error (.disagreement digests) := by
  intro h
  rcases bind_eq_error.mp h with h | ⟨_, _, h⟩
  · cases hread : Snapshot.read bytes with
    | error cause =>
      rw [hread] at h
      cases h
    | ok copy =>
      rw [hread] at h
      cases h
  · exact run_ne_disagreement h

/-- A holder whose copy is read comes to the outcome of a replay that was never stored, but for
signs of zeros. -/
theorem same_runHolder {market : Market} {s copy : Snapshot} (h : s.arrangement.validate = .ok ())
    (hcopy : Snapshot.read (Text.bytes s.canonical) = .ok copy) (steps : List LogStep) :
    Alike Failure.Same (Outcome.Related Decimal.Same)
      (runHolder options market (Text.bytes s.canonical) steps)
      (run options ⟨s.bindings, market⟩ s.arrangement steps) := by
  have hnormal := @Snapshot.eq_normal_of_read_text .compact _ _ h hcopy
  have henv : Environment.Related Decimal.Same ⟨s.normal.bindings, market⟩ ⟨s.bindings, market⟩ :=
    ⟨s.related_bindings_normal, .refl Decimal.Same.refl market⟩
  rw [runHolder, hcopy, hnormal]
  exact alike_run Decimal.congruence_same options henv s.arrangement.related_normal steps
    (fun _ _ _ => trivial) (fun _ _ _ => trivial)

end Replay

/-- **Storing a contract goes unnoticed.** A contract that is stored and read again before each
election, `storedResponses`, answers a log as `Arrangement.responses` of one that never is, as long
as it is read: each election is refused for the same reason, or both make elections that agree. If
`Replay.run` succeeds, those answers are the elections it makes. However many holders replay a log
from copies of their own, `Replay.runHolders`, they never disagree; if their copies are read, they
come to what `Replay.run` of the contract itself comes to, or fail as it does. -/
theorem stored_runs_agree (market : Market) (s : Snapshot) (h : s.arrangement.validate = .ok ()) :
    (∀ steps answers, storedResponses market s steps = .ok answers →
      List.Forall₂ AgreeingResponse answers
        (s.arrangement.responses ⟨s.bindings, market⟩ (steps.map (·.2)))) ∧
    (∀ options steps o, Replay.run options ⟨s.bindings, market⟩ s.arrangement steps = .ok o →
      s.arrangement.responses ⟨s.bindings, market⟩ steps = o.elections.map .ok) ∧
    ∀ options steps, options.holders ≠ 0 →
      Replay.runHolders options market s steps = Replay.eachHolder options market s steps ∧
      (∀ digests, Replay.runHolders options market s steps ≠ .error (.disagreement digests)) ∧
      ∀ copy, Snapshot.read (Text.bytes s.canonical) = .ok copy →
        Alike Replay.Failure.Same Replay.Outcome.Agree
          (Replay.runHolders options market s steps)
          (Replay.run options ⟨s.bindings, market⟩ s.arrangement steps) := by
  refine ⟨fun steps answers hanswers => ?_, fun options steps o ho => ?_,
    fun options steps hholders => ⟨?_, ?_, ?_⟩⟩
  · have hsame := same_storedResponses h (.refl Decimal.Same.refl _)
      (.refl Decimal.Same.refl _) hanswers
    exact hsame.imp fun _ _ hr => hr.imp fun _ _ he => he.agree Decimal.congruence_same
  · exact Replay.responses_of_elections_eq_ok (Replay.elections_of_run_eq_ok ho)
  · exact Replay.runHolders_eq_eachHolder options market s steps
  · intro digests
    rw [Replay.runHolders_eq_runHolder hholders]
    exact Replay.runHolder_ne_disagreement
  · intro copy hcopy
    rw [Replay.runHolders_eq_runHolder hholders]
    exact (Replay.same_runHolder h hcopy steps).imp fun _ _ ho => ho.agree Decimal.congruence_same

/-- The payment for the second month. -/
def paySecond : LogStep := ⟨⟨"acmeCorp"⟩, "pay", .literal 2015 3 2⟩

/-- The last payment, and nothing is left. -/
def secondPaid : Election :=
  ⟨"pay", ⟨"acmeCorp"⟩, .literal 2015 3 2,
    [⟨⟨"acmeCorp"⟩, ⟨"highStreetBank"⟩, .literal 900 0, .usd⟩], .zero⟩

theorem secondMonthSnapshot_runs_agree :
    secondMonthSnapshot.arrangement.validate = .ok () ∧
    storedResponses .empty secondMonthSnapshot [(.pretty, paySecond)] = .ok [.ok secondPaid] ∧
    List.Forall₂ AgreeingResponse [.ok secondPaid]
      (secondMonth.responses ⟨secondMonthSnapshot.bindings, .empty⟩ [paySecond]) ∧
    (∃ o, Replay.run .standard ⟨secondMonthSnapshot.bindings, .empty⟩ secondMonth [paySecond] =
      .ok o ∧ secondMonth.responses ⟨secondMonthSnapshot.bindings, .empty⟩ [paySecond] =
        o.elections.map .ok) ∧
    Replay.Options.standard.holders ≠ 0 ∧
    Alike Replay.Failure.Same Replay.Outcome.Agree
      (Replay.runHolders .standard .empty secondMonthSnapshot [paySecond])
      (Replay.run .standard ⟨secondMonthSnapshot.bindings, .empty⟩ secondMonth [paySecond]) := by
  have hvalid : secondMonth.validate = .ok () := rfl
  have hdepth : secondMonthSnapshot.toJson.depth ≤ Json.mostNested := by decide
  have hread : ∀ layout, Snapshot.read (Text.bytes (secondMonthSnapshot.text layout)) =
      .ok secondMonthSnapshot.normal := fun layout =>
    (Snapshot.read_text layout hvalid).trans (if_pos hdepth)
  have hanswers : storedResponses .empty secondMonthSnapshot [(.pretty, paySecond)] =
      .ok [.ok secondPaid] := by
    have hnormal : secondMonthSnapshot.normal.arrangement = secondMonth := rfl
    rw [storedResponses, hread]
    dsimp only [bind, Except.bind, paySecond]
    rw [hnormal, secondMonth_elect]
    rfl
  obtain ⟨o, ho⟩ : ∃ o, Replay.run .standard ⟨secondMonthSnapshot.bindings, .empty⟩ secondMonth
      [paySecond] = .ok o := by
    rw [Replay.run, Replay.elections_cons, paySecond, secondMonth_elect]
    exact ⟨_, rfl⟩
  have hagree := stored_runs_agree .empty secondMonthSnapshot hvalid
  have hholders : Replay.Options.standard.holders ≠ 0 := by decide
  exact ⟨hvalid, hanswers, hagree.1 _ _ hanswers, ⟨o, ho, hagree.2.1 _ _ o ho⟩, hholders,
    (hagree.2.2 .standard [paySecond] hholders).2.2 _ (hread .compact)⟩

end Covenant
