/-
# What storage does to digests

A stored contract `t` comes back as `t.normal`, with the canonical text it had
exactly if no zero in it has a minus sign, and such a zero can come about in a
run: the rebinds of a rollout may value to one. What came back once comes back
unchanged from then on, and holders that replay a log from their copies come to
exactly what a replay of one copy comes to.

Key theorems: `Arrangement.read_again`, `Snapshot.read_again`, `stored_digests`.
-/
import Covenant.Proofs.Canonical.Injective
import Covenant.Proofs.Canonical.Readable
import Covenant.Proofs.Replay.Stored

namespace Covenant

/-! ### Reading again -/

namespace Arrangement

variable {layout : Json.Layout} {t copy : Arrangement}

theorem depth_le_of_read (h : read (Text.bytes (t.toJson.text layout)) = .ok copy) :
    t.toJson.depth ≤ Json.mostNested := by
  rw [read_text layout (eq_normal_of_read h).2] at h
  by_contra hdepth
  rw [if_neg hdepth] at h
  cases h

/-- A contract that `read` had once comes back unchanged from then on, in any layout. -/
theorem read_again (h : read (Text.bytes (t.toJson.text layout)) = .ok copy)
    (layout' : Json.Layout) : read (Text.bytes (copy.toJson.text layout')) = .ok copy := by
  have hdepth := depth_le_of_read h
  obtain ⟨rfl, hvalid⟩ := eq_normal_of_read h
  have hnormal : t.normal.validate = .ok () := by rw [validate_normal, hvalid]
  rw [read_text layout' hnormal, depth_toJson_normal, if_pos hdepth, normal_normal]

end Arrangement

namespace Snapshot

variable {layout : Json.Layout} {s copy : Snapshot}

theorem depth_toJson_normal (s : Snapshot) : s.normal.toJson.depth = s.toJson.depth := by
  rw [depth_toJson, depth_toJson, normal, Arrangement.depth_toJson_normal]

theorem depth_le_of_read (h : read (Text.bytes (s.text layout)) = .ok copy) :
    s.toJson.depth ≤ Json.mostNested := by
  rw [read_text layout (eq_normal_of_read h).2] at h
  by_contra hdepth
  rw [if_neg hdepth] at h
  cases h

/-- A snapshot that `read` had once comes back unchanged from then on, in any layout. -/
theorem read_again (h : read (Text.bytes (s.text layout)) = .ok copy) (layout' : Json.Layout) :
    read (Text.bytes (copy.text layout')) = .ok copy := by
  have hdepth := depth_le_of_read h
  obtain ⟨rfl, hvalid⟩ := eq_normal_of_read h
  have hnormal : s.normal.arrangement.validate = .ok () := by
    rw [normal, Arrangement.validate_normal, hvalid]
  rw [read_text layout' hnormal, depth_toJson_normal, if_pos hdepth, normal_normal]

end Snapshot

/-! ### Digests -/

/-- **What storage does to digests.** Whatever `read` has of the bytes of `t.canonical`, or
`s.canonical`, is `t.normal`, or `s.normal`: it has the canonical bytes that were stored exactly if
there was no sign to lose, `t.normal = t`, and the `digest` too unless there is a
`Digest.Collision`; stored again it does not change any more. With `Replay.runHolders` holders come
to what `Replay.run` of a copy comes to, final digest included, and that is what a replay of `s`
itself comes to, if it had no sign to lose. -/
theorem stored_digests (t : Arrangement) (s : Snapshot) :
    (∀ copy, Arrangement.read (Text.bytes t.canonical) = .ok copy →
      copy = t.normal ∧
      (Text.bytes copy.canonical = Text.bytes t.canonical ↔ t.normal = t) ∧
      (copy.digest = t.digest ↔
        t.normal = t ∨ Digest.Collision t.normal.canonical t.canonical) ∧
      Arrangement.read (Text.bytes copy.canonical) = .ok copy) ∧
    ∀ copy, Snapshot.read (Text.bytes s.canonical) = .ok copy →
      copy = s.normal ∧
      (Text.bytes copy.canonical = Text.bytes s.canonical ↔ s.normal = s) ∧
      (copy.digest = s.digest ↔
        s.normal = s ∨ Digest.Collision s.normal.canonical s.canonical) ∧
      Snapshot.read (Text.bytes copy.canonical) = .ok copy ∧
      ∀ market options steps, options.holders ≠ 0 →
        Replay.runHolders options market s steps =
          Replay.run options ⟨copy.bindings, market⟩ copy.arrangement steps ∧
        (s.normal = s → Replay.runHolders options market s steps =
          Replay.run options ⟨s.bindings, market⟩ s.arrangement steps) := by
  refine ⟨fun copy h => ?_, fun copy h => ?_⟩
  · have hagain := @Arrangement.read_again .compact t copy h .compact
    obtain ⟨rfl, -⟩ := @Arrangement.eq_normal_of_read .compact t copy h
    exact ⟨rfl, Arrangement.bytes_canonical_inj, Arrangement.digest_eq_iff, hagain⟩
  · have hagain := @Snapshot.read_again .compact s copy h .compact
    have hcopy := (@Snapshot.eq_normal_of_read .compact s copy h).1
    refine ⟨hcopy, hcopy ▸ Snapshot.bytes_canonical_inj, hcopy ▸ Snapshot.digest_eq_iff, hagain,
      fun market options steps hholders => ?_⟩
    have hrun := @Replay.runHolders_eq_run options market s copy hholders h steps
    refine ⟨hrun, fun hnormal => ?_⟩
    rw [hrun, hcopy, hnormal]

theorem secondMonth_stored_digests :
    Arrangement.read (Text.bytes secondMonth.canonical) = .ok secondMonth.normal ∧
    secondMonth.normal.digest = secondMonth.digest ∧
    Snapshot.read (Text.bytes secondMonthSnapshot.canonical) = .ok secondMonthSnapshot.normal ∧
    Text.bytes secondMonthSnapshot.normal.canonical ≠ Text.bytes secondMonthSnapshot.canonical ∧
    Replay.Options.standard.holders ≠ 0 ∧
    Replay.runHolders .standard .empty secondMonthSnapshot.normal [paySecond] =
      Replay.run .standard ⟨secondMonthSnapshot.normal.bindings, .empty⟩
        secondMonthSnapshot.normal.arrangement [paySecond] := by
  have hvalid : secondMonth.validate = .ok () := rfl
  have hread : Arrangement.read (Text.bytes secondMonth.canonical) = .ok secondMonth.normal :=
    (Arrangement.read_text .compact hvalid).trans (if_pos (by decide))
  have hread' : Snapshot.read (Text.bytes secondMonthSnapshot.canonical) =
      .ok secondMonthSnapshot.normal :=
    (Snapshot.read_text .compact hvalid).trans (if_pos (by decide))
  have hholders : Replay.Options.standard.holders ≠ 0 := by decide
  have hsigned : secondMonthSnapshot.normal ≠ secondMonthSnapshot := fun h =>
    absurd (congrArg (fun s => s.bindings.get? "margin") h) (by decide)
  obtain ⟨htree, hsnapshot⟩ := stored_digests secondMonth secondMonthSnapshot
  obtain ⟨-, -, hdigest, -⟩ := htree _ hread
  obtain ⟨-, hbytes, -, hagain, -⟩ := hsnapshot _ hread'
  -- what came back has lost its sign, so from its copies a log is replayed as from itself
  obtain ⟨-, -, -, -, hreplay⟩ := (stored_digests secondMonth secondMonthSnapshot.normal).2 _ hagain
  obtain ⟨-, hlive⟩ := hreplay .empty .standard [paySecond] hholders
  exact ⟨hread, hdigest.mpr (.inl rfl), hread', fun h => hsigned (hbytes.mp h), hholders,
    hlive secondMonthSnapshot.normal_normal⟩

/-! ### A zero that comes back without its sign -/

/-- Three months, over which the variable `x` is carried, which starts at zero. -/
def threeMonths : Schedule :=
  ⟨.literal 2015 1 1, .literal 2015 4 1, .monthly, .ofList [("x", .const .zero)]⟩

/-- The rebind is `-x` every month. -/
def negateEachMonth : Arrangement :=
  .actions [⟨"go", Party.only ⟨"a"⟩, .anytime, [], .next [⟨"x", .neg (.state "x")⟩]⟩]

/-- The second month, where `x` is a zero with a minus sign. -/
def negatedOnce : Arrangement :=
  Rollout.instantiate
    ⟨threeMonths, negateEachMonth, 1, threeMonths.initial.insert "x" (.const Decimal.zero.neg)⟩

theorem negateEachMonth_elect : ∃ t, rollOut threeMonths negateEachMonth = .ok t ∧
    t.elect ⟨.empty, .empty⟩ ⟨"a"⟩ "go" (.literal 2015 1 1) =
      .ok ⟨"go", ⟨"a"⟩, .literal 2015 1 1, [], negatedOnce⟩ := by
  refine ⟨_, rfl, Arrangement.elect_eq_ok.mpr ⟨_, _, _, rfl, by decide, ?_, rfl⟩⟩
  refine Arrangement.carryOut_eq_ok.mpr ⟨rfl, (Arrangement.settle_resume _ _).trans ?_⟩
  have hstep : Resume.step ⟨.empty, .empty⟩ ⟨⟨threeMonths, negateEachMonth, 0, threeMonths.initial⟩,
      [⟨"x", .neg (.const .zero)⟩]⟩ = .ok negatedOnce := rfl
  exact (congrArg (· >>= Arrangement.settle _) hstep).trans (Arrangement.settle_actions _ _)

/-- The value of a variable in the rollout of the `resume` after the first action. -/
def Arrangement.carried? (name : String) : Arrangement → Option Amount
  | actions (⟨_, _, _, _, resume ⟨⟨_, _, _, vars⟩, _⟩⟩ :: _) => vars.get? name
  | _ => none

/-- `negatedOnce` is a state of a run, and comes back from storage with other bytes. -/
theorem negatedOnce_changed : ∃ t, rollOut threeMonths negateEachMonth = .ok t ∧
    Run t [⟨"go", ⟨"a"⟩, .literal 2015 1 1, [], negatedOnce⟩] negatedOnce ∧
    ∃ copy, Arrangement.read (Text.bytes negatedOnce.canonical) = .ok copy ∧
      Text.bytes copy.canonical ≠ Text.bytes negatedOnce.canonical := by
  obtain ⟨t, ht, helect⟩ := negateEachMonth_elect
  have hrun := Run.elect .start helect
  have hvalid := (hrun.validate (Arrangement.validate_rollOut ht)).1
  have hdepth : negatedOnce.toJson.depth ≤ Json.mostNested := by decide
  have hread := (Arrangement.read_text .compact hvalid).trans (if_pos hdepth)
  have hsigned : negatedOnce.normal ≠ negatedOnce := fun h =>
    absurd (congrArg (Arrangement.carried? "x") h) (by decide)
  exact ⟨t, ht, hrun, negatedOnce.normal, hread,
    fun h => hsigned (Arrangement.bytes_canonical_inj.mp h)⟩

end Covenant
