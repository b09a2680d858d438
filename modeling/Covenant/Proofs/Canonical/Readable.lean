/-
# What of a run can be read again

Writing knows no limit to nesting, reading does. So a state `a` of a run is
written in any case, but `Snapshot.read` has it again only if `a.toJson.depth`
is below `Json.mostNested`, and refuses it as `malformed` if not; that it is no
contract is never the reason. How deep a run leads is known from its start, and
for contracts from terms from the terms.

Key definitions: `Snapshot.Readable`, `Arrangement.Obtained`.
Key theorems: `Snapshot.readable_iff`, `Run.readable`, `stored_states_read`.
-/
import Covenant.Proofs.Canonical.Snapshot
import Covenant.Proofs.Terms.Depth

namespace Covenant

/-! ### Snapshots -/

namespace Snapshot

theorem depth_toJson (s : Snapshot) : s.toJson.depth = max s.arrangement.toJson.depth 1 + 1 := by
  have hbindings : Json.itemsDepth (s.bindings.entries.map fun e => e.2.toJson) = 0 :=
    Nat.le_zero.mp (Json.itemsDepth_map_le_iff.mpr fun e _ => Nat.le_of_eq e.2.depth_toJson)
  rw [toJson, Json.depth_object, Json.membersDepth_cons, Json.membersDepth_cons, Json.depth_ofMap,
    hbindings]
  simp

/-- `read` after `text`, in terms of how deep the contract itself nests: the snapshot around it is
one level. -/
theorem read_text_of_validate (layout : Json.Layout) {s : Snapshot}
    (h : s.arrangement.validate = .ok ()) : read (Text.bytes (s.text layout)) =
      if s.arrangement.toJson.depth < Json.mostNested then .ok s.normal else .error .malformed := by
  have hmost : 2 ≤ Json.mostNested := by decide
  have hdepth : s.toJson.depth ≤ Json.mostNested ↔
      s.arrangement.toJson.depth < Json.mostNested := by
    rw [depth_toJson]
    omega
  simp only [read_text layout h, hdepth]

/-- In whatever `layout` it is stored, the snapshot is read again, as `s.normal`. -/
def Readable (s : Snapshot) : Prop := ∀ layout, read (Text.bytes (s.text layout)) = .ok s.normal

theorem readable_iff {s : Snapshot} (h : s.arrangement.validate = .ok ()) :
    s.Readable ↔ s.arrangement.toJson.depth < Json.mostNested := by
  constructor
  · intro hread
    have hcompact := hread .compact
    rw [read_text_of_validate .compact h] at hcompact
    by_contra hdepth
    rw [if_neg hdepth] at hcompact
    cases hcompact
  · intro hdepth layout
    rw [read_text_of_validate layout h, if_pos hdepth]

end Snapshot

/-! ### Contracts -/

namespace Arrangement

/-- The ways to a contract: `Accepted` as a tree, read with a snapshot, or built from terms. -/
inductive Obtained : Arrangement → Prop
  | accepted {t : Arrangement} : t.Accepted → Obtained t
  | snapshot {bytes : List UInt8} {s : Snapshot} : Snapshot.read bytes = .ok s →
      Obtained s.arrangement
  | fxForward {terms : FxForwardTerms} {t : Arrangement} : terms.build = .ok t → Obtained t
  | swap {terms : SwapTerms} {t : Arrangement} : terms.build = .ok t → Obtained t
  | swaption {terms : SwaptionTerms} {t : Arrangement} : terms.build = .ok t → Obtained t
  | tarf {terms : TarfTerms} {t : Arrangement} : terms.build = .ok t → Obtained t

theorem validate_arrange {a t : Arrangement} (h : arrange a = .ok t) : t.validate = .ok () :=
  validate_of_accepted (.arranged h)

theorem validate_of_obtained {t : Arrangement} (h : t.Obtained) : t.validate = .ok () := by
  cases h with
  | accepted h => exact validate_of_accepted h
  | snapshot h => exact Snapshot.validate_read h
  | fxForward h => exact validate_arrange h
  | swap h => exact validate_rollOut h
  | swaption h =>
    unfold SwaptionTerms.build at h
    dsimp only at h
    split at h
    · cases h
    split at h
    · cases h
    · exact validate_arrange h
  | tarf h => exact validate_rollOut h

end Arrangement

/-! ### Runs -/

theorem Run.readable {n : Nat} {t a : Arrangement} {made : List Election}
    (hvalid : t.validate = .ok ()) (hrollouts : t.RolloutsWithin n) (hn : 2 * n < Json.mostNested)
    (hdepth : t.toJson.depth < Json.mostNested) (h : Run t made a) (bindings : Bindings) :
    (⟨a, bindings⟩ : Snapshot).Readable := by
  obtain ⟨-, hwithin⟩ := h.within hrollouts
  refine (Snapshot.readable_iff (h.validate hvalid).1).mpr ?_
  dsimp only
  omega

/-- **What of a run can be read again.** However a contract was obtained, every state `a` of its
runs is written, with any bindings and in either layout, and `Snapshot.read` has it again exactly if
`a.toJson.depth < Json.mostNested`; else it is refused as `malformed`, never as no contract. Every
state is `Readable` if the start nests at most 65 deep, and for a forward, a swap or a target
redemption forward, whatever the terms; but a cancellable swap of more than 40 dates is too deep to
begin with. -/
theorem stored_states_read {t : Arrangement} (ht : t.Obtained) :
    (∀ made a, Run t made a → ∀ bindings layout,
      Snapshot.read (Text.bytes (Snapshot.text layout ⟨a, bindings⟩)) =
        if a.toJson.depth < Json.mostNested then .ok (Snapshot.normal ⟨a, bindings⟩)
        else .error .malformed) ∧
    (t.toJson.depth ≤ 65 → ∀ made a, Run t made a → ∀ bindings,
      (⟨a, bindings⟩ : Snapshot).Readable) ∧
    ((∃ terms : FxForwardTerms, terms.build = .ok t) ∨
        (∃ terms : SwapTerms, terms.build = .ok t) ∨ (∃ terms : TarfTerms, terms.build = .ok t) →
      ∀ made a, Run t made a → ∀ bindings, (⟨a, bindings⟩ : Snapshot).Readable) ∧
    ∀ terms : SwaptionTerms, terms.build = .ok t →
      ((∀ made a, Run t made a → ∀ bindings, (⟨a, bindings⟩ : Snapshot).Readable) ↔
        terms.accrualDates.length ≤ 40) := by
  have hmost : Json.mostNested = 127 := rfl
  have hvalid := Arrangement.validate_of_obtained ht
  refine ⟨fun made a hrun bindings layout => ?_, fun hdepth made a hrun => ?_,
    fun hbuild made a hrun => ?_, fun terms hbuild => ?_⟩
  · exact Snapshot.read_text_of_validate layout (hrun.validate hvalid).1
  · have hrollouts := Arrangement.rolloutsWithin_of_depth_le (n := 63) t hdepth
    exact hrun.readable hvalid hrollouts (by omega) (by omega)
  · rcases hbuild with ⟨terms, hbuild⟩ | ⟨terms, hbuild⟩ | ⟨terms, hbuild⟩
    · obtain ⟨hrollouts, hdepth⟩ := FxForwardTerms.within_build hbuild
      exact hrun.readable hvalid hrollouts (by omega) (by omega)
    · obtain ⟨hrollouts, hdepth⟩ := SwapTerms.within_build hbuild
      exact hrun.readable hvalid hrollouts (by omega) (by omega)
    · obtain ⟨hrollouts, hdepth⟩ := TarfTerms.within_build hbuild
      exact hrun.readable hvalid hrollouts (by omega) (by omega)
  · obtain ⟨hrollouts, hdepth⟩ := SwaptionTerms.within_build hbuild
    constructor
    · intro h
      have hstart := (Snapshot.readable_iff hvalid).mp (h [] t .start .empty)
      dsimp only at hstart
      omega
    · intro hlength made a hrun
      exact hrun.readable hvalid hrollouts (by omega) (by omega)

theorem secondMonth_states_read :
    secondMonth.Obtained ∧ secondMonth.toJson.depth ≤ 65 ∧
    Snapshot.read (Text.bytes (Snapshot.text .pretty ⟨secondMonth, .empty⟩)) =
      .ok (Snapshot.normal ⟨secondMonth, .empty⟩) ∧
    Snapshot.Readable ⟨secondMonth, .empty⟩ ∧
    (∃ t, TarfTerms.standard.build = .ok t ∧ Snapshot.Readable ⟨t, .empty⟩) ∧
    ∃ t, SwaptionTerms.standard.build = .ok t ∧ SwaptionTerms.standard.accrualDates.length ≤ 40 ∧
      Snapshot.Readable ⟨t, .empty⟩ := by
  have hobtained : secondMonth.Obtained := .accepted (.arranged (a := secondMonth) rfl)
  have hdepth : secondMonth.toJson.depth ≤ 65 := by decide
  obtain ⟨hread, hshallow, -, -⟩ := stored_states_read hobtained
  have htext := hread [] secondMonth .start .empty .pretty
  refine ⟨hobtained, hdepth, htext.trans (if_pos (by decide)),
    hshallow hdepth [] secondMonth .start .empty, ⟨_, rfl, ?_⟩, ⟨_, rfl, by decide, ?_⟩⟩
  · have hbuild : TarfTerms.standard.build = .ok _ := rfl
    obtain ⟨-, -, htemplate, -⟩ := stored_states_read (.tarf hbuild)
    exact htemplate (.inr (.inr ⟨TarfTerms.standard, hbuild⟩)) [] _ .start .empty
  · have hbuild : SwaptionTerms.standard.build = .ok _ := rfl
    obtain ⟨-, -, -, hswaption⟩ := stored_states_read (.swaption hbuild)
    exact (hswaption SwaptionTerms.standard hbuild).mpr (by decide) [] _ .start .empty

/-- A cancellable swap with 41 dates, three months apart. -/
def fortyQuarters : SwaptionTerms :=
  { SwaptionTerms.standard with
    accrualDates := (List.range 41).filterMap fun i => (Date.literal 2015 4 1).addMonths (3 * i) }

/-- It is written but `Snapshot.read` refuses it, before any election. -/
theorem fortyQuarters_unreadable : ∃ t, fortyQuarters.build = .ok t ∧
    ∀ layout, Snapshot.read (Text.bytes (Snapshot.text layout ⟨t, .empty⟩)) =
      .error .malformed := by
  obtain ⟨t, ht⟩ : ∃ t, fortyQuarters.build = .ok t := by
    have hbuild : (fortyQuarters.build.map fun _ => ()) = .ok () := by decide +kernel
    cases h : fortyQuarters.build with
    | ok t => exact ⟨t, rfl⟩
    | error cause =>
      rw [h] at hbuild
      cases hbuild
  refine ⟨t, ht, fun layout => ?_⟩
  have hvalid := Arrangement.validate_of_obtained (.swaption ht)
  have hlength : fortyQuarters.accrualDates.length = 41 := by decide +kernel
  have hdepth := (SwaptionTerms.within_build ht).2
  have hmost : Json.mostNested = 127 := rfl
  rw [Snapshot.read_text_of_validate layout hvalid, if_neg (by dsimp only; omega)]

end Covenant
