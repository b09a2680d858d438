/-
# What is stored is read again

A contract that is stored and nests no deeper than a reader allows, at most
`Json.mostNested`, is read again: `t.normal`, which is the same contract but for
the sign of zeros, with every decimal at the scale it had. So is a snapshot with
its bindings, in either layout. One that nests deeper is refused as `malformed`.

Key definitions: `Snapshot.normal`, `Snapshot.text`.
Key theorems: `Arrangement.read_text`, `Snapshot.read_text`,
`read_stored`.
-/
import Covenant.Canonical.Snapshot
import Covenant.Proofs.Canonical.Arrangement
import Covenant.Proofs.Json.Reader
import Covenant.Proofs.Run

namespace Covenant

open Json (InRoom ReadsAs)

/-! ### Contracts -/

namespace Arrangement

theorem read_of_ofJson? {bytes : List UInt8} {j : Json} (h : Json.read? bytes = some j) :
    read bytes = match ofJson? j with
      | some a => a.checked
      | none => .error .malformed := by
  rw [read, h]
  rfl

/-- **A contract is read as it was stored**, as `a.normal`, if it nests no deeper than
`Json.mostNested`, and only then. -/
theorem read_text (layout : Json.Layout) {a : Arrangement} (h : a.validate = .ok ()) :
    read (Text.bytes (a.toJson.text layout)) =
      if a.toJson.depth ≤ Json.mostNested then .ok a.normal else .error .malformed := by
  rw [read_of_ofJson? (Json.read?_text layout a.plain_toJson), readsAs h Json.mostNested]
  by_cases hdepth : a.toJson.depth ≤ Json.mostNested
  · rw [if_pos hdepth, if_pos hdepth]
    dsimp only
    rw [checked, validate_normal, h]
  · rw [if_neg hdepth, if_neg hdepth]

/-- A contract is read exactly from bytes that hold a tree that passes the checks. -/
theorem read_eq_ok {bytes : List UInt8} {a : Arrangement} : read bytes = .ok a ↔
    (Json.read? bytes).bind ofJson? = some a ∧ a.validate = .ok () := by
  unfold read
  rw [Option.bind_eq_bind]
  cases hdecode : (Json.read? bytes).bind ofJson? with
  | none => simp
  | some b =>
    cases hvalid : b.validate with
    | ok u =>
      simp only [checked, hvalid, Except.ok.injEq, Option.some.injEq]
      exact ⟨fun h => ⟨h, h ▸ hvalid⟩, fun h => h.1⟩
    | error cause =>
      simp only [checked, hvalid, reduceCtorEq, Option.some.injEq, false_iff, not_and]
      intro h hok
      rw [← h, hvalid] at hok
      cases hok

/-- What is read of a stored tree is the tree without signs of zeros, which is then a contract. -/
theorem eq_normal_of_read {layout : Json.Layout} {t copy : Arrangement}
    (h : read (Text.bytes (t.toJson.text layout)) = .ok copy) :
    copy = t.normal ∧ t.validate = .ok () := by
  obtain ⟨hdecode, hvalid⟩ := read_eq_ok.mp h
  rw [Json.read?_text layout t.plain_toJson] at hdecode
  have hcopy : copy = t.normal := t.ofJson?_only _ copy hdecode
  rw [hcopy, validate_normal] at hvalid
  exact ⟨hcopy, hvalid⟩

end Arrangement

/-! ### Snapshots -/

namespace Snapshot

/-- The snapshot, without signs of zeros. -/
def normal (s : Snapshot) : Snapshot := ⟨s.arrangement.normal, s.bindings.mapValues .normal⟩

@[simp] theorem normal_normal (s : Snapshot) : s.normal.normal = s.normal := by
  simp [normal, OrderedMap.mapValues]

/-- The bindings of `s.normal` are the same as those of `s`. -/
theorem related_bindings_normal (s : Snapshot) :
    OrderedMap.Related Decimal.Same s.normal.bindings s.bindings :=
  (OrderedMap.Related.refl Decimal.Same.refl s.bindings).mapValues_left
    fun x _ h => x.same_normal.trans h

theorem agrees_normal (s : Snapshot) : s.normal.agrees s = true := by
  have harrangement := s.arrangement.related_normal.agrees Decimal.congruence_same
  have hbindings := s.related_bindings_normal.agrees Decimal.congruence_same
  rw [agrees, show s.normal.arrangement = s.arrangement.normal from rfl, harrangement, hbindings]
  rfl

/-- The text of a snapshot in a layout: `canonical` if compact, and `pretty`. -/
def text (layout : Json.Layout) (s : Snapshot) : String := s.toJson.text layout

theorem text_compact (s : Snapshot) : s.text .compact = s.canonical := rfl

theorem text_pretty (s : Snapshot) : s.text .pretty = s.pretty := rfl

theorem plain_toJson (s : Snapshot) : s.toJson.Plain := by
  have hbindings : (Json.ofMap Decimal.toJson s.bindings).Plain :=
    Json.plain_ofMap Decimal.plain_toJson
  simp [toJson, s.arrangement.plain_toJson, hbindings]

theorem readsAs {s : Snapshot} (h : s.arrangement.validate = .ok ()) :
    ReadsAs ofJson? s.toJson s.normal := by
  intro room
  rw [toJson, Json.depth]
  cases room with
  | zero =>
    rw [Json.prune_object_zero]
    exact .zero
  | succ room =>
    have hbindings := @Json.readsAs_map _ _ Decimal.ofJson? Decimal.toJson Decimal.normal s.bindings
      (fun e _ => e.2.readsAs) room
    rw [Json.prune_object]
    have hlast := hbindings.bind (f := fun b => some (Snapshot.mk s.arrangement.normal b)) (.pure _)
    exact ((Arrangement.readsAs h room).bind hlast).succ

theorem read_of_ofJson? {bytes : List UInt8} {j : Json} (h : Json.read? bytes = some j) :
    read bytes = match ofJson? j with
      | some s => match s.arrangement.validate with
        | .ok () => .ok s
        | .error cause => .error (.invalid cause)
      | none => .error .malformed := by
  rw [read, h]
  rfl

/-- **A snapshot is read as it was stored**, as `s.normal`, if it nests no deeper than
`Json.mostNested`, and only then. -/
theorem read_text (layout : Json.Layout) {s : Snapshot} (h : s.arrangement.validate = .ok ()) :
    read (Text.bytes (s.text layout)) =
      if s.toJson.depth ≤ Json.mostNested then .ok s.normal else .error .malformed := by
  rw [text, read_of_ofJson? (Json.read?_text layout s.plain_toJson), readsAs h Json.mostNested]
  by_cases hdepth : s.toJson.depth ≤ Json.mostNested
  · rw [if_pos hdepth, if_pos hdepth]
    dsimp only
    rw [normal, Arrangement.validate_normal, h]
  · rw [if_neg hdepth, if_neg hdepth]

/-- A snapshot is read exactly from bytes that hold one of a tree that passes the checks. -/
theorem read_eq_ok {bytes : List UInt8} {s : Snapshot} : read bytes = .ok s ↔
    (Json.read? bytes).bind ofJson? = some s ∧ s.arrangement.validate = .ok () := by
  unfold read
  rw [Option.bind_eq_bind]
  cases hdecode : (Json.read? bytes).bind ofJson? with
  | none => simp
  | some b =>
    cases hvalid : b.arrangement.validate with
    | ok u =>
      simp only [hvalid, Except.ok.injEq, Option.some.injEq]
      exact ⟨fun h => ⟨h, h ▸ hvalid⟩, fun h => h.1⟩
    | error cause =>
      simp only [hvalid, reduceCtorEq, Option.some.injEq, false_iff, not_and]
      intro h hok
      rw [← h, hvalid] at hok
      cases hok

theorem validate_read {bytes : List UInt8} {s : Snapshot} (h : read bytes = .ok s) :
    s.arrangement.validate = .ok () :=
  (read_eq_ok.mp h).2

theorem ofJson?_only (s : Snapshot) (room : Nat) :
    Json.Only (ofJson? (s.toJson.prune room)) s.normal := by
  rw [toJson]
  cases room with
  | zero =>
    rw [Json.prune_object_zero]
    exact .none _
  | succ room =>
    have hbindings := @Json.readsAs_map _ _ Decimal.ofJson? Decimal.toJson Decimal.normal s.bindings
      (fun e _ => e.2.readsAs) room
    rw [Json.prune_object]
    exact (s.arrangement.ofJson?_only room).bind (hbindings.only.bind (.pure _))

/-- What is read of a stored snapshot is the snapshot without signs of zeros. -/
theorem eq_normal_of_read {layout : Json.Layout} {s copy : Snapshot}
    (h : read (Text.bytes (s.text layout)) = .ok copy) :
    copy = s.normal ∧ s.arrangement.validate = .ok () := by
  obtain ⟨hdecode, hvalid⟩ := read_eq_ok.mp h
  rw [text, Json.read?_text layout s.plain_toJson] at hdecode
  have hcopy : copy = s.normal := s.ofJson?_only _ copy hdecode
  rw [hcopy, normal, Arrangement.validate_normal] at hvalid
  exact ⟨hcopy, hvalid⟩

end Snapshot

/-- **What is stored is read again.** A contract `t` or a snapshot `s` that passes `validate`, and
nests no deeper than `Json.mostNested`, comes back from its bytes: `t.canonical` is read as
`t.normal`, and `s.canonical` and `s.pretty` as `s.normal`. That is what was stored but for the sign
of zeros, and it `agrees` with it. -/
theorem read_stored :
    (∀ t : Arrangement, t.validate = .ok () → t.toJson.depth ≤ Json.mostNested →
      Arrangement.read (Text.bytes t.canonical) = .ok t.normal ∧ t.normal.agrees t = true) ∧
    ∀ s : Snapshot, s.arrangement.validate = .ok () → s.toJson.depth ≤ Json.mostNested →
      Snapshot.read (Text.bytes s.canonical) = .ok s.normal ∧
        Snapshot.read (Text.bytes s.pretty) = .ok s.normal ∧ s.normal.agrees s = true := by
  refine ⟨fun t ht hdepth => ⟨?_, ?_⟩, fun s hs hdepth => ⟨?_, ?_, ?_⟩⟩
  · exact (Arrangement.read_text .compact ht).trans (if_pos hdepth)
  · exact t.related_normal.agrees Decimal.congruence_same
  · rw [← Snapshot.text_compact, Snapshot.read_text .compact hs, if_pos hdepth]
  · rw [← Snapshot.text_pretty, Snapshot.read_text .pretty hs, if_pos hdepth]
  · exact s.agrees_normal

/-- The second month, with `margin` bound to a zero that has a sign. -/
def secondMonthSnapshot : Snapshot :=
  ⟨secondMonth, .ofList [("margin", (Decimal.literal 0 2).neg)]⟩

theorem secondMonthSnapshot_read_stored :
    (secondMonth.validate = .ok () ∧ secondMonth.toJson.depth ≤ Json.mostNested ∧
      Arrangement.read (Text.bytes secondMonth.canonical) = .ok secondMonth.normal) ∧
    secondMonthSnapshot.toJson.depth ≤ Json.mostNested ∧
      Snapshot.read (Text.bytes secondMonthSnapshot.pretty) = .ok secondMonthSnapshot.normal ∧
      secondMonthSnapshot.normal.bindings.get? "margin" = some (.literal 0 2) := by
  have hvalid : secondMonth.validate = .ok () := rfl
  have hdepth : secondMonth.toJson.depth ≤ Json.mostNested := by decide
  have hdepth' : secondMonthSnapshot.toJson.depth ≤ Json.mostNested := by decide
  exact ⟨⟨hvalid, hdepth, (read_stored.1 secondMonth hvalid hdepth).1⟩, hdepth',
    (read_stored.2 secondMonthSnapshot hvalid hdepth').2.1, rfl⟩

end Covenant
