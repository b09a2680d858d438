/-
# The canonical form determines the contract

A reader with room enough for the nesting and fuel enough for the length finds
the one JSON value that has a text, and the JSON of every part of a contract
determines that part: `toJson` is injective, and so is `canonical`, however deep
a contract nests. Nothing is lost of a decimal, its scale and the sign of a zero
included. Two contracts with one `digest` are equal, or the hash function
collides on their canonical texts.

Key definitions: `Digest.Collision`.
Key theorems: `Amount.toJson_injective`, `Arrangement.toJson_injective`,
`Snapshot.toJson_injective`, `canonical_identifies`.
-/
import Covenant.Proofs.Canonical.Snapshot

namespace Covenant

/-! ### Parts of a document -/

/-- `l.map f` determines `l` if `f` tells its members from all others. -/
theorem eq_of_map_eq {α β : Type} {f : α → β} {l l' : List α} (h : l.map f = l'.map f)
    (hf : ∀ x ∈ l, ∀ y, f x = f y → x = y) : l = l' := by
  induction l generalizing l' with
  | nil => exact (List.map_eq_nil_iff.mp h.symm).symm
  | cons x rest ih =>
    obtain ⟨y, rest', rfl, hxy, hrest⟩ := List.map_eq_cons_iff.mp h.symm
    rw [hf x List.mem_cons_self y hxy.symm,
      ih hrest.symm fun z hz => hf z (List.mem_cons_of_mem x hz)]

namespace Json

@[simp] theorem tagged_inj {tag tag' : String} {x x' : Json} :
    tagged tag x = tagged tag' x' ↔ tag = tag' ∧ x = x' := by
  simp [tagged]

theorem ofNat_injective : Function.Injective ofNat := by
  intro n n' h
  simp only [ofNat, number.injEq, Numeral.ofNat, Numeral.mk.injEq] at h
  rw [← Digits.value_ofNat n, h.2.1, Digits.value_ofNat]

theorem ofMap_injective {ν : Type} {write : ν → Json} (h : Function.Injective write) :
    Function.Injective (ofMap write) := by
  intro m m' heq
  have hentries : m.entries.map (fun e => (e.1, write e.2)) =
      m'.entries.map fun e => (e.1, write e.2) := object.inj heq
  refine OrderedMap.ext (eq_of_map_eq hentries fun e _ e' he => ?_)
  obtain ⟨hkey, hvalue⟩ := Prod.mk.inj he
  exact Prod.ext hkey (h hvalue)

end Json

/-! ### Amounts -/

theorem Decimal.toJson_injective : Function.Injective toJson := fun _ _ h =>
  toText_injective (Json.string.inj h)

@[simp] theorem Decimal.toJson_inj {d d' : Decimal} : d.toJson = d'.toJson ↔ d = d' :=
  toJson_injective.eq_iff

@[simp] theorem Observable.toJson_inj {o o' : Observable ContractDate} :
    o.toJson ContractDate.toJson = o'.toJson ContractDate.toJson ↔ o = o' :=
  (Json.ReadsAs.injective readsAs).eq_iff

@[simp] theorem Operator.toJson_inj {op op' : Operator} : op.toJson = op'.toJson ↔ op = op' :=
  (Json.ReadsAs.injective readsAs).eq_iff

@[simp] theorem Relation.toJson_inj {relation relation' : Relation} :
    relation.toJson = relation'.toJson ↔ relation = relation' :=
  (Json.ReadsAs.injective readsAs).eq_iff

@[simp] theorem DayCount.toJson_inj {c c' : DayCount} : c.toJson = c'.toJson ↔ c = c' :=
  (Json.ReadsAs.injective readsAs).eq_iff

@[simp] theorem ContractDate.toJson_inj {d d' : ContractDate} : d.toJson = d'.toJson ↔ d = d' :=
  (Json.ReadsAs.injective readsAs).eq_iff

namespace Amount

theorem toJson_injective : Function.Injective toJson := by
  intro a
  induction a with
  | const value =>
    intro b h
    cases b <;> simp_all [toJson]
  | var name =>
    intro b h
    cases b <;> simp_all [toJson]
  | state name =>
    intro b h
    cases b <;> simp_all [toJson]
  | observe o =>
    intro b h
    cases b <;> simp_all [toJson]
  | binary op left right ihl ihr =>
    intro b h
    cases b with
    | binary op' left' right' =>
      simp only [toJson, Json.tagged_inj, Json.array.injEq, List.cons.injEq, Operator.toJson_inj,
        true_and, and_true] at h
      obtain ⟨rfl, hl, hr⟩ := h
      rw [ihl hl, ihr hr]
    | _ => simp [toJson] at h
  | neg x ih =>
    intro b h
    cases b with
    | neg x' =>
      simp only [toJson, Json.tagged_inj] at h
      rw [ih h.2]
    | _ => simp [toJson] at h
  | plus x ih =>
    intro b h
    cases b with
    | plus x' =>
      simp only [toJson, Json.tagged_inj] at h
      rw [ih h.2]
    | _ => simp [toJson] at h
  | interest principal rate c s f ihp ihr =>
    intro b h
    cases b with
    | interest principal' rate' c' s' f' =>
      simp only [toJson, Json.tagged_inj, Json.object.injEq, List.cons.injEq, Prod.mk.injEq,
        DayCount.toJson_inj, ContractDate.toJson_inj, true_and, and_true] at h
      obtain ⟨hp, hr, rfl, rfl, rfl⟩ := h
      rw [ihp hp, ihr hr]
    | _ => simp [toJson] at h
  | select relation left right whenTrue otherwise ihl ihr iht iho =>
    intro b h
    cases b with
    | select relation' left' right' whenTrue' otherwise' =>
      simp only [toJson, Json.tagged_inj, Json.object.injEq, List.cons.injEq, Prod.mk.injEq,
        Relation.toJson_inj, true_and, and_true] at h
      obtain ⟨⟨rfl, hl, hr⟩, ht, ho⟩ := h
      rw [ihl hl, ihr hr, iht ht, iho ho]
    | _ => simp [toJson] at h

end Amount

@[simp] theorem Amount.toJson_inj {a a' : Amount} : a.toJson = a'.toJson ↔ a = a' :=
  toJson_injective.eq_iff

@[simp] theorem Rebind.toJson_inj {r r' : Rebind} : r.toJson = r'.toJson ↔ r = r' := by
  cases r; cases r'
  simp [toJson]

/-! ### Contracts -/

@[simp] theorem Party.toJson_inj {p p' : Party} : p.toJson = p'.toJson ↔ p = p' :=
  (Json.ReadsAs.injective readsAs).eq_iff

@[simp] theorem PartySet.toJson_inj {s s' : PartySet} : toJson s = toJson s' ↔ s = s' :=
  (Json.ReadsAs.injective readsAs).eq_iff

@[simp] theorem Currency.toJson_inj {c c' : Currency} : c.toJson = c'.toJson ↔ c = c' :=
  (Json.ReadsAs.injective readsAs).eq_iff

@[simp] theorem Date.toJson_inj {d d' : Date} : d.toJson = d'.toJson ↔ d = d' :=
  (Json.ReadsAs.injective readsAs).eq_iff

@[simp] theorem Frequency.toJson_inj {f f' : Frequency} : f.toJson = f'.toJson ↔ f = f' :=
  (Json.ReadsAs.injective readsAs).eq_iff

@[simp] theorem Guard.toJson_inj {g g' : Guard} : g.toJson = g'.toJson ↔ g = g' :=
  (Json.ReadsAs.injective readsAs).eq_iff

@[simp] theorem Obligation.toJson_inj {o o' : Obligation} : o.toJson = o'.toJson ↔ o = o' := by
  cases o; cases o'
  simp [toJson]

theorem vars_toJson_inj {vars vars' : OrderedMap String Amount} :
    Json.ofMap Amount.toJson vars = Json.ofMap Amount.toJson vars' ↔ vars = vars' :=
  (Json.ofMap_injective Amount.toJson_injective).eq_iff

theorem rebinds_toJson_inj {l l' : List Rebind} :
    l.map Rebind.toJson = l'.map Rebind.toJson ↔ l = l' :=
  (List.map_injective_iff.mpr fun _ _ => Rebind.toJson_inj.mp).eq_iff

theorem effects_toJson_inj {l l' : List Obligation} :
    l.map Obligation.toJson = l'.map Obligation.toJson ↔ l = l' :=
  (List.map_injective_iff.mpr fun _ _ => Obligation.toJson_inj.mp).eq_iff

@[simp] theorem Schedule.toJson_inj {s s' : Schedule} : s.toJson = s'.toJson ↔ s = s' := by
  cases s; cases s'
  simp [toJson, vars_toJson_inj]

namespace Arrangement

/-- An action is determined if what follows it is. -/
theorem eq_of_actionToJson_eq {x y : Action Arrangement}
    (h : x.continuation.toJson = y.continuation.toJson → x.continuation = y.continuation)
    (heq : actionToJson x = actionToJson y) : x = y := by
  obtain ⟨label, actors, guard, effects, continuation⟩ := x
  obtain ⟨label', actors', guard', effects', continuation'⟩ := y
  simp only [actionToJson, actionJson, Json.object.injEq, List.cons.injEq, Prod.mk.injEq,
    Json.string.injEq, PartySet.toJson_inj, Guard.toJson_inj, Json.array.injEq, effects_toJson_inj,
    true_and, and_true] at heq
  obtain ⟨rfl, rfl, rfl, rfl, hcontinuation⟩ := heq
  rw [Action.mk.injEq]
  exact ⟨rfl, rfl, rfl, rfl, h hcontinuation⟩

/-- A rollout is determined if its body is. -/
theorem eq_of_rolloutToJson_eq {r r' : Rollout Arrangement}
    (h : r.body.toJson = r'.body.toJson → r.body = r'.body)
    (heq : rolloutToJson r = rolloutToJson r') : r = r' := by
  obtain ⟨schedule, body, period, vars⟩ := r
  obtain ⟨schedule', body', period', vars'⟩ := r'
  simp only [rolloutToJson, Json.object.injEq, List.cons.injEq, Prod.mk.injEq, Schedule.toJson_inj,
    Json.ofNat_injective.eq_iff, vars_toJson_inj, true_and, and_true] at heq
  obtain ⟨rfl, hbody, rfl, rfl⟩ := heq
  rw [Rollout.mk.injEq]
  exact ⟨rfl, h hbody, rfl, rfl⟩

/-- **The JSON of a tree determines it.** -/
theorem toJson_injective : Function.Injective toJson := by
  intro a
  induction a with
  | zero =>
    intro b h
    cases b with
    | zero => rfl
    | resume r => cases r; simp [toJson, Json.tagged] at h
    | _ => simp [toJson, Json.tagged] at h
  | actions choices ih =>
    intro b h
    cases b with
    | actions choices' =>
      simp only [toJson, choicesJson_eq_map, Json.tagged_inj, Json.array.injEq, true_and] at h
      congr 1
      refine eq_of_map_eq h fun x hx y hxy => ?_
      exact eq_of_actionToJson_eq (fun hc => ih x hx hc) hxy
    | resume r => cases r; simp [toJson] at h
    | _ => simp [toJson, Json.tagged] at h
  | next rebinds =>
    intro b h
    cases b with
    | next rebinds' =>
      simp only [toJson, Json.tagged_inj, Json.object.injEq, List.cons.injEq, Prod.mk.injEq,
        Json.array.injEq, rebinds_toJson_inj, true_and, and_true] at h
      rw [h]
    | resume r => cases r; simp [toJson] at h
    | _ => simp [toJson, Json.tagged] at h
  | resume r rebinds ih =>
    intro b h
    cases b with
    | resume r' =>
      obtain ⟨rollout', rebinds'⟩ := r'
      simp only [toJson_resume, Json.tagged_inj, Json.object.injEq, List.cons.injEq, Prod.mk.injEq,
        Json.array.injEq, rebinds_toJson_inj, true_and, and_true] at h
      rw [eq_of_rolloutToJson_eq (fun hbody => ih hbody) h.1, h.2]
    | _ => simp [toJson, Json.tagged] at h

theorem toJson_inj {a b : Arrangement} : a.toJson = b.toJson ↔ a = b := toJson_injective.eq_iff

end Arrangement

theorem Snapshot.toJson_injective : Function.Injective toJson := by
  intro s s' h
  obtain ⟨arrangement, bindings⟩ := s
  obtain ⟨arrangement', bindings'⟩ := s'
  simp only [toJson, Json.object.injEq, List.cons.injEq, Prod.mk.injEq, Arrangement.toJson_inj,
    (Json.ofMap_injective Decimal.toJson_injective).eq_iff, true_and, and_true] at h
  rw [h.1, h.2]

/-! ### Canonical texts -/

namespace Digest

/-- The two texts differ and have one digest under `ofText`. -/
def Collision (s s' : String) : Prop := s ≠ s' ∧ ofText s = ofText s'

theorem ofText_eq_iff {s s' : String} : ofText s = ofText s' ↔ s = s' ∨ Collision s s' := by
  constructor
  · intro h
    by_cases heq : s = s'
    · exact .inl heq
    · exact .inr ⟨heq, h⟩
  · rintro (rfl | h)
    · rfl
    · exact h.2

end Digest

namespace Arrangement

theorem canonical_injective : Function.Injective canonical := fun a b h =>
  toJson_injective (Json.eq_of_text_eq .compact a.plain_toJson b.plain_toJson h)

theorem bytes_canonical_inj {a b : Arrangement} :
    Text.bytes a.canonical = Text.bytes b.canonical ↔ a = b :=
  (Text.bytes_injective.comp canonical_injective).eq_iff

theorem bytes_digest (a : Arrangement) :
    a.digest.bytes = Sha256.hash (Text.utf8 (a.toJson.toChars .compact)) := by
  unfold digest Digest.ofText Digest.ofBytes canonical Json.compact
  rw [Text.bytes_ofList]

theorem digest_eq_iff {a b : Arrangement} :
    a.digest = b.digest ↔ a = b ∨ Digest.Collision a.canonical b.canonical := by
  rw [digest, digest, Digest.ofText_eq_iff, canonical_injective.eq_iff]

end Arrangement

namespace Snapshot

theorem canonical_injective : Function.Injective canonical := fun s s' h =>
  toJson_injective (Json.eq_of_text_eq .compact s.plain_toJson s'.plain_toJson h)

theorem bytes_canonical_inj {s s' : Snapshot} :
    Text.bytes s.canonical = Text.bytes s'.canonical ↔ s = s' :=
  (Text.bytes_injective.comp canonical_injective).eq_iff

theorem digest_eq_iff {s s' : Snapshot} :
    s.digest = s'.digest ↔ s = s' ∨ Digest.Collision s.canonical s'.canonical := by
  rw [digest, digest, Digest.ofText_eq_iff, canonical_injective.eq_iff]

end Snapshot

/-- **The canonical form identifies the contract.** Arrangements of any depth, checked or not, have
the same bytes of `t.canonical` only if they are equal, and so have snapshots, with their bindings;
the digests `t.digest` and `s.digest` are equal only of equal contracts or where `Digest.Collision`
holds of the two canonical texts. -/
theorem canonical_identifies :
    (∀ t t' : Arrangement, Text.bytes t.canonical = Text.bytes t'.canonical ↔ t = t') ∧
    (∀ s s' : Snapshot, Text.bytes s.canonical = Text.bytes s'.canonical ↔ s = s') ∧
    (∀ t t' : Arrangement, t.digest = t'.digest ↔
      t = t' ∨ Digest.Collision t.canonical t'.canonical) ∧
    ∀ s s' : Snapshot, s.digest = s'.digest ↔
      s = s' ∨ Digest.Collision s.canonical s'.canonical := by
  refine ⟨fun t t' => ?_, fun s s' => ?_, fun t t' => ?_, fun s s' => ?_⟩
  · exact Arrangement.bytes_canonical_inj
  · exact Snapshot.bytes_canonical_inj
  · exact Arrangement.digest_eq_iff
  · exact Snapshot.digest_eq_iff

end Covenant
