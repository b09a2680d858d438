/-
# What the order of writing leaves behind

Some of the order in which a contract is written means nothing: how the parties
of an action are joined, and how often each is named; in which order the
variables of a rollout are declared, or the values of a snapshot put in. Nothing
of it is left in what `draft.build` comes to, so nothing of it is left in its
text, its bytes or its digest.

Key definitions: `Draft.Alike`.
Key theorems: `Joined.set_eq_of_mem_iff`, `Draft.Alike.build_eq`,
`built_alike`.
-/
import Covenant.Arrangement.Text
import Covenant.Canonical.Snapshot
import Covenant.Draft
import Covenant.Proofs.Party

namespace Covenant

/-! ### Parties -/

namespace Joined

/-- `joined.set` has the parties that are named. -/
theorem mem_set {p : Party} : ∀ {joined : Joined}, p ∈ joined.set.members ↔ p ∈ joined.parties
  | one party => by
    rw [set, parties, Party.mem_only, List.mem_singleton]
  | either left right => by
    rw [set, parties, OrderedSet.mem_union, List.mem_append, mem_set, mem_set]

/-- How parties are joined does not matter to `joined.set`, nor how often each is named. -/
theorem set_eq_of_mem_iff {joined joined' : Joined}
    (h : ∀ p, p ∈ joined.parties ↔ p ∈ joined'.parties) : joined.set = joined'.set :=
  OrderedSet.eq_of_mem_iff fun p => by rw [mem_set, mem_set, h]

end Joined

/-! ### Drafts -/

namespace Draft

mutual

/-- The same calls, up to how the parties of each action are joined and in which order the variables
of each rollout are declared. -/
inductive Alike : Draft → Draft → Prop
  | tree (t : Arrangement) : Alike (.tree t) (.tree t)
  | zero : Alike .zero .zero
  | next (rebinds : List Rebind) : Alike (.next rebinds) (.next rebinds)
  | actions {items items' : List (DraftAction Draft)} :
      AlikeItems items items' → Alike (.actions items) (.actions items')
  | rolledOut {start finish : Date} {frequency : Frequency}
      {declared declared' : List (String × Amount)} {body body' : Draft} :
      Reordered declared declared' → Alike body body' →
      Alike (.rolledOut start finish frequency declared body)
        (.rolledOut start finish frequency declared' body')
  | arranged {draft draft' : Draft} : Alike draft draft' →
      Alike (.arranged draft) (.arranged draft')

/-- The same actions one after the other, the `parties` of each the same but for their order. -/
inductive AlikeItems : List (DraftAction Draft) → List (DraftAction Draft) → Prop
  | nil : AlikeItems [] []
  | cons {label : String} {actors actors' : Joined} {guard : Guard} {effects : List Obligation}
      {continuation continuation' : Draft} {rest rest' : List (DraftAction Draft)} :
      (∀ p, p ∈ actors.parties ↔ p ∈ actors'.parties) → Alike continuation continuation' →
      AlikeItems rest rest' →
      AlikeItems (⟨label, actors, guard, effects, continuation⟩ :: rest)
        (⟨label, actors', guard, effects, continuation'⟩ :: rest')

end

mutual

/-- Drafts that are alike have the same `build`, a tree or a fault. -/
theorem Alike.build_eq : ∀ {draft draft' : Draft}, draft.Alike draft' → draft.build = draft'.build
  | _, _, .tree t => rfl
  | _, _, .zero => rfl
  | _, _, .next rebinds => rfl
  | _, _, .actions hitems => by rw [build, build, hitems.buildItems_eq]
  | _, _, .rolledOut hdeclared hbody => by
    rw [build, build, hbody.build_eq, hdeclared.ofList_eq]
  | _, _, .arranged hdraft => by rw [build, build, hdraft.build_eq]

theorem AlikeItems.buildItems_eq : ∀ {items items' : List (DraftAction Draft)},
    AlikeItems items items' → buildItems items = buildItems items'
  | _, _, .nil => rfl
  | _, _, .cons hactors hcontinuation hrest => by
    rw [buildItems, buildItems, hcontinuation.build_eq, hrest.buildItems_eq,
      Joined.set_eq_of_mem_iff hactors]

end

end Draft

/-- **Order that means nothing does not reach the bytes.** Of two drafts that are `Alike`, that is
but for how the parties of each action are joined and in which order the variables of each rollout
are declared, `build` refuses both for the same fault, or comes to trees with the same `toText`,
canonical bytes and digest; so have their snapshots, if `values` and `values'` are `Reordered`,
values of different names put in in another order. -/
theorem built_alike {draft draft' : Draft} (h : draft.Alike draft')
    {values values' : List (String × Decimal)} (hvalues : Reordered values values') :
    (∃ cause, draft.build = .error cause ∧ draft'.build = .error cause) ∨
    ∃ t t', draft.build = .ok t ∧ draft'.build = .ok t' ∧
      t.toText = t'.toText ∧ Text.bytes t.canonical = Text.bytes t'.canonical ∧
      t.digest = t'.digest ∧
      let snapshot : Snapshot := ⟨t, .ofList values⟩
      let snapshot' : Snapshot := ⟨t', .ofList values'⟩
      Text.bytes snapshot.canonical = Text.bytes snapshot'.canonical ∧
        snapshot.digest = snapshot'.digest := by
  have hbuild := h.build_eq
  cases hdraft : draft.build with
  | error cause => exact .inl ⟨cause, rfl, hbuild ▸ hdraft⟩
  | ok t =>
    refine .inr ⟨t, t, rfl, hbuild ▸ hdraft, rfl, rfl, rfl, ?_⟩
    rw [hvalues.ofList_eq]
    exact ⟨rfl, rfl⟩

/-- The variable `cap` is paid after each of two months, by whoever of these parties elects it. -/
def payDraft (actors : Joined) (declared : List (String × Amount)) : Draft :=
  .rolledOut (.literal 2015 1 1) (.literal 2015 3 1) .monthly declared
    (.actions [⟨"pay", actors, .after .periodEnd,
      [⟨⟨"acmeCorp"⟩, ⟨"highStreetBank"⟩, .state "cap", .usd⟩],
      .next [⟨"cap", .binary .min (.state "cap") (.state "floor")⟩]⟩])

theorem payDraft_built :
    let corp : Joined := .one ⟨"acmeCorp"⟩
    let bank : Joined := .one ⟨"highStreetBank"⟩
    let fund : Joined := .one ⟨"pensionFund"⟩
    let cap : String × Amount := ("cap", .const (.literal 1000 0))
    let floor : String × Amount := ("floor", .const (.literal 900 0))
    let draft := payDraft (.either corp (.either bank fund)) [cap, floor]
    let draft' := payDraft (.either (.either fund corp) (.either bank corp)) [floor, cap]
    let values := [("rate", Decimal.literal 35 1), ("notional", Decimal.literal 100 0)]
    draft.Alike draft' ∧ Reordered values values.reverse ∧
    ∃ t t', draft.build = .ok t ∧ draft'.build = .ok t' ∧ t.toText = t'.toText ∧
      (Snapshot.mk t (.ofList values)).digest =
        (Snapshot.mk t' (.ofList values.reverse)).digest := by
  intro corp bank fund cap floor draft draft' values
  have hactors : ∀ p, p ∈ (Joined.either corp (.either bank fund)).parties ↔
      p ∈ (Joined.either (.either fund corp) (.either bank corp)).parties := by
    intro p
    simp only [Joined.parties, corp, bank, fund, List.mem_append, List.mem_singleton]
    grind
  have hdeclared : Reordered [cap, floor] [floor, cap] := .of_perm (.swap ..) (by decide)
  have halike : draft.Alike draft' :=
    .rolledOut hdeclared (.actions (.cons hactors (.next _) .nil))
  have hvalues : Reordered values values.reverse := .of_perm (.swap ..) (by decide)
  have hbuilt : draft.build.isOk = true := by decide +kernel
  refine ⟨halike, hvalues, ?_⟩
  rcases built_alike halike hvalues with
    ⟨cause, hrefused, -⟩ | ⟨t, t', h, h', htext, -, -, -, hdigest⟩
  · rw [hrefused] at hbuilt
    cases hbuilt
  · exact ⟨t, t', h, h', htext, hdigest⟩

end Covenant
