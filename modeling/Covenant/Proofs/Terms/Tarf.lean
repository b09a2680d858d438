/-
# Courses of a target redemption forward

However its elections are made, a forward goes through the periods of its
schedule in order and settles or skips each of them once. It stands in a period
with a number of uses and a cap, at a `Standing`. A settlement pays something
between nothing and the cap, nothing without uses, and leaves to the next period
the cap less just what was paid and one use less; a period that is skipped
leaves both as they are. So the cap is never negative, and no more settlements
pay than there were uses.

Key definitions: `TarfTerms.Standing`, `TarfTerms.Turn`, `TarfTerms.Step`,
`TarfTerms.Course`.
Key theorems: `TarfTerms.step_of_elect`, `TarfTerms.exists_course`,
`TarfTerms.runs_take_turns`.
-/
import Covenant.Proofs.Amount.Operator
import Covenant.Proofs.Refinement
import Covenant.Proofs.Schedule.Partition
import Covenant.Terms.Tarf

namespace Covenant
namespace TarfTerms

/-! ### Standings -/

/-- Where a forward stands: in a period, with so many uses and so much of the target left, before or
after it is exercised. -/
structure Standing where
  period : Nat
  uses : Decimal
  cap : Decimal
  exercised : Bool

/-- The state variables `uses` and `cap` with their values. -/
def counters (uses cap : Decimal) : OrderedMap String Amount :=
  .ofList [("uses", .const uses), ("cap", .const cap)]

variable (terms : TarfTerms)

/-- The rollout of `terms.body` in a period. -/
def rolloutAt (period : Nat) (uses cap : Decimal) : Rollout Arrangement :=
  ⟨terms.schedule, terms.body, period, counters uses cap⟩

/-- The `Position` that a standing is at: in the body, or, once exercised, in the settlement. -/
def position (s : Standing) : Position :=
  ⟨terms.rolloutAt s.period s.uses s.cap, if s.exercised then terms.settlement else terms.body⟩

/-- The tree of a standing; that of a forward which is over is `zero`. -/
def tree : Option Standing → Arrangement
  | some s => (terms.position s).tree
  | none => .zero

/-- Where the forward stands at first, with `terms.usesLeft` and `terms.target`. -/
def first : Standing := ⟨0, terms.usesLeft, terms.target, false⟩

/-! ### Steps -/

/-- What a settlement may pay: nothing negative, no more than `s.cap`, and nothing without uses. -/
structure Standing.Permits (s : Standing) (p : Decimal) : Prop where
  nonneg : 0 ≤ p.toRat
  le_cap : p.toRat ≤ s.cap.toRat
  eq_zero : s.uses.toRat ≤ 0 → p = .zero

/-- A period that is done with: settled for what was `paid`, or skipped. -/
structure Turn where
  period : Nat
  paid : Option Decimal

/-- What an election with a label pays and leads to, and the turn that it completes. -/
inductive Step (s : Standing) :
    String → List Payment → Option Turn → Option Standing → Prop where
  | exercise : s.exercised = false →
      Step s "exercise" [] none (some { s with exercised := true })
  | skip : s.exercised = false → s.period + 1 < terms.schedule.periodCount →
      Step s "proceedWithoutExercise" [] (some ⟨s.period, none⟩)
        (some ⟨s.period + 1, s.uses, s.cap, false⟩)
  | skipLast : s.exercised = false → s.period + 1 = terms.schedule.periodCount →
      Step s "proceedWithoutExercise" [] (some ⟨s.period, none⟩) none
  | settle {p uses cap : Decimal} : s.exercised = true → s.Permits p →
      s.period + 1 < terms.schedule.periodCount →
      s.uses.sub .one = some uses → s.cap.sub p = some cap →
      Step s "proceed" [⟨terms.bank, terms.corp, p, terms.quoted⟩] (some ⟨s.period, some p⟩)
        (some ⟨s.period + 1, uses, cap, false⟩)
  | settleLast {p : Decimal} : s.exercised = true → s.Permits p →
      s.period + 1 = terms.schedule.periodCount →
      Step s "proceed" [⟨terms.bank, terms.corp, p, terms.quoted⟩] (some ⟨s.period, some p⟩) none

/-- `payments`, and where the interpreter is then, `q`, are what a `Step` comes to. -/
def StepsTo (s : Standing) (label : String) (payments : List Payment) (q : Position) : Prop :=
  ∃ turn next, terms.Step s label payments turn next ∧ q.tree = terms.tree next ∧
    ∀ s' ∈ next, q = terms.position s'

/-- Where the interpreter is after an election: at a standing in the same period or in the next one,
with as many uses or with one less, or at the end. -/
structure LeadsTo (s : Standing) (next : Option Standing) (q : Position) : Prop where
  tree_eq : q.tree = terms.tree next
  position_eq : ∀ s' ∈ next, q = terms.position s'
  uses_eq : ∀ s' ∈ next, (s.period ≤ s'.period ∧ s'.uses = s.uses) ∨
    (s.period + 1 = s'.period ∧ s.uses.sub .one = some s'.uses)

/-- A course of the forward: the elections made, the turns they completed, both in order, and where
the forward then stands. -/
inductive Course : List Election → List Turn → Option Standing → Prop where
  | start : Course [] [] (some terms.first)
  | step {made : List Election} {turns : List Turn} {s : Standing} {e : Election}
      {turn : Option Turn} {next : Option Standing} : Course made turns (some s) →
      terms.Step s e.label e.payments turn next → e.successor = terms.tree next →
      Course (made ++ [e]) (turns ++ turn.toList) next

/-! ### State variables -/

theorem entries_counters (uses cap : Decimal) :
    (counters uses cap).entries = [("cap", .const cap), ("uses", .const uses)] := by
  have hlt : compare "cap" "uses" = .lt := by decide
  simp [counters, OrderedMap.ofList, OrderedMap.insertAll, OrderedMap.insert,
    OrderedMap.insertEntry, OrderedMap.empty, hlt]

theorem insertAll_counters (uses cap uses' cap' : Decimal) :
    (counters uses cap).insertAll [("uses", .const uses'), ("cap", .const cap')] =
      counters uses' cap' := by
  have hgt : compare "uses" "cap" = .gt := by decide
  apply OrderedMap.ext
  simp [OrderedMap.insertAll, OrderedMap.insert, OrderedMap.insertEntry, entries_counters, hgt]

section

variable {terms} {env : Environment} {frame : Frame} {s : Standing} {p : Decimal}

theorem state_uses (hvars : frame.vars = counters s.uses s.cap) :
    frame.state env "uses" = .ok s.uses := by
  have hget := (counters s.uses s.cap).get?_of_mem_entries (e := ("uses", .const s.uses))
    (by simp [entries_counters])
  rw [Frame.state, hvars, hget]
  rfl

theorem state_cap (hvars : frame.vars = counters s.uses s.cap) :
    frame.state env "cap" = .ok s.cap := by
  have hget := (counters s.uses s.cap).get?_of_mem_entries (e := ("cap", .const s.cap))
    (by simp [entries_counters])
  rw [Frame.state, hvars, hget]
  rfl

/-! ### Amounts -/

/-- What `terms.payout` comes to is permitted. -/
theorem permits_payout (hvars : frame.vars = counters s.uses s.cap) (hcap : 0 ≤ s.cap.toRat)
    (h : terms.payout.valueIn env frame = .ok p) : s.Permits p := by
  simp only [payout, Amount.valueIn, state_uses hvars, state_cap hvars] at h
  obtain ⟨_, ⟨⟩, h⟩ := bind_eq_ok.mp h
  obtain ⟨_, ⟨⟩, h⟩ := bind_eq_ok.mp h
  split at h
  · rename_i hgt
    rw [Relation.holds_gt, Decimal.toRat_zero] at hgt
    obtain ⟨gain, hgain, h⟩ := bind_eq_ok.mp h
    obtain ⟨difference, -, ⟨⟩⟩ := bind_eq_ok.mp hgain
    obtain ⟨⟩ := h
    refine ⟨?_, ?_, fun hnone => absurd hgt hnone.not_gt⟩
    · rw [Decimal.toRat_min, Decimal.toRat_max, Decimal.toRat_zero]
      exact le_min (le_max_right _ _) hcap
    · rw [Decimal.toRat_min]
      exact min_le_right _ _
  · obtain ⟨⟩ := h
    exact ⟨Decimal.toRat_zero.ge, Decimal.toRat_zero.trans_le hcap, fun _ => rfl⟩

/-- The rebinds of a settlement carry on `s.uses` less one and `s.cap` less the payout. -/
theorem rebindValues_settlement (hvars : frame.vars = counters s.uses s.cap)
    (hp : terms.payout.valueIn env frame = .ok p) {values : List (String × Decimal)}
    (h : rebindValues env frame [⟨"uses", .binary .sub (.state "uses") (.const .one)⟩,
      ⟨"cap", .binary .sub (.state "cap") terms.payout⟩] = .ok values) :
    ∃ uses cap, s.uses.sub .one = some uses ∧ s.cap.sub p = some cap ∧
      values = [("uses", uses), ("cap", cap)] := by
  simp only [rebindValues, Amount.valueIn, state_uses hvars, state_cap hvars, hp] at h
  obtain ⟨uses, huses, h⟩ := bind_eq_ok.mp h
  obtain ⟨rest, hrest, ⟨⟩⟩ := bind_eq_ok.mp h
  obtain ⟨cap, hcap, hrest⟩ := bind_eq_ok.mp hrest
  obtain ⟨_, ⟨⟩, ⟨⟩⟩ := bind_eq_ok.mp hrest
  exact ⟨uses, cap, Operator.sub_eq_ok.mp huses, Operator.sub_eq_ok.mp hcap, rfl⟩

end

/-! ### Elections -/

section

variable {terms} {env : Environment} {s : Standing} {actor : Party} {label : String} {day : Date}
  {payments : List Payment} {q : Position}

/-- A position is at a period of the schedule. -/
theorem lt_periodCount (h : (terms.position s).Valid) : s.period < terms.schedule.periodCount :=
  Schedule.isSome_period?_iff_lt.mp h.rollout_ok.period_isSome

/-- After a period comes the next one, with the rebinds valued, or nothing. -/
theorem goes_on {rebinds : List Rebind} (hvalid : (terms.position s).Valid)
    (h : Position.proceed env ⟨(terms.position s).rollout, .next rebinds⟩ = .ok q) :
    (s.period + 1 = terms.schedule.periodCount ∧ q.tree = terms.tree none) ∨
      s.period + 1 < terms.schedule.periodCount ∧ ∃ values,
        rebindValues env (terms.position s).rollout.frame rebinds = .ok values ∧
        q = ⟨(terms.position s).rollout.advance values, terms.body⟩ := by
  have hcurrent := lt_periodCount hvalid
  obtain ⟨hnone, rfl⟩ | ⟨hsome, hvalues⟩ := Position.proceed_next_eq_ok rfl h
  · refine .inl ⟨?_, Position.tree_zero _⟩
    have hlast := mt Schedule.isSome_period?_iff_lt.mpr (Option.not_isSome_iff_eq_none.mpr hnone)
    dsimp only [position, rolloutAt] at hlast
    omega
  · exact .inr ⟨Schedule.isSome_period?_iff_lt.mp hsome, hvalues⟩

/-- The client can always elect `exercise`. -/
theorem elect_exercise (terms : TarfTerms) (s : Standing) (h : s.exercised = false)
    (env : Environment) (day : Date) :
    (terms.position s).elect env terms.corp "exercise" day =
      .ok ([], terms.position { s with exercised := true }) := by
  obtain ⟨period, uses, cap, exercised⟩ := s
  cases h
  have hcorp : terms.corp.only.contains terms.corp = true := by
    simp [Party.only, OrderedSet.contains, OrderedSet.insert, OrderedSet.insertMember,
      OrderedSet.empty]
  exact Position.elect_eq_ok.mpr ⟨_, rfl, hcorp, rfl, Position.proceed_actions _ _⟩

/-- With new values for both variables the next period is reached in these. -/
theorem position_advance (terms : TarfTerms) (s : Standing) (uses cap : Decimal) :
    ⟨(terms.position s).rollout.advance [("uses", uses), ("cap", cap)], terms.body⟩ =
      terms.position ⟨s.period + 1, uses, cap, false⟩ := by
  have hvars := insertAll_counters s.uses s.cap uses cap
  simp only [position, rolloutAt, Rollout.advance, List.map_cons, List.map_nil, hvars]
  rfl

/-- What is elected before an exercise, an action of `terms.body`. -/
theorem step_of_body (hvalid : (terms.position s).Valid) (hexercised : s.exercised = false)
    {action : Action Arrangement} (hmem : action ∈ terms.body.choices)
    (hpayments : paymentsIn env (terms.position s).rollout.frame action.effects = .ok payments)
    (hproceed : Position.proceed env ⟨(terms.position s).rollout, action.continuation⟩ = .ok q) :
    ∃ turn next, terms.Step s action.label payments turn next ∧ terms.LeadsTo s next q := by
  rcases List.mem_cons.mp hmem with rfl | hmem
  · cases hpayments
    rw [settlement, Position.proceed_actions] at hproceed
    cases hproceed
    exact ⟨none, _, .exercise hexercised, rfl, fun s' hs' => by cases hs'; rfl,
      fun s' hs' => by cases hs'; exact .inl ⟨Nat.le_refl _, rfl⟩⟩
  · cases List.mem_singleton.mp hmem
    cases hpayments
    obtain ⟨hlast, htree⟩ | ⟨hnext, _, ⟨⟩, rfl⟩ := goes_on hvalid hproceed
    · exact ⟨_, none, .skipLast hexercised hlast, htree, nofun, nofun⟩
    · exact ⟨_, _, .skip hexercised hnext, rfl, fun s' hs' => by cases hs'; rfl,
        fun s' hs' => by cases hs'; exact .inl ⟨Nat.le_succ _, rfl⟩⟩

/-- What is elected after it, an action of `terms.settlement`. -/
theorem step_of_settlement (hvalid : (terms.position s).Valid)
    (hexercised : s.exercised = true) {action : Action Arrangement}
    (hmem : action ∈ terms.settlement.choices)
    (hpayments : paymentsIn env (terms.position s).rollout.frame action.effects = .ok payments)
    (hproceed : Position.proceed env ⟨(terms.position s).rollout, action.continuation⟩ = .ok q) :
    ∃ turn next, (0 ≤ s.cap.toRat → terms.Step s action.label payments turn next) ∧
      terms.LeadsTo s next q := by
  cases List.mem_singleton.mp hmem
  obtain ⟨p, hp, hrest⟩ := bind_eq_ok.mp hpayments
  obtain ⟨_, ⟨⟩, ⟨⟩⟩ := bind_eq_ok.mp hrest
  have hpermits (hcap : 0 ≤ s.cap.toRat) : s.Permits p := permits_payout rfl hcap hp
  obtain ⟨hlast, htree⟩ | ⟨hnext, values, hvalues, rfl⟩ := goes_on hvalid hproceed
  · exact ⟨_, none, fun hcap => .settleLast hexercised (hpermits hcap) hlast, htree, nofun, nofun⟩
  · -- the rebind values the payout again, where it has the same value
    obtain ⟨uses, cap, huses, hcap', rfl⟩ := rebindValues_settlement (s := s) rfl hp hvalues
    have hposition := terms.position_advance s uses cap
    exact ⟨_, _, fun hcap => .settle hexercised (hpermits hcap) hnext huses hcap',
      congrArg Position.tree hposition, fun s' hs' => by cases hs'; exact hposition,
      fun s' hs' => by cases hs'; exact .inr ⟨rfl, huses⟩⟩

/-- Where an election leads, and that it is a step if the cap is not negative. -/
theorem leadsTo_of_elect (hvalid : (terms.position s).Valid)
    (h : (terms.position s).elect env actor label day = .ok (payments, q)) :
    ∃ turn next, (0 ≤ s.cap.toRat → terms.Step s label payments turn next) ∧
      terms.LeadsTo s next q := by
  obtain ⟨action, hopen, -, hpayments, hproceed⟩ := Position.elect_eq_ok.mp h
  obtain ⟨hmem, rfl⟩ := Position.of_open?_eq_some hopen
  cases hexercised : s.exercised with
  | true =>
    have hnode : (terms.position s).node = terms.settlement := by simp [position, hexercised]
    exact step_of_settlement hvalid hexercised (hnode ▸ hmem) hpayments hproceed
  | false =>
    have hnode : (terms.position s).node = terms.body := by simp [position, hexercised]
    obtain ⟨turn, next, hstep, hleads⟩ :=
      step_of_body hvalid hexercised (hnode ▸ hmem) hpayments hproceed
    exact ⟨turn, next, fun _ => hstep, hleads⟩

/-- **An election is a step**, and leads to where the step leads: `StepsTo`. -/
theorem step_of_elect (hvalid : (terms.position s).Valid) (hcap : 0 ≤ s.cap.toRat)
    (h : (terms.position s).elect env actor label day = .ok (payments, q)) :
    terms.StepsTo s label payments q := by
  obtain ⟨turn, next, hstep, hleads⟩ := leadsTo_of_elect hvalid h
  exact ⟨turn, next, hstep hcap, hleads.tree_eq, hleads.position_eq⟩

end

/-! ### What a step keeps -/

section

/-- The period that a standing is in; past the last one if the forward is over. -/
def reached (terms : TarfTerms) : Option Standing → Nat
  | some s => s.period
  | none => terms.schedule.periodCount

/-- The number of turns that were settled. -/
def settlements (turns : List Turn) : Nat := turns.countP fun turn => turn.paid.isSome

/-- The number of payments that are not zero. -/
def nonzero (payments : List Payment) : Nat := payments.countP fun p => !p.amount.isZero

variable {terms} {s : Standing} {label : String} {payments : List Payment} {turn : Option Turn}
  {next : Option Standing}

theorem nonzero_append (payments payments' : List Payment) :
    nonzero (payments ++ payments') = nonzero payments + nonzero payments' := List.countP_append

theorem settlements_append (turns turns' : List Turn) :
    settlements (turns ++ turns') = settlements turns + settlements turns' := List.countP_append

/-- A step pays nothing and keeps the cap, or it is a settlement that pays something permitted, and
the cap becomes the difference. -/
theorem Step.pays (h : terms.Step s label payments turn next) :
    (payments = [] ∧ ∀ s' ∈ next, s'.cap = s.cap) ∨
      ∃ p, s.Permits p ∧ payments = [⟨terms.bank, terms.corp, p, terms.quoted⟩] ∧
        turn = some ⟨s.period, some p⟩ ∧ ∀ s' ∈ next, s.cap.sub p = some s'.cap := by
  cases h with
  | exercise => exact .inl ⟨rfl, by rintro _ ⟨⟩; rfl⟩
  | skip => exact .inl ⟨rfl, by rintro _ ⟨⟩; rfl⟩
  | skipLast => exact .inl ⟨rfl, nofun⟩
  | settle _ hpermits _ _ hrest =>
    exact .inr ⟨_, hpermits, rfl, rfl, by rintro _ ⟨⟩; exact hrest⟩
  | settleLast _ hpermits => exact .inr ⟨_, hpermits, rfl, rfl, nofun⟩

theorem Step.cap_nonneg (h : terms.Step s label payments turn next) (hcap : 0 ≤ s.cap.toRat) :
    ∀ s' ∈ next, 0 ≤ s'.cap.toRat := by
  intro s' hs'
  obtain ⟨-, hkeeps⟩ | ⟨p, hpermits, -, -, hrest⟩ := h.pays
  · rwa [hkeeps s' hs']
  · exact Decimal.toRat_nonneg_of_sub (hrest s' hs') hpermits.le_cap

/-- A step completes `s.period` and goes on to the one after it, or stays in it. -/
theorem Step.map_period (h : terms.Step s label payments turn next) :
    List.range s.period ++ turn.toList.map Turn.period = List.range (terms.reached next) := by
  cases h with
  | exercise => exact List.append_nil _
  | skip => exact List.range_succ.symm
  | settle => exact List.range_succ.symm
  | skipLast _ hlast => exact List.range_succ.symm.trans (congrArg List.range hlast)
  | settleLast _ _ hlast => exact List.range_succ.symm.trans (congrArg List.range hlast)

/-- One use less is as many as one expects, if there are not too many. -/
theorem toRat_sub_one {uses : Decimal} {k : Int} (hk : uses.toRat = k) (hlt : k < UInt32.size)
    (hge : -(Schedule.span : Int) ≤ k) :
    (uses.sub .one).map Decimal.toRat = some ((k - 1 : Int) : ℚ) := by
  have hdecimal : (k - 1).natAbs < Decimal.limit := by
    unfold Schedule.span at hge
    unfold UInt32.size at hlt
    unfold Decimal.limit
    omega
  have hone : uses.toRat - Decimal.one.toRat = (k - 1 : Int) := by
    rw [hk, Decimal.toRat_one, Int.cast_sub, Int.cast_one]
  rw [Decimal.sub_exact (hone ▸ Decimal.isDecimal_intCast hdecimal), hone]

/-- A settlement takes one use, and nothing else does. -/
theorem Step.uses_eq {k : Int} (h : terms.Step s label payments turn next)
    (hk : s.uses.toRat = k) (hlt : k < UInt32.size) (hge : -(s.period : Int) ≤ k) :
    ∀ s' ∈ next, s'.uses.toRat = (k - settlements turn.toList : Int) := by
  have hsame : s.uses.toRat = (k - (0 : Nat) : Int) := by simpa using hk
  cases h with
  | exercise => rintro _ ⟨⟩; exact hsame
  | skip => rintro _ ⟨⟩; exact hsame
  | settle _ _ hnext huses =>
    rintro _ ⟨⟩
    have hspan := terms.schedule.periodCount_le_span
    have hless := toRat_sub_one hk hlt (by omega)
    rw [huses, Option.map_some] at hless
    exact Option.some.inj hless
  | skipLast => exact nofun
  | settleLast => exact nofun

/-- Without uses nothing but zero is permitted. -/
theorem Standing.Permits.uses_pos {p : Decimal} (h : s.Permits p) (hp : p.isZero = false) :
    0 < s.uses.toRat := by
  by_contra hnone
  rw [h.eq_zero (not_lt.mp hnone)] at hp
  cases hp

/-- Only a settlement pays, once, and something other than zero only as long as uses are left. -/
theorem Step.nonzero_eq (h : terms.Step s label payments turn next) :
    nonzero payments = 0 ∨
      nonzero payments = 1 ∧ settlements turn.toList = 1 ∧ 0 < s.uses.toRat := by
  obtain ⟨rfl, -⟩ | ⟨p, hpermits, rfl, rfl, -⟩ := h.pays
  · exact .inl rfl
  · cases hp : p.isZero with
    | true => exact .inl (by simp [nonzero, hp])
    | false => exact .inr ⟨by simp [nonzero, hp], rfl, hpermits.uses_pos hp⟩

end

/-! ### Courses -/

section

variable {terms} {made : List Election} {turns : List Turn} {next : Option Standing}

theorem valid_first {t : Arrangement} (h : terms.build = .ok t) :
    (terms.position terms.first).Valid ∧ (terms.position terms.first).tree = t :=
  Position.valid_start h

/-- Something can still be elected as long as the forward stands somewhere. -/
theorem tree_ne_zero {s : Standing} (h : (terms.position s).Valid) :
    terms.tree (some s) ≠ .zero := by
  intro hzero
  have hnode : (terms.position s).tree.isZero = true := congrArg Arrangement.isZero hzero
  rw [h.isZero_tree] at hnode
  unfold position at hnode
  cases hexercised : s.exercised <;> rw [hexercised] at hnode <;> cases hnode

namespace Course

/-- What is left of the target, `s.cap`, is never negative. -/
theorem cap_nonneg (h : terms.Course made turns next) (htarget : 0 ≤ terms.target.toRat) :
    ∀ s ∈ next, 0 ≤ s.cap.toRat := by
  induction h with
  | start => rintro _ ⟨⟩; exact htarget
  | step _ hstep _ ih => exact hstep.cap_nonneg (ih _ rfl)

/-- The periods so far, up to `reached next`, are done with once each, in order. -/
theorem map_period (h : terms.Course made turns next) :
    turns.map Turn.period = List.range (terms.reached next) := by
  induction h with
  | start => rfl
  | step _ hstep _ ih => rw [List.map_append, ih]; exact hstep.map_period

theorem length_turns (h : terms.Course made turns next) : turns.length = terms.reached next := by
  rw [← List.length_map Turn.period, h.map_period, List.length_range]

/-- The uses left are `terms.uses` less one for each settlement. -/
theorem uses_eq (h : terms.Course made turns next) :
    ∀ s ∈ next, s.uses.toRat = (terms.uses.toNat - settlements turns : Int) := by
  induction h with
  | start =>
    rintro _ ⟨⟩
    exact (Decimal.toRat_ofNat _).trans (by simp [settlements])
  | @step made turns s e turn next hcourse hstep _ ih =>
    have hlength : turns.length = s.period := hcourse.length_turns
    have hsettled : settlements turns ≤ turns.length := List.countP_le_length
    have huses := terms.uses.toNat_lt
    intro s' hs'
    have hnext := hstep.uses_eq (ih s rfl) (by unfold UInt32.size; omega) (by omega) s' hs'
    rw [hnext, settlements_append, Nat.cast_add, sub_sub]

/-- No more settlements pay than there are, nor than `terms.uses`. -/
theorem nonzero_le (h : terms.Course made turns next) :
    nonzero (made.flatMap Election.payments) ≤ settlements turns ∧
      nonzero (made.flatMap Election.payments) ≤ terms.uses.toNat := by
  induction h with
  | start => exact ⟨Nat.zero_le _, Nat.zero_le _⟩
  | @step made turns s e turn next hcourse hstep _ ih =>
    rw [List.flatMap_append, List.flatMap_singleton, nonzero_append, settlements_append]
    obtain hzero | ⟨hone, hsettled, hpos⟩ := hstep.nonzero_eq
    · omega
    · rw [hcourse.uses_eq s rfl] at hpos
      have hleft : 0 < (terms.uses.toNat - settlements turns : Int) := by exact_mod_cast hpos
      omega

end Course

/-- **A run is a course**, and leads to `terms.tree` of where the course does. -/
theorem exists_course {t a : Arrangement} (htarget : 0 ≤ terms.target.toRat)
    (hbuild : terms.build = .ok t) (hrun : Run t made a) :
    ∃ turns next, terms.Course made turns next ∧ a = terms.tree next ∧
      ∀ s ∈ next, (terms.position s).Valid := by
  induction hrun with
  | start =>
    obtain ⟨hvalid, htree⟩ := valid_first hbuild
    exact ⟨[], _, .start, htree.symm, fun s hs => by cases hs; exact hvalid⟩
  | elect _ helect ih =>
    obtain ⟨turns, _ | s, hcourse, rfl, hvalid⟩ := ih
    · -- nothing can be elected once the forward is over
      cases helect
    · have hs := hvalid s rfl
      have hcap := hcourse.cap_nonneg htarget s rfl
      obtain ⟨payments, q, hq, rfl⟩ := hs.elect_tree_eq_ok.mp helect
      obtain ⟨turn, next, hstep, htree, hposition⟩ := step_of_elect hs hcap hq
      refine ⟨_, next, .step hcourse hstep htree, htree, fun s' hs' => ?_⟩
      rw [← hposition s' hs']
      exact hs.valid_elect hq

/-- **A forward takes its periods one by one.** If `terms.target` is not negative, every `Run` of
the contract that `terms.build` has is a `Course`, whatever the market is at each of its elections,
and leads to `terms.tree next`: each election is a `Step`, in which a settlement pays once, between
nothing and the cap of its period, and the next cap is the difference from what was paid. The cap is
never negative, the uses go down with the `settlements`, no more payments than `terms.uses` are
`nonzero`, and the turns are the periods up to `reached next` in order, each once; when nothing is
left these are all periods of the schedule. -/
theorem runs_take_turns (terms : TarfTerms) {t a : Arrangement} {made : List Election}
    (htarget : 0 ≤ terms.target.toRat) (hbuild : terms.build = .ok t) (hrun : Run t made a) :
    ∃ turns next, terms.Course made turns next ∧ a = terms.tree next ∧
      (∀ s ∈ next, 0 ≤ s.cap.toRat ∧ s.period < terms.schedule.periodCount ∧
        s.uses.toRat = (terms.uses.toNat - settlements turns : Int)) ∧
      turns.map Turn.period = List.range (terms.reached next) ∧
      (a = .zero → turns.map Turn.period = terms.schedule.periods.map Period.index) ∧
      nonzero (made.flatMap Election.payments) ≤ terms.uses.toNat := by
  obtain ⟨turns, next, hcourse, rfl, hvalid⟩ := exists_course htarget hbuild hrun
  refine ⟨turns, next, hcourse, rfl, fun s hs => ⟨hcourse.cap_nonneg htarget s hs,
    lt_periodCount (hvalid s hs), hcourse.uses_eq s hs⟩, hcourse.map_period, fun hzero => ?_,
    hcourse.nonzero_le.2⟩
  cases next with
  | none => rw [hcourse.map_period, Schedule.map_index_periods, reached]
  | some s => exact absurd hzero (tree_ne_zero (hvalid s rfl))

end

/-! ### A run -/

/-- For two months there are four uses, and the target is 10. -/
def tenAtMost : TarfTerms :=
  { standard with
    finish := .literal 2015 3 1
    frequency := .monthly
    strike := .zero
    notional := .one
    target := .literal 10 0 }

/-- A rate that is a little more than 1 after the first month, in 28 places, and 20 after the
second. -/
def twoRates : Environment where
  bindings := .empty
  market := .ofList [
    (.spot .eur .usd (.literal 2015 2 1), .literal 10000000000000000000000000005 28),
    (.spot .eur .usd (.literal 2015 3 1), .literal 20 0)]

/-- What is left of 10 after the first month, with 27 places: there is no room for the 28th. -/
def nineLeft : Standing :=
  ⟨1, .literal 3 0, .literal 9000000000000000000000000000 27, false⟩

/-- The rate is paid after the first month, and `nineLeft` after the second. -/
def twoPayments : List Election :=
  [⟨"exercise", ⟨"acmeCorp"⟩, .literal 2015 1 1, [],
      tenAtMost.tree (some { tenAtMost.first with exercised := true })⟩,
    ⟨"proceed", ⟨"highStreetBank"⟩, .literal 2015 2 2,
      [⟨⟨"highStreetBank"⟩, ⟨"acmeCorp"⟩, .literal 10000000000000000000000000005 28, .usd⟩],
      tenAtMost.tree (some nineLeft)⟩,
    ⟨"exercise", ⟨"acmeCorp"⟩, .literal 2015 2 2, [],
      tenAtMost.tree (some { nineLeft with exercised := true })⟩,
    ⟨"proceed", ⟨"highStreetBank"⟩, .literal 2015 3 2,
      [⟨⟨"highStreetBank"⟩, ⟨"acmeCorp"⟩, .literal 9000000000000000000000000000 27, .usd⟩],
      .zero⟩]

theorem elect_firstMonth :
    (tenAtMost.position { tenAtMost.first with exercised := true }).elect twoRates
        ⟨"highStreetBank"⟩ "proceed" (.literal 2015 2 2) =
      .ok ([⟨⟨"highStreetBank"⟩, ⟨"acmeCorp"⟩, .literal 10000000000000000000000000005 28, .usd⟩],
        tenAtMost.position nineLeft) := by
  refine Position.elect_eq_ok.mpr ⟨_, rfl, by decide, by decide +kernel, ?_⟩
  have hnext : tenAtMost.schedule.period? 1 =
      some ⟨1, .literal 2015 2 1, .literal 2015 3 1⟩ := rfl
  have hvalues : rebindValues twoRates (tenAtMost.position tenAtMost.first).rollout.frame
      [⟨"uses", .binary .sub (.state "uses") (.const .one)⟩,
        ⟨"cap", .binary .sub (.state "cap") tenAtMost.payout⟩] =
      .ok [("uses", nineLeft.uses), ("cap", nineLeft.cap)] := by decide +kernel
  refine (Position.proceed_next _ hnext).trans ((congrArg (· >>= _) hvalues).trans ?_)
  exact (Position.proceed_actions _ _).trans
    (congrArg _ (tenAtMost.position_advance tenAtMost.first _ _))

theorem elect_secondMonth :
    (tenAtMost.position { nineLeft with exercised := true }).elect twoRates
        ⟨"highStreetBank"⟩ "proceed" (.literal 2015 3 2) =
      .ok ([⟨⟨"highStreetBank"⟩, ⟨"acmeCorp"⟩, .literal 9000000000000000000000000000 27, .usd⟩],
        ⟨(tenAtMost.position nineLeft).rollout, .zero⟩) := by
  refine Position.elect_eq_ok.mpr ⟨_, rfl, by decide, by decide +kernel, ?_⟩
  exact Position.proceed_next_of_last _ rfl

theorem run_tenAtMost : ∃ t, tenAtMost.build = .ok t ∧ Run t twoPayments .zero := by
  have hbuild : tenAtMost.build = .ok (tenAtMost.tree (some tenAtMost.first)) := rfl
  have hfirst := (valid_first hbuild).1
  have helect₁ := tenAtMost.elect_exercise tenAtMost.first rfl twoRates (.literal 2015 1 1)
  have hexercised := hfirst.valid_elect helect₁
  have hsecond := hexercised.valid_elect elect_firstMonth
  have helect₂ := tenAtMost.elect_exercise nineLeft rfl twoRates (.literal 2015 2 2)
  have hexercised' := hsecond.valid_elect helect₂
  have hrun := Run.elect (Run.elect (Run.elect (Run.elect .start
    (hfirst.elect_tree_eq_ok.mpr ⟨_, _, helect₁, rfl⟩))
    (hexercised.elect_tree_eq_ok.mpr ⟨_, _, elect_firstMonth, rfl⟩))
    (hsecond.elect_tree_eq_ok.mpr ⟨_, _, helect₂, rfl⟩))
    (hexercised'.elect_tree_eq_ok.mpr ⟨_, _, elect_secondMonth, rfl⟩)
  rw [Position.tree_zero] at hrun
  exact ⟨_, hbuild, hrun⟩

theorem toRat_target_tenAtMost : tenAtMost.target.toRat = 10 :=
  (Decimal.toRat_literal _).trans (by norm_num [Decimal.tenTo])

theorem target_tenAtMost_nonneg : 0 ≤ tenAtMost.target.toRat := by
  rw [toRat_target_tenAtMost]
  norm_num

theorem tenAtMost_takes_turns : ∃ t turns next, tenAtMost.build = .ok t ∧
    Run t twoPayments .zero ∧ tenAtMost.Course twoPayments turns next ∧
    turns.map Turn.period = [0, 1] ∧ nonzero (twoPayments.flatMap Election.payments) = 2 := by
  obtain ⟨t, hbuild, hrun⟩ := run_tenAtMost
  obtain ⟨turns, next, hcourse, -, -, -, hturns, -⟩ :=
    tenAtMost.runs_take_turns target_tenAtMost_nonneg hbuild hrun
  exact ⟨t, turns, next, hbuild, hrun, hcourse, hturns rfl, by decide⟩

end TarfTerms
end Covenant
