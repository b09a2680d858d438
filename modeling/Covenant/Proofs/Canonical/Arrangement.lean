/-
# Contracts are read as they were stored

A tree that passes the checks is read as it was stored, up to the sign of zeros
in it: `decode` of `a.toJson` comes to `a.normal`. The checks matter only to the
number of a period, which then has 64 bits.

Key theorems: `Arrangement.decode_inRoom`, `Arrangement.readsAs`,
`Arrangement.decode_only`.
-/
import Covenant.Canonical.Arrangement
import Covenant.Proofs.Arrangement.Normal
import Covenant.Proofs.Canonical.Amount

namespace Covenant

open Json (InRoom Only ReadsAs readsAs_string readsAs_list readsAs_map inRoom_record only_choice
  only_list only_record)

/-! ### Numbers and parties -/

theorem Json.readsAs_ofNat {n : Nat} (h : n < UInt64.size) : ReadsAs natural? (ofNat n) n := by
  refine readsAs_number ?_
  simp [natural?, Numeral.natural?, Numeral.magnitude?, Numeral.ofNat, Digits.value_ofNat, h]

namespace Json

/-- A number of more than 64 bits is not read. -/
theorem only_ofNat (n room : Nat) : Only ((ofNat n).prune room).natural? n := by
  by_cases h : n < UInt64.size
  · exact (readsAs_ofNat h room).only
  · have hnone : (ofNat n).natural? = none := by
      simp [ofNat, natural?, Numeral.natural?, Numeral.magnitude?, Numeral.ofNat,
        Digits.value_ofNat, h]
    have hprune : (ofNat n).prune room = ofNat n := by rw [ofNat, prune]
    rw [hprune, hnone]
    exact .none n

end Json

theorem Party.readsAs (p : Party) : ReadsAs ofJson? p.toJson p := readsAs_string rfl

theorem PartySet.readsAs (s : PartySet) : ReadsAs ofJson? s.toJson s := by
  intro room
  have hmembers := @readsAs_list _ _ Party.ofJson? Party.toJson (fun p => p) s.members
    (fun p _ => p.readsAs) room
  have hset := hmembers.map OrderedSet.ofList
  rw [List.map_id', s.ofList_members] at hset
  exact hset

/-! ### Parts of a tree -/

theorem Obligation.readsAs (o : Obligation) : ReadsAs ofJson? o.toJson o.normal := fun _ =>
  inRoom_record (fun _ => rfl) fun room _ =>
    (o.payer.readsAs room).bind ((o.payee.readsAs room).bind
      ((o.amount.readsAs room).bind ((o.currency.readsAs room).bind (.pure _))))

theorem readsAs_vars (vars : OrderedMap String Amount) :
    ReadsAs (Json.map? Amount.ofJson?) (.ofMap Amount.toJson vars) (vars.mapValues .normal) :=
  readsAs_map fun e _ => e.2.readsAs

theorem readsAs_rebinds (rebinds : List Rebind) :
    ReadsAs (Json.list? Rebind.ofJson?) (.array (rebinds.map Rebind.toJson))
      (rebinds.map Rebind.normal) :=
  readsAs_list fun r _ => r.readsAs

theorem readsAs_effects (effects : List Obligation) :
    ReadsAs (Json.list? Obligation.ofJson?) (.array (effects.map Obligation.toJson))
      (effects.map Obligation.normal) :=
  readsAs_list fun o _ => o.readsAs

theorem Schedule.readsAs (s : Schedule) : ReadsAs ofJson? s.toJson s.normal := fun _ =>
  inRoom_record (fun _ => rfl) fun room _ =>
    (s.start.readsAs room).bind ((s.finish.readsAs room).bind
      ((s.frequency.readsAs room).bind ((readsAs_vars s.initial room).bind (.pure _))))

namespace Arrangement

/-- An action in JSON; `toJson` of a set of actions is the array of these. -/
def actionToJson (action : Action Arrangement) : Json :=
  actionJson action.label action.actors action.guard action.effects action.continuation.toJson

theorem choicesJson_eq_map : ∀ choices, choicesJson choices = choices.map actionToJson
  | [] => rfl
  | ⟨label, actors, guard, effects, continuation⟩ :: rest => by
    rw [choicesJson, choicesJson_eq_map rest, List.map_cons]
    rfl

/-- An action is read if its continuation is. -/
theorem decodeAction_inRoom {room : Nat} {read : Json → Option Arrangement}
    {action : Action Arrangement} (h : ∀ room', room = room' + 1 →
      InRoom room' action.continuation.toJson.depth (read (action.continuation.toJson.prune room'))
        action.continuation.normal) :
    InRoom room (actionToJson action).depth (decodeAction read ((actionToJson action).prune room))
      action.normal :=
  inRoom_record (fun _ => rfl) fun room' hroom =>
    (Json.readsAs_text action.label room').bind ((action.actors.readsAs room').bind
      ((action.guard.readsAs room').bind ((readsAs_effects action.effects room').bind
        ((h room' hroom).bind (.pure _)))))

/-- A rollout in JSON, as it stands in that of a `resume`. -/
def rolloutToJson (r : Rollout Arrangement) : Json :=
  .object [("schedule", r.schedule.toJson), ("body", r.body.toJson), ("period", .ofNat r.period),
    ("vars", .ofMap Amount.toJson r.vars)]

/-- A rollout is read if its body is and its period has 64 bits. -/
theorem decodeRollout_inRoom {room : Nat} {read : Json → Option Arrangement}
    {r : Rollout Arrangement} (hperiod : r.period < UInt64.size)
    (h : ∀ room', room = room' + 1 →
      InRoom room' r.body.toJson.depth (read (r.body.toJson.prune room')) r.body.normal) :
    InRoom room (rolloutToJson r).depth (decodeRollout read ((rolloutToJson r).prune room))
      r.normal :=
  inRoom_record (fun _ => rfl) fun room' hroom =>
    (r.schedule.readsAs room').bind ((h room' hroom).bind
      ((Json.readsAs_ofNat hperiod room').bind ((readsAs_vars r.vars room').bind (.pure _))))

theorem toJson_resume (r : Rollout Arrangement) (rebinds : List Rebind) :
    (resume ⟨r, rebinds⟩).toJson = .tagged "Resume" (.object
      [("rollout", rolloutToJson r), ("rebinds", .array (rebinds.map Rebind.toJson))]) := by
  obtain ⟨schedule, body, period, vars⟩ := r
  rw [toJson]
  rfl

/-! ### Trees -/

theorem decode_unread : ∀ bound, decode bound .unread = none
  | 0 => rfl
  | _ + 1 => rfl

/-- **A tree that passes is read as it was stored**, as `a.normal`, if there is room for `a.toJson`
and the bound is not below what is left of it. -/
theorem decode_inRoom (a : Arrangement) : ∀ scope, a.check scope = .ok () → ∀ room bound,
    (a.toJson.prune room).depth ≤ bound →
    InRoom room a.toJson.depth (decode bound (a.toJson.prune room)) a.normal := by
  induction a with
  | zero =>
    intro scope _ room bound _
    rw [toJson, normal, Json.prune]
    cases bound <;> exact .pure zero
  | actions choices ih =>
    intro scope hcheck room bound hbound
    obtain ⟨-, hall⟩ := check_actions_eq_ok.mp hcheck
    rw [toJson, choicesJson_eq_map] at hbound ⊢
    rw [normal_actions]
    refine Json.inRoom_choice decode_unread hbound fun room bound hbound => ?_
    refine InRoom.map ?_ actions
    refine Json.inRoom_list fun action haction room' hroom => ?_
    subst hroom
    have haction' := Json.depth_prune_item hbound (List.mem_map_of_mem (f := actionToJson) haction)
    refine decodeAction_inRoom fun room'' hroom => ?_
    subst hroom
    have hcontinuation := Json.depth_prune_member
      (m := ("continuation", action.continuation.toJson)) (Nat.le_of_lt haction') (by simp)
    exact ih action haction scope (hall action haction).2 room'' bound (Nat.le_of_lt hcontinuation)
  | next rebinds =>
    intro scope _ room bound hbound
    rw [toJson] at hbound ⊢
    rw [normal]
    refine Json.inRoom_choice decode_unread hbound fun room bound _ => ?_
    exact inRoom_record (fun _ => rfl) fun room' _ => (readsAs_rebinds rebinds room').bind (.pure _)
  | resume r rebinds ih =>
    intro scope hcheck room bound hbound
    obtain ⟨hvalid, -⟩ := check_resume_eq_ok.mp hcheck
    obtain ⟨period, hperiod⟩ := Option.isSome_iff_exists.mp hvalid.period_isSome
    have hspan : r.period < UInt64.size :=
      Nat.lt_trans (Schedule.lt_of_period?_eq_some hperiod) (by decide)
    rw [toJson_resume] at hbound ⊢
    rw [normal_resume]
    refine Json.inRoom_choice decode_unread hbound fun room bound hbound => ?_
    refine inRoom_record (fun _ => rfl) fun room' hroom => ?_
    subst hroom
    have hrollout' := Json.depth_prune_member hbound List.mem_cons_self
    have hrollout := @decodeRollout_inRoom room' (decode bound) r hspan
      fun room'' hroom => by
        subst hroom
        have hbody := Json.depth_prune_member (m := ("body", r.body.toJson))
          (Nat.le_of_lt hrollout') (by simp)
        exact ih _ hvalid.body_ok room'' bound (Nat.le_of_lt hbody)
    exact hrollout.bind ((readsAs_rebinds rebinds room').bind (.pure _))

theorem readsAs {a : Arrangement} {scope : Scope} (h : a.check scope = .ok ()) :
    ReadsAs ofJson? a.toJson a.normal := fun room =>
  a.decode_inRoom scope h room _ (Nat.le_refl _)

/-! ### Trees that may be refused -/

theorem decodeAction_only {room : Nat} {read : Json → Option Arrangement}
    {action : Action Arrangement} (h : ∀ room', room = room' + 1 →
      Only (read (action.continuation.toJson.prune room')) action.continuation.normal) :
    Only (decodeAction read ((actionToJson action).prune room)) action.normal :=
  only_record (fun _ => rfl) fun room' hroom =>
    (Json.readsAs_text action.label room').only.bind ((action.actors.readsAs room').only.bind
      ((action.guard.readsAs room').only.bind ((readsAs_effects action.effects room').only.bind
        ((h room' hroom).bind (.pure _)))))

theorem decodeRollout_only {room : Nat} {read : Json → Option Arrangement}
    {r : Rollout Arrangement} (h : ∀ room', room = room' + 1 →
      Only (read (r.body.toJson.prune room')) r.body.normal) :
    Only (decodeRollout read ((rolloutToJson r).prune room)) r.normal :=
  only_record (fun _ => rfl) fun room' hroom =>
    (r.schedule.readsAs room').only.bind ((h room' hroom).bind
      ((Json.only_ofNat r.period room').bind ((readsAs_vars r.vars room').only.bind (.pure _))))

/-- **Whatever is read of a stored tree**, checked or not, is `a.normal`: the tree may be refused
for a period of more than 64 bits, but not read as another. -/
theorem decode_only (a : Arrangement) : ∀ room bound, (a.toJson.prune room).depth ≤ bound →
    Only (decode bound (a.toJson.prune room)) a.normal := by
  induction a with
  | zero =>
    intro room bound _
    rw [toJson, normal, Json.prune]
    cases bound <;> exact .pure zero
  | actions choices ih =>
    intro room bound hbound
    rw [toJson, choicesJson_eq_map] at hbound ⊢
    rw [normal_actions]
    refine only_choice decode_unread hbound fun room bound hbound => ?_
    refine Only.map ?_ actions
    refine only_list fun action haction room' hroom => ?_
    subst hroom
    have haction' := Json.depth_prune_item hbound (List.mem_map_of_mem (f := actionToJson) haction)
    refine decodeAction_only fun room'' hroom => ?_
    subst hroom
    have hcontinuation := Json.depth_prune_member
      (m := ("continuation", action.continuation.toJson)) (Nat.le_of_lt haction') (by simp)
    exact ih action haction room'' bound (Nat.le_of_lt hcontinuation)
  | next rebinds =>
    intro room bound hbound
    rw [toJson] at hbound ⊢
    rw [normal]
    refine only_choice decode_unread hbound fun room bound _ => ?_
    exact only_record (fun _ => rfl) fun room' _ =>
      (readsAs_rebinds rebinds room').only.bind (.pure _)
  | resume r rebinds ih =>
    intro room bound hbound
    rw [toJson_resume] at hbound ⊢
    rw [normal_resume]
    refine only_choice decode_unread hbound fun room bound hbound => ?_
    refine only_record (fun _ => rfl) fun room' hroom => ?_
    subst hroom
    have hrollout' := Json.depth_prune_member hbound List.mem_cons_self
    have hrollout := @decodeRollout_only room' (decode bound) r fun room'' hroom => by
      subst hroom
      have hbody := Json.depth_prune_member (m := ("body", r.body.toJson))
        (Nat.le_of_lt hrollout') (by simp)
      exact ih room'' bound (Nat.le_of_lt hbody)
    exact hrollout.bind ((readsAs_rebinds rebinds room').only.bind (.pure _))

theorem ofJson?_only (a : Arrangement) (room : Nat) :
    Only (ofJson? (a.toJson.prune room)) a.normal :=
  a.decode_only room _ (Nat.le_refl _)

end Arrangement

/-! ### What is written can be read -/

@[simp] theorem Party.plain_toJson (p : Party) : p.toJson.Plain := trivial

@[simp] theorem PartySet.plain_toJson (s : PartySet) : (toJson s).Plain :=
  Json.plain_list fun p _ => p.plain_toJson

@[simp] theorem Obligation.plain_toJson (o : Obligation) : o.toJson.Plain := by
  simp [toJson]

theorem plain_vars (vars : OrderedMap String Amount) : (Json.ofMap Amount.toJson vars).Plain :=
  Json.plain_ofMap Amount.plain_toJson

@[simp] theorem Schedule.plain_toJson (s : Schedule) : s.toJson.Plain := by
  simp [toJson, plain_vars]

namespace Arrangement

theorem plain_toJson (a : Arrangement) : a.toJson.Plain := by
  induction a with
  | zero => rw [toJson]; exact Json.plain_string _
  | actions choices ih =>
    rw [toJson, choicesJson_eq_map, Json.plain_tagged]
    refine Json.plain_list fun action haction => ?_
    simp [actionToJson, actionJson, ih action haction]
  | next rebinds =>
    rw [toJson]
    simp
  | resume r rebinds ih =>
    rw [toJson_resume]
    simp [rolloutToJson, ih, plain_vars]

end Arrangement
end Covenant
