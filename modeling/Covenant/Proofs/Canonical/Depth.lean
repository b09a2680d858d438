/-
# How deep contracts nest

How many arrays and objects stand inside one another in the JSON of a contract
and its parts, `a.toJson.depth`. Signs of zeros do not matter. A tree for one
period of a rollout carries the rollout along wherever its text says `next`, so
it may nest as deep as the text and the rollout together.

Key theorems: `Amount.depth_bind_le`, `Arrangement.depth_toJson_normal`,
`Arrangement.depth_bind_le`.
-/
import Covenant.Proofs.Canonical.Arrangement

namespace Covenant

/-! ### Documents -/

namespace Json

@[simp] theorem depth_string (s : String) : (string s).depth = 0 := rfl

@[simp] theorem depth_ofNat (n : Nat) : (ofNat n).depth = 0 := rfl

@[simp] theorem depth_array (items : List Json) : (array items).depth = itemsDepth items + 1 := rfl

@[simp] theorem depth_object (members : List (String × Json)) :
    (object members).depth = membersDepth members + 1 := rfl

@[simp] theorem itemsDepth_nil : itemsDepth [] = 0 := rfl

@[simp] theorem itemsDepth_cons (item : Json) (items : List Json) :
    itemsDepth (item :: items) = max item.depth (itemsDepth items) := rfl

@[simp] theorem membersDepth_nil : membersDepth [] = 0 := rfl

@[simp] theorem membersDepth_cons (key : String) (value : Json) (members : List (String × Json)) :
    membersDepth ((key, value) :: members) = max value.depth (membersDepth members) := rfl

@[simp] theorem depth_tagged (tag : String) (x : Json) : (tagged tag x).depth = x.depth + 1 := by
  simp [tagged]

variable {α : Type} {f g : α → Json} {xs : List α}

theorem itemsDepth_map_le_iff {n : Nat} : ∀ {xs : List α},
    itemsDepth (xs.map f) ≤ n ↔ ∀ x ∈ xs, (f x).depth ≤ n
  | [] => by simp
  | x :: xs => by
    rw [List.map_cons, itemsDepth_cons, Nat.max_le, itemsDepth_map_le_iff, List.forall_mem_cons]

theorem depth_le_itemsDepth_map {x : α} (h : x ∈ xs) : (f x).depth ≤ itemsDepth (xs.map f) :=
  itemsDepth_map_le_iff.mp (Nat.le_refl _) x h

/-- What nests at most `extra` deeper item by item does so as a list. -/
theorem itemsDepth_map_le {extra : Nat} (h : ∀ x ∈ xs, (f x).depth ≤ (g x).depth + extra) :
    itemsDepth (xs.map f) ≤ itemsDepth (xs.map g) + extra := by
  refine itemsDepth_map_le_iff.mpr fun x hx => ?_
  have hg : (g x).depth ≤ itemsDepth (xs.map g) := depth_le_itemsDepth_map hx
  have hfg := h x hx
  omega

theorem itemsDepth_map_congr (h : ∀ x ∈ xs, (f x).depth = (g x).depth) :
    itemsDepth (xs.map f) = itemsDepth (xs.map g) := by
  apply Nat.le_antisymm
  · exact @itemsDepth_map_le _ f g xs 0 fun x hx => Nat.le_of_eq (h x hx)
  · exact @itemsDepth_map_le _ g f xs 0 fun x hx => Nat.le_of_eq (h x hx).symm

theorem membersDepth_eq_itemsDepth : ∀ members : List (String × Json),
    membersDepth members = itemsDepth (members.map (·.2))
  | [] => rfl
  | (key, value) :: members => by
    rw [membersDepth_cons, membersDepth_eq_itemsDepth members, List.map_cons, itemsDepth_cons]

theorem depth_ofMap {ν : Type} (write : ν → Json) (m : OrderedMap String ν) :
    (ofMap write m).depth = itemsDepth (m.entries.map fun e => write e.2) + 1 := by
  rw [ofMap, depth_object, membersDepth_eq_itemsDepth, List.map_map]
  rfl

end Json

/-! ### Single values -/

@[simp] theorem Decimal.depth_toJson (d : Decimal) : d.toJson.depth = 0 := rfl

@[simp] theorem Party.depth_toJson (p : Party) : p.toJson.depth = 0 := rfl

@[simp] theorem Currency.depth_toJson (c : Currency) : c.toJson.depth = 0 := rfl

@[simp] theorem DayCount.depth_toJson (c : DayCount) : c.toJson.depth = 0 := rfl

@[simp] theorem Operator.depth_toJson (op : Operator) : op.toJson.depth = 0 := rfl

@[simp] theorem Relation.depth_toJson (relation : Relation) : relation.toJson.depth = 0 := rfl

@[simp] theorem Date.depth_toJson (d : Date) : d.toJson.depth = 0 := rfl

@[simp] theorem Frequency.depth_toJson (f : Frequency) : f.toJson.depth = 0 := rfl

@[simp] theorem PartySet.depth_toJson (s : PartySet) : (toJson s).depth = 1 := by
  have hmembers : Json.itemsDepth (s.members.map Party.toJson) ≤ 0 :=
    Json.itemsDepth_map_le_iff.mpr fun p _ => Nat.le_of_eq p.depth_toJson
  rw [toJson, Json.depth_array]
  omega

/-! ### Dates bound to a period

A date of a period is a word, a fixed date a choice that carries a value. -/

theorem ContractDate.depth_bind_le (start finish : Date) (d : ContractDate) :
    (d.bind start finish).toJson.depth ≤ d.toJson.depth + 1 := by
  cases d <;> simp [bind, toJson]

theorem Guard.depth_bind_le (start finish : Date) (g : Guard) :
    (g.bind start finish).toJson.depth ≤ g.toJson.depth + 1 := by
  cases g with
  | anytime => exact Nat.le_succ _
  | before date =>
    have hdate := date.depth_bind_le start finish
    simp only [bind, toJson, Json.depth_tagged]
    omega
  | after date =>
    have hdate := date.depth_bind_le start finish
    simp only [bind, toJson, Json.depth_tagged]
    omega

theorem Observable.depth_bind_le (start finish : Date) (o : Observable ContractDate) :
    ((o.bind start finish).toJson ContractDate.toJson).depth ≤
      (o.toJson ContractDate.toJson).depth + 1 := by
  cases o with
  | fixing index s f =>
    have hs := s.depth_bind_le start finish
    have hf := f.depth_bind_le start finish
    simp only [bind, map, toJson, Json.depth_tagged, Json.depth_object, Json.membersDepth_cons]
    omega
  | spot base quoted on =>
    have hon := on.depth_bind_le start finish
    simp only [bind, map, toJson, Json.depth_tagged, Json.depth_object, Json.membersDepth_cons]
    omega
  | quote name on =>
    have hon := on.depth_bind_le start finish
    simp only [bind, map, toJson, Json.depth_tagged, Json.depth_object, Json.membersDepth_cons]
    omega

/-! ### Amounts -/

namespace Amount

theorem depth_toJson_normal (a : Amount) : a.normal.toJson.depth = a.toJson.depth := by
  induction a <;> simp_all [normal, toJson]

/-- `a.bind start finish vars` nests deeper by no more than the values of variables that come into
it, or by a date. -/
theorem depth_bind_le (start finish : Date) {vars : OrderedMap String Amount} {n : Nat}
    (h : ∀ e ∈ vars.entries, e.2.toJson.depth ≤ n) (a : Amount) :
    (a.bind start finish vars).toJson.depth ≤ a.toJson.depth + (n + 1) := by
  induction a with
  | const value => exact Nat.le_add_right _ _
  | var name => exact Nat.le_add_right _ _
  | state name =>
    rw [bind]
    cases hvalue : vars.get? name with
    | none => exact Nat.le_add_right _ _
    | some value =>
      have hle : value.toJson.depth ≤ n := h _ (OrderedMap.mem_of_get?_eq_some hvalue)
      rw [Option.getD_some]
      omega
  | observe o =>
    have ho := o.depth_bind_le start finish
    simp only [bind, toJson, Json.depth_tagged]
    omega
  | binary op left right ihl ihr =>
    simp only [bind, toJson, Json.depth_tagged, Json.depth_array, Json.itemsDepth_cons]
    omega
  | neg x ih =>
    simp only [bind, toJson, Json.depth_tagged]
    omega
  | plus x ih =>
    simp only [bind, toJson, Json.depth_tagged]
    omega
  | interest principal rate c s f ihp ihr =>
    have hs := s.depth_bind_le start finish
    have hf := f.depth_bind_le start finish
    simp only [bind, toJson, Json.depth_tagged, Json.depth_object, Json.membersDepth_cons]
    omega
  | select relation left right whenTrue otherwise ihl ihr iht iho =>
    simp only [bind, toJson, Json.depth_tagged, Json.depth_object, Json.membersDepth_cons,
      Json.membersDepth_nil, Relation.depth_toJson, Nat.max_zero, Nat.zero_max]
    omega

end Amount

/-! ### Parts of a tree -/

namespace Rebind

@[simp] theorem depth_toJson (r : Rebind) : r.toJson.depth = r.value.toJson.depth + 1 := by
  simp [toJson]

theorem depth_toJson_normal (r : Rebind) : r.normal.toJson.depth = r.toJson.depth := by
  rw [depth_toJson, depth_toJson, normal, Amount.depth_toJson_normal]

end Rebind

namespace Obligation

@[simp] theorem depth_toJson (o : Obligation) : o.toJson.depth = o.amount.toJson.depth + 1 := by
  simp [toJson]

theorem depth_toJson_normal (o : Obligation) : o.normal.toJson.depth = o.toJson.depth := by
  rw [depth_toJson, depth_toJson, normal, Amount.depth_toJson_normal]

end Obligation

theorem depth_vars_normal (vars : OrderedMap String Amount) :
    (Json.ofMap Amount.toJson (vars.mapValues .normal)).depth =
      (Json.ofMap Amount.toJson vars).depth := by
  rw [Json.depth_ofMap, Json.depth_ofMap, OrderedMap.mapValues, List.map_map]
  congr 1
  exact Json.itemsDepth_map_congr fun e _ => e.2.depth_toJson_normal

theorem Schedule.depth_toJson (s : Schedule) :
    s.toJson.depth = (Json.ofMap Amount.toJson s.initial).depth + 1 := by
  simp [toJson]

namespace Arrangement

@[simp] theorem depth_actionToJson (action : Action Arrangement) : (actionToJson action).depth =
    max (max action.guard.toJson.depth 1)
      (max (Json.itemsDepth (action.effects.map Obligation.toJson) + 1)
        action.continuation.toJson.depth) + 1 := by
  simp only [actionToJson, actionJson, Json.depth_object, Json.membersDepth_cons,
    Json.depth_string, PartySet.depth_toJson, Json.depth_array, Json.membersDepth_nil]
  omega

theorem depth_rolloutToJson (r : Rollout Arrangement) : (rolloutToJson r).depth =
    max r.schedule.toJson.depth (max r.body.toJson.depth (Json.ofMap Amount.toJson r.vars).depth) +
      1 := by
  simp only [rolloutToJson, Json.depth_object, Json.membersDepth_cons, Json.depth_ofNat,
    Json.membersDepth_nil]
  omega

/-! ### Trees -/

@[simp] theorem depth_zero : zero.toJson.depth = 0 := rfl

@[simp] theorem depth_actions (choices : List (Action Arrangement)) :
    (actions choices).toJson.depth = Json.itemsDepth (choices.map actionToJson) + 2 := by
  rw [toJson, choicesJson_eq_map, Json.depth_tagged, Json.depth_array]

@[simp] theorem depth_next (rebinds : List Rebind) :
    (next rebinds).toJson.depth = Json.itemsDepth (rebinds.map Rebind.toJson) + 3 := by
  simp [toJson]

@[simp] theorem depth_resume (r : Rollout Arrangement) (rebinds : List Rebind) :
    (resume ⟨r, rebinds⟩).toJson.depth =
      max (rolloutToJson r).depth (Json.itemsDepth (rebinds.map Rebind.toJson) + 1) + 2 := by
  rw [toJson_resume]
  simp

/-- What follows an action stands three levels further down. -/
theorem depth_continuation_le {choices : List (Action Arrangement)} {action : Action Arrangement}
    (h : action ∈ choices) :
    action.continuation.toJson.depth + 3 ≤ (actions choices).toJson.depth := by
  have haction : (actionToJson action).depth ≤ Json.itemsDepth (choices.map actionToJson) :=
    Json.depth_le_itemsDepth_map h
  rw [depth_actionToJson] at haction
  rw [depth_actions]
  omega

theorem depth_toJson_normal (a : Arrangement) : a.normal.toJson.depth = a.toJson.depth := by
  induction a with
  | zero => rfl
  | actions choices ih =>
    rw [normal_actions, depth_actions, depth_actions, List.map_map]
    congr 1
    refine Json.itemsDepth_map_congr fun action haction => ?_
    have heffects : Json.itemsDepth (action.normal.effects.map Obligation.toJson) =
        Json.itemsDepth (action.effects.map Obligation.toJson) := by
      rw [Action.normal, List.map_map]
      exact Json.itemsDepth_map_congr fun o _ => o.depth_toJson_normal
    rw [Function.comp_apply, depth_actionToJson, depth_actionToJson, heffects, Action.normal,
      ih action haction]
  | next rebinds =>
    rw [normal, depth_next, depth_next, List.map_map]
    congr 1
    exact Json.itemsDepth_map_congr fun r _ => r.depth_toJson_normal
  | resume r rebinds ih =>
    have hrollout : (rolloutToJson r.normal).depth = (rolloutToJson r).depth := by
      rw [depth_rolloutToJson, depth_rolloutToJson, Schedule.depth_toJson, Schedule.depth_toJson,
        Rollout.normal, Schedule.normal, ih, depth_vars_normal, depth_vars_normal]
    have hrebinds : Json.itemsDepth ((rebinds.map Rebind.normal).map Rebind.toJson) =
        Json.itemsDepth (rebinds.map Rebind.toJson) := by
      rw [List.map_map]
      exact Json.itemsDepth_map_congr fun r _ => r.depth_toJson_normal
    rw [normal_resume, depth_resume, depth_resume, hrollout, hrebinds]

/-! ### Trees for one period -/

theorem depth_bindAction_le {r : Rollout Arrangement} {period : Period} {n extra : Nat}
    {action : Action Arrangement} (hvars : ∀ e ∈ r.vars.entries, e.2.toJson.depth ≤ n)
    (hn : n < extra) (hcontinuation : (action.continuation.bind r period).toJson.depth ≤
      action.continuation.toJson.depth + extra) :
    (actionToJson (bindAction r period action)).depth ≤ (actionToJson action).depth + extra := by
  have hguard := action.guard.depth_bind_le period.start period.finish
  have heffects : Json.itemsDepth ((action.effects.map
      (Obligation.bind period.start period.finish r.vars)).map Obligation.toJson) ≤
      Json.itemsDepth (action.effects.map Obligation.toJson) + extra := by
    rw [List.map_map]
    refine Json.itemsDepth_map_le fun o _ => ?_
    have hamount := o.amount.depth_bind_le period.start period.finish hvars
    rw [Function.comp_apply, Obligation.depth_toJson, Obligation.depth_toJson]
    dsimp only [Obligation.bind]
    omega
  rw [depth_actionToJson, depth_actionToJson, bindAction]
  dsimp only
  omega

/-- **A tree for one period**, `a.bind r period`, nests no deeper than `a` and `r` together. -/
theorem depth_bind_le (r : Rollout Arrangement) (period : Period) (a : Arrangement) :
    (a.bind r period).toJson.depth ≤ a.toJson.depth + (rolloutToJson r).depth := by
  have hvars : ∀ e ∈ r.vars.entries,
      e.2.toJson.depth ≤ Json.itemsDepth (r.vars.entries.map fun e => e.2.toJson) := fun e he =>
    Json.depth_le_itemsDepth_map (f := fun e => e.2.toJson) he
  have hrollout := depth_rolloutToJson r
  rw [Json.depth_ofMap] at hrollout
  induction a with
  | zero => exact Nat.zero_le _
  | actions choices ih =>
    have hchoices : Json.itemsDepth (choices.map (actionToJson ∘ bindAction r period)) ≤
        Json.itemsDepth (choices.map actionToJson) + (rolloutToJson r).depth :=
      Json.itemsDepth_map_le fun action haction =>
        depth_bindAction_le hvars (by omega) (ih action haction)
    rw [bind_actions, depth_actions, depth_actions, List.map_map]
    omega
  | next rebinds =>
    have hrebinds : Json.itemsDepth (rebinds.map
        (Rebind.toJson ∘ Rebind.bind period.start period.finish r.vars)) ≤
        Json.itemsDepth (rebinds.map Rebind.toJson) + (rolloutToJson r).depth := by
      refine Json.itemsDepth_map_le fun x _ => ?_
      have hvalue := x.value.depth_bind_le period.start period.finish hvars
      rw [Function.comp_apply, Rebind.depth_toJson, Rebind.depth_toJson]
      dsimp only [Rebind.bind]
      omega
    rw [bind, depth_next, depth_resume, List.map_map]
    omega
  | resume r' rebinds _ =>
    rw [bind]
    exact Nat.le_add_right _ _

end Arrangement
end Covenant
