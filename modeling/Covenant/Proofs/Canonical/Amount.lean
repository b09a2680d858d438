/-
# Amounts are read as they were stored

Every part of an amount is read as it was stored, up to the sign of zeros in it:
`decode` of `a.toJson` comes to `a.normal`.

Key theorems: `Amount.readsAs`, `Rebind.readsAs`.
-/
import Covenant.Canonical.Amount
import Covenant.Proofs.Amount.Normal
import Covenant.Proofs.Calendar.Text
import Covenant.Proofs.Canonical.Fields
import Covenant.Proofs.Decimal.Text

namespace Covenant

open Json (InRoom ReadsAs readsAs_string readsAs_tagged inRoom_record inRoom_tagged)

/-! ### Single values -/

theorem Decimal.readsAs (d : Decimal) : ReadsAs ofJson? d.toJson d.normal := by
  refine readsAs_string ?_
  rw [ofJson?, read_toText]
  rfl

theorem Date.readsAs (d : Date) : ReadsAs ofJson? d.toJson d :=
  readsAs_string d.readIso?_isoText

theorem Currency.readsAs (c : Currency) : ReadsAs ofJson? c.toJson c :=
  readsAs_string (by cases c <;> rfl)

theorem DayCount.readsAs (c : DayCount) : ReadsAs ofJson? c.toJson c :=
  readsAs_string (by cases c <;> rfl)

theorem Frequency.readsAs (f : Frequency) : ReadsAs ofJson? f.toJson f :=
  readsAs_string (by cases f <;> rfl)

theorem Operator.readsAs (op : Operator) : ReadsAs ofJson? op.toJson op :=
  readsAs_string (by cases op <;> rfl)

theorem Relation.readsAs (relation : Relation) : ReadsAs ofJson? relation.toJson relation :=
  readsAs_string (by cases relation <;> rfl)

theorem ContractDate.readsAs (d : ContractDate) : ReadsAs ofJson? d.toJson d := by
  cases d with
  | fixed date => exact readsAs_tagged rfl fun room => (date.readsAs room).map fixed
  | periodStart => exact readsAs_string rfl
  | periodEnd => exact readsAs_string rfl

theorem Guard.readsAs (g : Guard) : ReadsAs ofJson? g.toJson g := by
  cases g with
  | anytime => exact readsAs_string rfl
  | before date => exact readsAs_tagged rfl fun room => (date.readsAs room).map before
  | after date => exact readsAs_tagged rfl fun room => (date.readsAs room).map after

theorem Observable.readsAs (o : Observable ContractDate) :
    ReadsAs (ofJson? ContractDate.ofJson?) (o.toJson ContractDate.toJson) o := by
  cases o with
  | fixing index start finish =>
    refine readsAs_tagged rfl fun room => ?_
    refine inRoom_record (fun _ => rfl) fun room' _ => ?_
    exact (Json.readsAs_text index room').bind
      ((start.readsAs room').bind ((finish.readsAs room').bind (.pure _)))
  | spot base quoted on =>
    refine readsAs_tagged rfl fun room => ?_
    refine inRoom_record (fun _ => rfl) fun room' _ => ?_
    exact (base.readsAs room').bind <|
      (quoted.readsAs room').bind <| (on.readsAs room').bind (.pure _)
  | quote name on =>
    refine readsAs_tagged rfl fun room => ?_
    refine inRoom_record (fun _ => rfl) fun room' _ => ?_
    exact (Json.readsAs_text name room').bind ((on.readsAs room').bind (.pure _))

/-! ### Amounts -/

namespace Amount

/-- `a.toJson`, pruned to `room`, is decoded to `a.normal` if nothing of it was lost, and `bound` is
not below what is left of it. -/
theorem decode_inRoom (a : Amount) : ∀ room bound, (a.toJson.prune room).depth ≤ bound →
    InRoom room a.toJson.depth (decode bound (a.toJson.prune room)) a.normal := by
  have hunread : ∀ bound, decode bound .unread = none := fun bound => by cases bound <;> rfl
  induction a with
  | const value =>
    intro room bound hbound
    refine Json.inRoom_choice hunread hbound fun room bound _ => ?_
    exact (value.readsAs room).map const
  | var name =>
    intro room bound hbound
    refine Json.inRoom_choice hunread hbound fun room bound _ => ?_
    exact (Json.readsAs_text name room).map var
  | state name =>
    intro room bound hbound
    refine Json.inRoom_choice hunread hbound fun room bound _ => ?_
    exact (Json.readsAs_text name room).map state
  | observe o =>
    intro room bound hbound
    refine Json.inRoom_choice hunread hbound fun room bound _ => ?_
    exact (o.readsAs room).map observe
  | binary op left right ihl ihr =>
    intro room bound hbound
    refine Json.inRoom_choice hunread hbound fun room bound hbound => ?_
    refine Json.inRoom_tuple fun room' hroom => ?_
    subst hroom
    have hl := ihl room' bound (Nat.le_of_lt (Json.depth_prune_item hbound (by simp)))
    have hr := ihr room' bound (Nat.le_of_lt (Json.depth_prune_item hbound (by simp)))
    exact (op.readsAs room').bind (hl.bind (hr.bind (.pure _)))
  | neg x ih =>
    intro room bound hbound
    exact Json.inRoom_choice hunread hbound fun room bound hx => (ih room bound hx).map neg
  | plus x ih =>
    intro room bound hbound
    exact Json.inRoom_choice hunread hbound fun room bound hx => (ih room bound hx).map plus
  | interest principal rate c s f ihp ihr =>
    intro room bound hbound
    refine Json.inRoom_choice hunread hbound fun room bound hbound => ?_
    refine inRoom_record (fun _ => rfl) fun room' hroom => ?_
    subst hroom
    have hp := ihp room' bound (Nat.le_of_lt
      (Json.depth_prune_member (m := ("principal", _)) hbound (by simp)))
    have hr := ihr room' bound (Nat.le_of_lt
      (Json.depth_prune_member (m := ("rate", _)) hbound (by simp)))
    exact hp.bind (hr.bind ((c.readsAs room').bind
      ((s.readsAs room').bind ((f.readsAs room').bind (.pure _)))))
  | select relation left right whenTrue otherwise ihl ihr iht iho =>
    intro room bound hbound
    refine Json.inRoom_choice hunread hbound fun room bound hbound => ?_
    refine inRoom_record (fun _ => rfl) fun room' hroom => ?_
    subst hroom
    have hbound' := Nat.le_of_lt (Json.depth_prune_member hbound List.mem_cons_self)
    have ht := iht room' bound (Nat.le_of_lt
      (Json.depth_prune_member (m := ("then", _)) hbound (by simp)))
    have ho := iho room' bound (Nat.le_of_lt
      (Json.depth_prune_member (m := ("otherwise", _)) hbound (by simp)))
    -- the operands stand one level further down than the branches
    have hdepth : ∀ r l r' t o : Nat, max (max r (max l (max r' 0)) + 1) (max t (max o 0)) =
        max (r + 1) (max (l + 1) (max (r' + 1) (max t (max o 0)))) := by
      intro r l r' t o
      omega
    simp only [Json.membersDepth, Json.depth, hdepth]
    cases room' with
    | zero =>
      simp only [List.map_cons, Json.prune_object_zero]
      exact .symm (if_neg (by omega))
    | succ room =>
      have hl := ihl room bound (Nat.le_of_lt
        (Json.depth_prune_member (m := ("lhs", _)) hbound' (by simp)))
      have hr := ihr room bound (Nat.le_of_lt
        (Json.depth_prune_member (m := ("rhs", _)) hbound' (by simp)))
      simp only [List.map_cons, Json.prune_object]
      exact (relation.readsAs room).succ.bind
        (hl.succ.bind (hr.succ.bind (ht.bind (ho.bind (.pure _)))))

theorem readsAs (a : Amount) : ReadsAs ofJson? a.toJson a.normal := fun room =>
  a.decode_inRoom room _ (Nat.le_refl _)

end Amount

theorem Rebind.readsAs (r : Rebind) : ReadsAs ofJson? r.toJson r.normal := fun _ =>
  inRoom_record (fun _ => rfl) fun room _ =>
    (Json.readsAs_text r.name room).bind ((r.value.readsAs room).bind (.pure _))

/-! ### What is written can be read -/

@[simp] theorem Decimal.plain_toJson (d : Decimal) : d.toJson.Plain := trivial

@[simp] theorem Date.plain_toJson (d : Date) : d.toJson.Plain := trivial

@[simp] theorem Currency.plain_toJson (c : Currency) : c.toJson.Plain := trivial

@[simp] theorem DayCount.plain_toJson (c : DayCount) : c.toJson.Plain := trivial

@[simp] theorem Frequency.plain_toJson (f : Frequency) : f.toJson.Plain := trivial

@[simp] theorem Operator.plain_toJson (op : Operator) : op.toJson.Plain := trivial

@[simp] theorem Relation.plain_toJson (relation : Relation) : relation.toJson.Plain := trivial

@[simp] theorem ContractDate.plain_toJson (d : ContractDate) : d.toJson.Plain := by
  cases d <;> simp [toJson]

@[simp] theorem Guard.plain_toJson (g : Guard) : g.toJson.Plain := by
  cases g <;> simp [toJson]

@[simp] theorem Observable.plain_toJson (o : Observable ContractDate) :
    (o.toJson ContractDate.toJson).Plain := by
  cases o <;> simp [toJson]

@[simp] theorem Amount.plain_toJson (a : Amount) : a.toJson.Plain := by
  induction a <;> simp_all [toJson]

@[simp] theorem Rebind.plain_toJson (r : Rebind) : r.toJson.Plain := by
  simp [toJson]

end Covenant
