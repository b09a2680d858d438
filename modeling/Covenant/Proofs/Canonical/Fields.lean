/-
# Parts of a document are read with enough room

A part of a document that was pruned to a room, `j.prune room`, is read if
nothing of it was lost, and then as it would be read whole; if anything was lost
it is not read at all. This holds of strings and numbers, and it passes from the
parts to records, lists, maps and choices.

Key definitions: `Json.InRoom`, `Json.ReadsAs`, `Json.Only`.
Key theorems: `Json.InRoom.bind`, `Json.ReadsAs.injective`,
`Json.inRoom_record`, `Json.inRoom_tagged`, `Json.inRoom_list`,
`Json.readsAs_map`.
-/
import Covenant.Canonical.Fields
import Covenant.Proofs.Json.Prune
import Covenant.Proofs.Ordered

namespace Covenant
namespace Json

variable {α β : Type}

/-- The result is `some a` if `depth ≤ room`, and `none` if not. -/
def InRoom (room depth : Nat) (result : Option α) (a : α) : Prop :=
  result = if depth ≤ room then some a else none

/-- Pruned to any room that it fits into, the value is read as `a`, and with no less it is not
read. -/
def ReadsAs (read : Json → Option α) (j : Json) (a : α) : Prop :=
  ∀ room, InRoom room j.depth (read (j.prune room)) a

namespace InRoom

variable {room depth depth' : Nat}

theorem pure (a : α) : InRoom room 0 (some a) a := (if_pos (Nat.zero_le room)).symm

theorem map {x : Option α} {a : α} (h : InRoom room depth x a) (f : α → β) :
    InRoom room depth (x.map f) (f a) := by
  unfold InRoom at h ⊢
  rw [h]
  split <;> rfl

theorem bind_some {x : Option α} {a : α} (h : InRoom room depth x a) (f : α → β) :
    InRoom room depth (x.bind fun y => some (f y)) (f a) := by
  unfold InRoom at h ⊢
  rw [h]
  split <;> rfl

/-- Both parts have to fit. -/
theorem bind {x : Option α} {f : α → Option β} {a : α} {b : β} (hx : InRoom room depth x a)
    (hf : InRoom room depth' (f a) b) : InRoom room (max depth depth') (x.bind f) b := by
  unfold InRoom at hx hf ⊢
  rw [hx]
  by_cases h : depth ≤ room
  · by_cases h' : depth' ≤ room
    · rw [if_pos h, if_pos (by omega), Option.bind_some, hf, if_pos h']
    · rw [if_pos h, if_neg (by omega), Option.bind_some, hf, if_neg h']
  · rw [if_neg h, if_neg (by omega)]
    rfl

/-- Nothing that nests fits into no room. -/
theorem zero {a : α} : InRoom 0 (depth + 1) none a := (if_neg (Nat.not_succ_le_zero depth)).symm

theorem succ {x : Option α} {a : α} (h : InRoom room depth x a) :
    InRoom (room + 1) (depth + 1) x a := by
  unfold InRoom at h ⊢
  simp only [h, Nat.add_le_add_iff_right]

end InRoom

namespace ReadsAs

/-- A value is read as one thing only. -/
theorem eq {read : Json → Option α} {j : Json} {a b : α} (ha : ReadsAs read j a)
    (hb : ReadsAs read j b) : a = b := by
  have hone : read (j.prune j.depth) = some a := (ha j.depth).trans (if_pos (Nat.le_refl _))
  have hother : read (j.prune j.depth) = some b := (hb j.depth).trans (if_pos (Nat.le_refl _))
  exact Option.some.inj (hone.symm.trans hother)

/-- What `read` reads again, `write` writes in one way only. -/
theorem injective {read : Json → Option α} {write : α → Json}
    (h : ∀ a, ReadsAs read (write a) a) : Function.Injective write := fun a b heq =>
  (h a).eq (heq ▸ h b)

end ReadsAs

/-! ### Single values -/

theorem readsAs_string {read : Json → Option α} {s : String} {a : α}
    (h : read (string s) = some a) : ReadsAs read (string s) a := by
  intro room
  rw [prune, h]
  exact .pure a

theorem readsAs_text (s : String) : ReadsAs string? (string s) s := readsAs_string rfl

theorem readsAs_number {read : Json → Option α} {n : Numeral} {a : α}
    (h : read (number n) = some a) : ReadsAs read (number n) a := by
  intro room
  rw [prune, h]
  exact .pure a

/-! ### Records and choices -/

/-- A record is read with `room + 1` if its fields are, in order, with `room`. -/
theorem inRoom_record {room : Nat} {names : List String} {members : List (String × Json)}
    {decode : List Json → Option α} {a : α}
    (hfields : ∀ room, fields? names (object (members.map fun m => (m.1, m.2.prune room))) =
      some (members.map fun m => m.2.prune room))
    (h : ∀ room', room = room' + 1 →
      InRoom room' (membersDepth members) (decode (members.map fun m => m.2.prune room')) a) :
    InRoom room (object members).depth ((((object members).prune room).fields? names).bind decode)
      a := by
  rw [depth]
  cases room with
  | zero =>
    rw [prune_object_zero]
    exact .zero
  | succ room =>
    rw [prune_object, hfields, Option.bind_some]
    exact (h room rfl).succ

/-- A choice is read with `room + 1` if its value is with `room`. -/
theorem inRoom_tagged {room : Nat} {read : Json → Option α} {tag : String} {x : Json} {a : α}
    (hunread : read unread = none)
    (h : ∀ room', room = room' + 1 →
      InRoom room' x.depth (read (tagged tag (x.prune room'))) a) :
    InRoom room (tagged tag x).depth (read ((tagged tag x).prune room)) a := by
  rw [tagged, depth, membersDepth, membersDepth, Nat.max_zero]
  cases room with
  | zero =>
    rw [prune_object_zero, hunread]
    exact .zero
  | succ room =>
    rw [prune_object]
    exact (h room rfl).succ

theorem readsAs_tagged {read : Json → Option α} {tag : String} {x : Json} {a : α}
    (hunread : read unread = none)
    (h : ∀ room, InRoom room x.depth (read (tagged tag (x.prune room))) a) :
    ReadsAs read (tagged tag x) a :=
  fun _ => inRoom_tagged hunread fun room' _ => h room'

/-- A choice is read by a reader that goes down with a bound, if its value is with one less. -/
theorem inRoom_choice {room bound : Nat} {decode : Nat → Json → Option α} {tag : String} {x : Json}
    {a : α} (hunread : ∀ bound, decode bound unread = none)
    (hbound : ((tagged tag x).prune room).depth ≤ bound)
    (h : ∀ room' bound', (x.prune room').depth ≤ bound' →
      InRoom room' x.depth (decode (bound' + 1) (tagged tag (x.prune room'))) a) :
    InRoom room (tagged tag x).depth (decode bound ((tagged tag x).prune room)) a := by
  refine inRoom_tagged (hunread bound) fun room' hroom => ?_
  subst hroom
  have hx : (x.prune room').depth < bound :=
    depth_prune_member (m := (tag, x)) hbound List.mem_cons_self
  cases bound with
  | zero => omega
  | succ bound => exact h room' bound (by omega)

/-- A tuple is read with `room + 1` if its items are, in order, with `room`. -/
theorem inRoom_tuple {room : Nat} {items : List Json} {decode : List Json → Option α} {a : α}
    (h : ∀ room', room = room' + 1 →
      InRoom room' (itemsDepth items) (decode (items.map (prune room'))) a) :
    InRoom room (array items).depth (((array items).prune room).items?.bind decode) a := by
  rw [depth]
  cases room with
  | zero =>
    rw [prune_array_zero]
    exact .zero
  | succ room =>
    rw [prune_array]
    exact (h room rfl).succ

/-! ### Lists and maps -/

/-- Items that are read with the room make a list that is read with it. -/
theorem inRoom_items {γ : Type} {room : Nat} {read : Json → Option β} {write : γ → Json}
    {value : γ → β} : ∀ {xs : List γ},
    (∀ x ∈ xs, InRoom room (write x).depth (read ((write x).prune room)) (value x)) →
    InRoom room (itemsDepth (xs.map write)) (((xs.map write).map (prune room)).mapM read)
      (xs.map value)
  | [], _ => by
    rw [List.map_nil, List.map_nil, List.mapM_nil, itemsDepth]
    exact .pure []
  | x :: xs, h => by
    have hrest := inRoom_items fun y hy => h y (List.mem_cons_of_mem _ hy)
    rw [List.map_cons, List.map_cons, List.mapM_cons, itemsDepth]
    exact (h x List.mem_cons_self).bind (hrest.bind_some fun ys => value x :: ys)

theorem inRoom_list {γ : Type} {room : Nat} {read : Json → Option β} {write : γ → Json}
    {value : γ → β} {xs : List γ}
    (h : ∀ x ∈ xs, ∀ room', room = room' + 1 →
      InRoom room' (write x).depth (read ((write x).prune room')) (value x)) :
    InRoom room (array (xs.map write)).depth (list? read ((array (xs.map write)).prune room))
      (xs.map value) := by
  rw [depth]
  cases room with
  | zero =>
    rw [prune_array_zero]
    exact .zero
  | succ room =>
    rw [prune_array]
    exact (inRoom_items fun x hx => h x hx room rfl).succ

/-- Values that `read` reads make an array that `list? read` does. -/
theorem readsAs_list {γ : Type} {read : Json → Option β} {write : γ → Json} {value : γ → β}
    {xs : List γ} (h : ∀ x ∈ xs, ReadsAs read (write x) (value x)) :
    ReadsAs (list? read) (array (xs.map write)) (xs.map value) :=
  fun _ => inRoom_list fun x hx room' _ => h x hx room'

theorem inRoom_members {ν ω : Type} {room : Nat} {read : Json → Option ω} {write : ν → Json}
    {value : ν → ω} : ∀ {entries : List (String × ν)},
    (∀ e ∈ entries, ReadsAs read (write e.2) (value e.2)) →
    InRoom room (membersDepth (entries.map fun e => (e.1, write e.2)))
      (((entries.map fun e => (e.1, write e.2)).map fun m => (m.1, m.2.prune room)).mapM
        fun m => do return (m.1, ← read m.2))
      (entries.map fun e => (e.1, value e.2))
  | [], _ => by
    rw [List.map_nil, List.map_nil, List.mapM_nil, membersDepth]
    exact .pure []
  | (key, x) :: entries, h => by
    have hrest := @inRoom_members ν ω room read write value entries
      fun e he => h e (List.mem_cons_of_mem _ he)
    have hfirst := (h (key, x) List.mem_cons_self room).bind_some fun y => (key, y)
    rw [List.map_cons, List.map_cons, List.mapM_cons, membersDepth]
    exact hfirst.bind (hrest.bind_some fun es => (key, value x) :: es)

/-- Values that `read` reads make an object that `map? read` does. -/
theorem readsAs_map {ν ω : Type} {read : Json → Option ω} {write : ν → Json} {value : ν → ω}
    {m : OrderedMap String ν} (h : ∀ e ∈ m.entries, ReadsAs read (write e.2) (value e.2)) :
    ReadsAs (map? read) (ofMap write m) (m.mapValues value) := by
  intro room
  rw [ofMap, depth]
  cases room with
  | zero =>
    rw [prune_object_zero]
    exact .zero
  | succ room =>
    have hentries : OrderedMap.ofList (m.entries.map fun e => (e.1, value e.2)) =
        m.mapValues value :=
      OrderedMap.ext (OrderedMap.entries_ofList (m.mapValues value).increasing)
    rw [prune_object, ← hentries]
    exact ((inRoom_members h).bind_some OrderedMap.ofList).succ

/-! ### What is read, if anything is

A part may be refused for what it says although there is room for it. Whatever is read of it is
then still what was written. -/

/-- The result is `some a` or `none`. -/
def Only (result : Option α) (a : α) : Prop := ∀ b, result = some b → b = a

theorem InRoom.only {room depth : Nat} {x : Option α} {a : α} (h : InRoom room depth x a) :
    Only x a := by
  intro b hb
  unfold InRoom at h
  rw [h] at hb
  split at hb
  · exact (Option.some.inj hb).symm
  · cases hb

namespace Only

theorem pure (a : α) : Only (some a) a := fun _ h => (Option.some.inj h).symm

theorem none (a : α) : Only none a := fun _ h => nomatch h

theorem bind {x : Option α} {f : α → Option β} {a : α} {b : β} (hx : Only x a)
    (hf : Only (f a) b) : Only (x.bind f) b := by
  intro c hc
  obtain ⟨y, hy, hc⟩ := Option.bind_eq_some_iff.mp hc
  rw [hx y hy] at hc
  exact hf c hc

theorem map {x : Option α} {a : α} (hx : Only x a) (f : α → β) : Only (x.map f) (f a) := by
  intro c hc
  obtain ⟨y, hy, hc⟩ := Option.map_eq_some_iff.mp hc
  rw [← hc, hx y hy]

end Only

/-- If each item can only be read as its `value`, the items can only be read as the list of
these. -/
theorem only_mapM {γ : Type} {read : Json → Option β} {item : γ → Json} {value : γ → β} :
    ∀ {xs : List γ}, (∀ x ∈ xs, Only (read (item x)) (value x)) →
      Only ((xs.map item).mapM read) (xs.map value)
  | [], _ => by
    rw [List.map_nil, List.mapM_nil]
    exact .pure []
  | x :: xs, h => by
    have hrest := only_mapM fun y hy => h y (List.mem_cons_of_mem _ hy)
    rw [List.map_cons, List.mapM_cons]
    exact (h x List.mem_cons_self).bind (hrest.bind (.pure _))

theorem only_list {γ : Type} {room : Nat} {read : Json → Option β} {write : γ → Json}
    {value : γ → β} {xs : List γ}
    (h : ∀ x ∈ xs, ∀ room', room = room' + 1 → Only (read ((write x).prune room')) (value x)) :
    Only (list? read ((array (xs.map write)).prune room)) (xs.map value) := by
  cases room with
  | zero =>
    rw [prune_array_zero]
    exact .none _
  | succ room =>
    rw [prune_array, List.map_map]
    exact only_mapM fun x hx => h x hx room rfl

/-- A record can only be read as its fields can, in order. -/
theorem only_record {room : Nat} {names : List String} {members : List (String × Json)}
    {decode : List Json → Option α} {a : α}
    (hfields : ∀ room, fields? names (object (members.map fun m => (m.1, m.2.prune room))) =
      some (members.map fun m => m.2.prune room))
    (h : ∀ room', room = room' + 1 → Only (decode (members.map fun m => m.2.prune room')) a) :
    Only ((((object members).prune room).fields? names).bind decode) a := by
  cases room with
  | zero =>
    rw [prune_object_zero]
    exact .none _
  | succ room =>
    rw [prune_object, hfields, Option.bind_some]
    exact h room rfl

/-- A choice can only be read as its value can, by a reader that goes down with a bound. -/
theorem only_choice {room bound : Nat} {decode : Nat → Json → Option α} {tag : String} {x : Json}
    {a : α} (hunread : ∀ bound, decode bound unread = none)
    (hbound : ((tagged tag x).prune room).depth ≤ bound)
    (h : ∀ room' bound', (x.prune room').depth ≤ bound' →
      Only (decode (bound' + 1) (tagged tag (x.prune room'))) a) :
    Only (decode bound ((tagged tag x).prune room)) a := by
  cases room with
  | zero =>
    rw [tagged, prune_object_zero, hunread]
    exact .none _
  | succ room =>
    have hx : (x.prune room).depth < bound :=
      depth_prune_member (m := (tag, x)) hbound List.mem_cons_self
    obtain ⟨bound, rfl⟩ := Nat.exists_eq_succ_of_ne_zero (Nat.ne_zero_of_lt hx)
    rw [tagged, prune_object]
    exact h room bound (Nat.le_of_lt_succ hx)

end Json
end Covenant
