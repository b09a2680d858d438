/-
# JSON without its deepest parts

What a reader with limited room makes of a value, `j.prune room`: arrays and
objects for which there is no room are there but `unread`. Nothing is lost of a
value that is no deeper than the room.

Key definitions: `Json.prune`, `Json.Plain`.
Key theorem: `Json.prune_of_depth_le`.
-/
import Covenant.Canonical.Fields
import Covenant.Json.Reader

namespace Covenant
namespace Json

mutual

/-- The value, with arrays and objects kept only `room` deep inside one another, and `unread`
below. -/
def prune (room : Nat) : Json → Json
  | null => null
  | bool b => bool b
  | number n => number n
  | string s => string s
  | array items => inRoom room (array (pruneItems (room - 1) items))
  | object members => inRoom room (object (pruneMembers (room - 1) members))
  | unread => unread

/-- The items, each pruned. -/
def pruneItems (room : Nat) : List Json → List Json
  | [] => []
  | item :: items => item.prune room :: pruneItems room items

/-- The members, the value of each pruned. -/
def pruneMembers (room : Nat) : List (String × Json) → List (String × Json)
  | [] => []
  | (key, value) :: members => (key, value.prune room) :: pruneMembers room members

end

theorem pruneItems_eq_map (room : Nat) : ∀ items, pruneItems room items = items.map (prune room)
  | [] => rfl
  | item :: items => by rw [pruneItems, pruneItems_eq_map room items, List.map_cons]

theorem pruneMembers_eq_map (room : Nat) : ∀ members,
    pruneMembers room members = members.map fun m => (m.1, m.2.prune room)
  | [] => rfl
  | (key, value) :: members => by
    rw [pruneMembers, pruneMembers_eq_map room members, List.map_cons]

theorem prune_array (room : Nat) (items : List Json) :
    (array items).prune (room + 1) = array (items.map (prune room)) := by
  rw [prune, pruneItems_eq_map]
  rfl

theorem prune_object (room : Nat) (members : List (String × Json)) :
    (object members).prune (room + 1) =
      object (members.map fun m => (m.1, m.2.prune room)) := by
  rw [prune, pruneMembers_eq_map]
  rfl

theorem prune_array_zero (items : List Json) : (array items).prune 0 = unread := by
  rw [prune]
  rfl

theorem prune_object_zero (members : List (String × Json)) : (object members).prune 0 = unread := by
  rw [prune]
  rfl

mutual

/-- Nothing is lost of a value for which there is room: `j.depth ≤ room`. -/
theorem prune_of_depth_le : ∀ (j : Json) (room : Nat), j.depth ≤ room → j.prune room = j
  | null, _, _ => by rw [prune]
  | bool _, _, _ => by rw [prune]
  | number _, _, _ => by rw [prune]
  | string _, _, _ => by rw [prune]
  | unread, _, _ => by rw [prune]
  | array items, room, h => by
    rw [depth] at h
    have hroom : room ≠ 0 := by omega
    have hitems := pruneItems_of_depth_le items (room - 1) (by omega)
    rw [prune, hitems, inRoom, if_neg hroom]
  | object members, room, h => by
    rw [depth] at h
    have hroom : room ≠ 0 := by omega
    have hmembers := pruneMembers_of_depth_le members (room - 1) (by omega)
    rw [prune, hmembers, inRoom, if_neg hroom]

theorem pruneItems_of_depth_le : ∀ (items : List Json) (room : Nat), itemsDepth items ≤ room →
    pruneItems room items = items
  | [], _, _ => by rw [pruneItems]
  | item :: items, room, h => by
    rw [itemsDepth] at h
    have hitem := prune_of_depth_le item room (by omega)
    have hitems := pruneItems_of_depth_le items room (by omega)
    rw [pruneItems, hitem, hitems]

theorem pruneMembers_of_depth_le : ∀ (members : List (String × Json)) (room : Nat),
    membersDepth members ≤ room → pruneMembers room members = members
  | [], _, _ => by rw [pruneMembers]
  | (key, value) :: members, room, h => by
    rw [membersDepth] at h
    have hvalue := prune_of_depth_le value room (by omega)
    have hmembers := pruneMembers_of_depth_le members room (by omega)
    rw [pruneMembers, hvalue, hmembers]

end

/-! ### Parts of a pruned value -/

theorem depth_le_itemsDepth {item : Json} : ∀ {items : List Json}, item ∈ items →
    item.depth ≤ itemsDepth items
  | first :: items, h => by
    rw [itemsDepth]
    rcases List.mem_cons.mp h with rfl | h
    · omega
    · have := depth_le_itemsDepth h
      omega

theorem depth_le_membersDepth {m : String × Json} : ∀ {members : List (String × Json)},
    m ∈ members → m.2.depth ≤ membersDepth members
  | (key, value) :: members, h => by
    rw [membersDepth]
    rcases List.mem_cons.mp h with rfl | h
    · dsimp only
      omega
    · have := depth_le_membersDepth h
      omega

/-- `item.prune room` is less deep than the array around it with `room + 1`. -/
theorem depth_prune_item {items : List Json} {item : Json} {room bound : Nat}
    (h : ((array items).prune (room + 1)).depth ≤ bound) (hitem : item ∈ items) :
    (item.prune room).depth < bound := by
  rw [prune_array, depth] at h
  have := depth_le_itemsDepth (List.mem_map_of_mem (f := prune room) hitem)
  omega

/-- The value of a member that was pruned is less deep than the object that was. -/
theorem depth_prune_member {members : List (String × Json)} {m : String × Json} {room bound : Nat}
    (h : ((object members).prune (room + 1)).depth ≤ bound) (hm : m ∈ members) :
    (m.2.prune room).depth < bound := by
  rw [prune_object, depth] at h
  have := depth_le_membersDepth (List.mem_map_of_mem (f := fun m => (m.1, m.2.prune room)) hm)
  dsimp only at this
  omega

/-! ### Values that are written as they are read -/

mutual

/-- All parts of the value can be read, none is `unread`, and its numbers are natural numbers. -/
def Plain : Json → Prop
  | null | bool _ | string _ => True
  | number n => ∃ k, n = .ofNat k
  | array items => PlainItems items
  | object members => PlainMembers members
  | unread => False

/-- All items are plain. -/
def PlainItems : List Json → Prop
  | [] => True
  | item :: items => item.Plain ∧ PlainItems items

/-- The values of all members are plain. -/
def PlainMembers : List (String × Json) → Prop
  | [] => True
  | (_, value) :: members => value.Plain ∧ PlainMembers members

end

theorem plainItems_iff : ∀ {items : List Json}, PlainItems items ↔ ∀ j ∈ items, j.Plain
  | [] => by simp [PlainItems]
  | item :: items => by rw [PlainItems, plainItems_iff, List.forall_mem_cons]

theorem plainMembers_iff : ∀ {members : List (String × Json)},
    PlainMembers members ↔ ∀ m ∈ members, m.2.Plain
  | [] => by simp [PlainMembers]
  | (key, value) :: members => by rw [PlainMembers, plainMembers_iff, List.forall_mem_cons]

@[simp] theorem plain_string (s : String) : (string s).Plain := trivial

@[simp] theorem plain_ofNat (n : Nat) : (ofNat n).Plain := ⟨n, rfl⟩

@[simp] theorem plain_array {items : List Json} : (array items).Plain ↔ ∀ j ∈ items, j.Plain := by
  rw [Plain, plainItems_iff]

@[simp] theorem plain_object {members : List (String × Json)} :
    (object members).Plain ↔ ∀ m ∈ members, m.2.Plain := by
  rw [Plain, plainMembers_iff]

@[simp] theorem plain_tagged {tag : String} {x : Json} : (tagged tag x).Plain ↔ x.Plain := by
  simp [tagged]

theorem plain_list {α : Type} {write : α → Json} {xs : List α} (h : ∀ x ∈ xs, (write x).Plain) :
    (array (xs.map write)).Plain := by
  simpa using h

theorem plain_ofMap {ν : Type} {write : ν → Json} {m : OrderedMap String ν}
    (h : ∀ x, (write x).Plain) : (ofMap write m).Plain := by
  refine plain_object.mpr fun member hmember => ?_
  obtain ⟨e, -, rfl⟩ := List.mem_map.mp hmember
  exact h e.2

end Json
end Covenant
