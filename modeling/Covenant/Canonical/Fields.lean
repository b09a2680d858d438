/-
# Records, choices and maps in JSON

How the parts of a contract stand in JSON. A record is an object with one
member for each field, or an array of the fields in order; a choice is a tag
alone, or an object whose only member has the tag as its key. Members that no
field asks for are passed over. An amount or a tree that nests without bound is
read with the depth of the document as a bound.

Key definitions: `Json.fields?`, `Json.word?`, `Json.tagged?`, `Json.map?`.
-/
import Covenant.Json.Basic
import Covenant.Ordered.Map

namespace Covenant
namespace Json

/-! ### Writing -/

/-- A choice that carries a value: the object with `tag` as its only key. -/
def tagged (tag : String) (x : Json) : Json := object [(tag, x)]

/-- The object of a map, in the order of its keys, values written by `f`. -/
def ofMap {ν : Type} (f : ν → Json) (m : OrderedMap String ν) : Json :=
  object (m.entries.map fun e => (e.1, f e.2))

/-- The natural number `n` as a number. -/
def ofNat (n : Nat) : Json := number (Numeral.ofNat n)

/-! ### Reading -/

/-- A string. -/
def string? : Json → Option String
  | string s => some s
  | _ => none

/-- The items of an array. -/
def items? : Json → Option (List Json)
  | array items => some items
  | _ => none

/-- A natural number of 64 bits. -/
def natural? : Json → Option Nat
  | number n => n.natural?
  | _ => none

/-- The value of the only one of `members` with this `key`. -/
def member? (members : List (String × Json)) (key : String) : Option Json :=
  match members.filter fun m => decide (m.1 = key) with
  | [m] => some m.2
  | _ => none

/-- The fields of a record with these `names`, in their order. -/
def fields? (names : List String) : Json → Option (List Json)
  | object members => names.mapM (member? members)
  | array items => if items.length = names.length then some items else none
  | _ => none

/-- The tag of a choice that carries no value: alone, or as the key of nothing. -/
def word? : Json → Option String
  | string s => some s
  | object [(tag, null)] => some tag
  | _ => none

/-- The tag and the value of a choice. -/
def tagged? : Json → Option (String × Json)
  | object [(tag, x)] => some (tag, x)
  | _ => none

/-- A map, values read by `f`; of two members with one key the later stays. -/
def map? {ν : Type} (f : Json → Option ν) : Json → Option (OrderedMap String ν)
  | object members => do
    let entries ← members.mapM fun m => do return (m.1, ← f m.2)
    return .ofList entries
  | _ => none

/-- A list, items read by `f`. -/
def list? {α : Type} (f : Json → Option α) : Json → Option (List α)
  | array items => items.mapM f
  | _ => none

end Json
end Covenant
