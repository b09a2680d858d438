/-
# JSON

A JSON value, and its text: `compact`, or `pretty`, laid out with one item a
line and two blanks for each level. Strings escape the quote, the backslash and
the control characters, nothing else. The members of an object keep their order.

Key definitions: `Json`, `Json.render`, `Json.toChars`, `Json.compact`,
`Json.pretty`, `Json.depth`.
-/
import Covenant.Json.Numeral
import Covenant.Text.Hex

namespace Covenant

/-- A JSON value. A value that is well formed but may only be passed over, because it nests too
deep or has a string that is not Unicode text, is `unread`. -/
inductive Json where
  | null
  | bool (b : Bool)
  | number (n : Numeral)
  | string (s : String)
  | array (items : List Json)
  | object (members : List (String × Json))
  | unread

namespace Json

instance : Inhabited Json := ⟨null⟩

/-- How a text is laid out: without blanks, or with one item a line. -/
inductive Layout where
  | compact
  | pretty
deriving DecidableEq

/-- What stands before an item at `depth`. -/
def Layout.gap (layout : Layout) (depth : Nat) : List Char :=
  match layout with
  | compact => []
  | pretty => '\n' :: List.replicate (2 * depth) ' '

/-- What stands between the key and the value of a member. -/
def Layout.colon : Layout → List Char
  | compact => [':']
  | pretty => [':', ' ']

/-- The character `c` as it is written in a string. -/
def escape (c : Char) : List Char :=
  if c = '"' then ['\\', '"']
  else if c = '\\' then ['\\', '\\']
  else if c.toNat = 8 then ['\\', 'b']
  else if c.toNat = 12 then ['\\', 'f']
  else if c.toNat = 10 then ['\\', 'n']
  else if c.toNat = 13 then ['\\', 'r']
  else if c.toNat = 9 then ['\\', 't']
  else if c.toNat < 32 then
    ['\\', 'u', '0', '0', Hex.char (c.toNat / 16), Hex.char (c.toNat % 16)]
  else [c]

/-- The string `s` as it is written, quotes included, and the `rest` that follows it. -/
def quoted (s : String) (rest : List Char) : List Char :=
  '"' :: s.toList.foldr (fun c rest => escape c ++ rest) ('"' :: rest)

mutual

/-- The characters of a value at `depth`, and the `rest` that follows it. -/
def render (layout : Layout) (depth : Nat) (rest : List Char) : Json → List Char
  | null => 'n' :: 'u' :: 'l' :: 'l' :: rest
  | bool true => 't' :: 'r' :: 'u' :: 'e' :: rest
  | bool false => 'f' :: 'a' :: 'l' :: 's' :: 'e' :: rest
  | number n => n.toChars ++ rest
  | string s => quoted s rest
  | array [] => '[' :: ']' :: rest
  | array (item :: items) =>
    '[' :: (layout.gap (depth + 1) ++
      item.render layout (depth + 1)
        (renderItems layout (depth + 1) (layout.gap depth ++ ']' :: rest) items))
  | object [] => '{' :: '}' :: rest
  | object ((key, value) :: members) =>
    '{' :: (layout.gap (depth + 1) ++
      quoted key (layout.colon ++
        value.render layout (depth + 1)
          (renderMembers layout (depth + 1) (layout.gap depth ++ '}' :: rest) members)))
  | unread => rest

/-- The items after the first, and the `rest` that follows them. -/
def renderItems (layout : Layout) (depth : Nat) (rest : List Char) : List Json → List Char
  | [] => rest
  | item :: items =>
    ',' :: (layout.gap depth ++
      item.render layout depth (renderItems layout depth rest items))

/-- The members after the first, and the `rest` that follows them. -/
def renderMembers (layout : Layout) (depth : Nat) (rest : List Char) :
    List (String × Json) → List Char
  | [] => rest
  | (key, value) :: members =>
    ',' :: (layout.gap depth ++
      quoted key (layout.colon ++
        value.render layout depth (renderMembers layout depth rest members)))

end

/-- The characters of the value `j` in a `layout`. -/
def toChars (layout : Layout) (j : Json) : List Char := j.render layout 0 []

mutual

/-- How many arrays and objects stand inside one another, at most. -/
def depth : Json → Nat
  | array items => itemsDepth items + 1
  | object members => membersDepth members + 1
  | _ => 0

/-- The largest depth of an item. -/
def itemsDepth : List Json → Nat
  | [] => 0
  | item :: items => max item.depth (itemsDepth items)

/-- The largest depth of a member's value. -/
def membersDepth : List (String × Json) → Nat
  | [] => 0
  | (_, value) :: members => max value.depth (membersDepth members)

end

/-- The text of the value `j` without any blanks. -/
def compact (j : Json) : String := String.ofList (j.toChars .compact)

/-- The text of the value `j` with one item a line. -/
def pretty (j : Json) : String := String.ofList (j.toChars .pretty)

end Json
end Covenant
