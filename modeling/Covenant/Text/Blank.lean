/-
# White space, case and splitting

White space is the Unicode property, `Text.isBlank`, so a no-break space at the
end of a date or a name is trimmed like a plain one. Case folding is for ASCII
letters only: the words it is used on (currencies, conventions, kinds of data)
are ASCII.

Key definitions: `Text.isBlank`, `Text.trim`, `Text.upper`, `Text.lower`,
`Text.splitAt?`, `Text.alignRight`.
-/

namespace Covenant
namespace Text

/-- The characters with the Unicode property White_Space. -/
def isBlank (c : Char) : Bool :=
  let n := c.toNat
  (9 ≤ n && n ≤ 13) || n == 0x20 || n == 0x85 || n == 0xA0 || n == 0x1680 ||
    (0x2000 ≤ n && n ≤ 0x200A) || n == 0x2028 || n == 0x2029 || n == 0x202F || n == 0x205F ||
    n == 0x3000

/-- A character list without white space at its ends. -/
def trimList (cs : List Char) : List Char :=
  ((cs.dropWhile isBlank).reverse.dropWhile isBlank).reverse

/-- The text `s` without white space at its ends. -/
def trim (s : String) : String := String.ofList (trimList s.toList)

/-- The text `s` with its ASCII letters in upper case. -/
def upper (s : String) : String := String.ofList (s.toList.map Char.toUpper)

/-- The text `s` with its ASCII letters in lower case. -/
def lower (s : String) : String := String.ofList (s.toList.map Char.toLower)

/-- The parts of `s` before and after the first character that `p` holds of. -/
def splitAt? (p : Char → Bool) (s : String) : Option (String × String) :=
  match s.toList.dropWhile (! p ·) with
  | [] => none
  | _ :: rest => some (String.ofList (s.toList.takeWhile (! p ·)), String.ofList rest)

/-- A text of at least `width` characters, filled with blanks on the left. -/
def alignRight (width : Nat) (s : String) : String :=
  String.ofList (List.replicate (width - s.length) ' ') ++ s

/-- A text of at least `width` characters, filled with blanks on the right. -/
def alignLeft (width : Nat) (s : String) : String :=
  s ++ String.ofList (List.replicate (width - s.length) ' ')

end Text
end Covenant
