/-
# JSON is read as it was written

The text of a value, `j.text layout`, in either layout and whatever follows it,
is read as the value, pruned to the room that the reader has. The reader has
fuel enough, as each step of it is paid for by a character of the text.

Key definitions: `Json.cost`, `Json.Ends`.
Key theorems: `Json.scanNumeral_ofNat`, `Json.scanValue_render`,
`Json.read?_text`, `Json.eq_of_text_eq`.
-/
import Covenant.Proofs.Json.Prune
import Covenant.Proofs.Json.String
import Covenant.Proofs.Text.Digits

namespace Covenant
namespace Json

/-! ### Blanks -/

theorem skipBlanks_append {blanks : List UInt8} (h : ∀ b ∈ blanks, isBlank b = true)
    (bytes : List UInt8) : skipBlanks (blanks ++ bytes) = skipBlanks bytes :=
  List.dropWhile_append_of_pos h

theorem skipBlanks_cons {b : UInt8} (h : isBlank b = false) (bytes : List UInt8) :
    skipBlanks (b :: bytes) = b :: bytes :=
  List.dropWhile_cons_of_neg (by simp [h])

theorem isBlank_of_mem_gap {layout : Layout} {depth : Nat} {b : UInt8}
    (hb : b ∈ Text.utf8 (layout.gap depth)) : isBlank b = true := by
  cases layout with
  | compact => cases hb
  | pretty =>
    obtain ⟨c, hc, hbc⟩ := List.mem_flatMap.mp hb
    rcases List.mem_cons.mp hc with rfl | hc
    · rw [List.mem_singleton.mp hbc]
      rfl
    · rw [List.eq_of_mem_replicate hc] at hbc
      rw [List.mem_singleton.mp hbc]
      rfl

theorem scanValue_skip {room fuel : Nat} {blanks bytes : List UInt8}
    (h : ∀ b ∈ blanks, isBlank b = true) :
    scanValue room fuel (blanks ++ bytes) = scanValue room fuel bytes := by
  cases fuel with
  | zero => rw [scanValue, scanValue]
  | succ fuel => rw [scanValue, scanValue, skipBlanks_append h]

/-! ### Numbers -/

/-- What may follow a number: nothing, or a byte that cannot go on with it. -/
def Ends (bytes : List UInt8) : Prop :=
  bytes = [] ∨ ∃ b tail, bytes = b :: tail ∧ (b = 0x2c ∨ b = 0x5d ∨ b = 0x7d ∨ b = 0x0a)

theorem utf8EncodeChar_digit {c : Char} (h : Digits.isDigit c = true) :
    String.utf8EncodeChar c = [UInt8.ofNat c.toNat] := by
  have := (Digits.isDigit_iff.mp h).2
  exact Text.utf8EncodeChar_of_ascii (by omega)

theorem charOf_digit {c : Char} (h : Digits.isDigit c = true) :
    charOf (UInt8.ofNat c.toNat) = c := by
  have := (Digits.isDigit_iff.mp h).2
  rw [charOf, UInt8.toNat_ofNat', Nat.mod_eq_of_lt (by omega), Char.ofNat_toNat]

/-- `scanDigits` reads digits up to what cannot go on with them. -/
theorem scanDigits_utf8 {bytes : List UInt8} (hends : Ends bytes) : ∀ {digits : List Char},
    (∀ c ∈ digits, Digits.isDigit c = true) →
    scanDigits (Text.utf8 digits ++ bytes) = (digits, bytes)
  | [], _ => by
    rcases hends with rfl | ⟨b, tail, rfl, rfl | rfl | rfl | rfl⟩ <;> rfl
  | c :: digits, h => by
    have hc := h c List.mem_cons_self
    have hrest := scanDigits_utf8 hends fun x hx => h x (List.mem_cons_of_mem _ hx)
    have hbyte : isDigit (UInt8.ofNat c.toNat) = true := by
      rw [isDigit, charOf_digit hc]
      exact hc
    unfold scanDigits at hrest ⊢
    obtain ⟨htake, hdrop⟩ := Prod.mk.inj hrest
    rw [Text.utf8_cons, utf8EncodeChar_digit hc, List.cons_append, List.nil_append,
      List.cons_append, List.takeWhile_cons_of_pos hbyte, List.dropWhile_cons_of_pos hbyte,
      List.map_cons, htake, hdrop, charOf_digit hc]

theorem scanPlaces_of_ends {bytes : List UInt8} (h : Ends bytes) :
    scanPlaces bytes = some ([], bytes) := by
  rcases h with rfl | ⟨b, tail, rfl, rfl | rfl | rfl | rfl⟩ <;> rfl

theorem scanExponent_of_ends {bytes : List UInt8} (h : Ends bytes) :
    scanExponent bytes = some (none, bytes) := by
  rcases h with rfl | ⟨b, tail, rfl, rfl | rfl | rfl | rfl⟩ <;> rfl

theorem toChars_ofNat (k : Nat) : (Numeral.ofNat k).toChars = Digits.ofNat k := by
  simp [Numeral.toChars, Numeral.ofNat]

/-- The bytes of a natural number start with that of a digit. -/
theorem exists_digit (k : Nat) (bytes : List UInt8) : ∃ c tail, Digits.isDigit c = true ∧
    Text.utf8 (Digits.ofNat k) ++ bytes = UInt8.ofNat c.toNat :: tail := by
  obtain ⟨c, rest, hcons⟩ := List.exists_cons_of_ne_nil (Digits.ofNat_ne_nil k)
  have hc : Digits.isDigit c = true :=
    Digits.isDigit_of_mem_ofNat k c (hcons ▸ List.mem_cons_self)
  refine ⟨c, Text.utf8 rest ++ bytes, hc, ?_⟩
  rw [hcons, Text.utf8_cons, utf8EncodeChar_digit hc]
  rfl

/-- A byte that a digit is written as is none of those that start another kind of value. -/
theorem digit_ne {c : Char} (hc : Digits.isDigit c = true) {b : UInt8}
    (hb : b.toNat < 48 ∨ 57 < b.toNat) : UInt8.ofNat c.toNat ≠ b := by
  obtain ⟨h1, h2⟩ := Digits.isDigit_iff.mp hc
  intro h
  have htoNat : (UInt8.ofNat c.toNat).toNat = c.toNat := by
    rw [UInt8.toNat_ofNat']
    omega
  rw [h] at htoNat
  omega

theorem scanNumeral_of_ne {b : UInt8} {tail : List UInt8} (h : b ≠ 0x2d) :
    scanNumeral (b :: tail) = scanMagnitude false (b :: tail) := by
  unfold scanNumeral
  split
  · rename_i heq
    cases heq
    exact absurd rfl h
  · rfl

/-- **A natural number is read as it was written**, with what follows it left over. -/
theorem scanNumeral_ofNat (k : Nat) {bytes : List UInt8} (hends : Ends bytes) :
    scanNumeral (Text.utf8 (Digits.ofNat k) ++ bytes) = some (Numeral.ofNat k, bytes) := by
  obtain ⟨c, tail, hc, hcons⟩ := exists_digit k bytes
  have hdigits := scanDigits_utf8 hends (Digits.isDigit_of_mem_ofNat k)
  have hzero : ¬((Digits.ofNat k).head? = some '0' ∧ (Digits.ofNat k).length ≠ 1) := by
    rintro ⟨hhead, hlength⟩
    rw [Digits.head?_ofNat k hhead] at hlength
    exact hlength (by rw [Digits.ofNat_of_lt (by decide)]; rfl)
  rw [hcons] at hdigits ⊢
  rw [scanNumeral_of_ne (digit_ne hc (by decide)), scanMagnitude, hdigits]
  dsimp only
  rw [if_neg (by simp only [Digits.ofNat_ne_nil, false_or]; exact hzero),
    scanPlaces_of_ends hends]
  dsimp only [Option.bind_eq_bind, Option.bind]
  rw [scanExponent_of_ends hends]
  rfl

/-! ### Words -/

theorem bytes_word {word : String} {cs : List Char} (h : word = String.ofList cs) :
    Text.bytes word = Text.utf8 cs := by
  rw [h, Text.bytes_ofList]

theorem scanWord_utf8 {word : String} {cs : List Char} (h : word = String.ofList cs) (value : Json)
    (bytes : List UInt8) : scanWord word value (Text.utf8 cs ++ bytes) = some (value, bytes) := by
  unfold scanWord
  dsimp only
  rw [bytes_word h, if_pos (by simp), List.drop_left]

/-! ### What starts and what ends a value -/

/-- The byte after blanks that a value starts with. -/
def Starts (bytes : List UInt8) : Prop :=
  ∃ b tail, bytes = b :: tail ∧ isBlank b = false ∧ b ≠ 0x5d

theorem starts_quoted (s : String) (rest : List Char) : Starts (Text.utf8 (quoted s rest)) :=
  ⟨0x22, _, rfl, rfl, by decide⟩

theorem starts_render {layout : Layout} {depth : Nat} {rest : List Char} {j : Json}
    (h : j.Plain) : Starts (Text.utf8 (j.render layout depth rest)) := by
  cases j with
  | null => rw [render]; exact ⟨0x6e, _, rfl, rfl, by decide⟩
  | bool b => cases b <;> rw [render] <;> exact ⟨_, _, rfl, rfl, by decide⟩
  | number n =>
    obtain ⟨k, rfl⟩ := h
    rw [render, toChars_ofNat, Text.utf8_append]
    obtain ⟨c, tail, hc, hcons⟩ := exists_digit k (Text.utf8 rest)
    refine ⟨_, tail, hcons, ?_, digit_ne hc (by decide)⟩
    simp [isBlank, digit_ne hc]
  | string s => rw [render]; exact starts_quoted s rest
  | array items => cases items <;> rw [render] <;> exact ⟨0x5b, _, rfl, rfl, by decide⟩
  | object members =>
    rcases members with _ | ⟨⟨key, value⟩, members⟩ <;> rw [render] <;>
      exact ⟨0x7b, _, rfl, rfl, by decide⟩
  | unread => cases h

theorem ends_gap (layout : Layout) (depth : Nat) {c : Char} (hc : c = ']' ∨ c = '}')
    (rest : List Char) : Ends (Text.utf8 (layout.gap depth ++ c :: rest)) := by
  cases layout with
  | compact => rcases hc with rfl | rfl <;> exact .inr ⟨_, _, rfl, by decide⟩
  | pretty => exact .inr ⟨0x0a, _, rfl, by decide⟩

theorem ends_renderItems (layout : Layout) (depth depth' : Nat) (rest : List Char) :
    ∀ items, Ends (Text.utf8 (renderItems layout depth (layout.gap depth' ++ ']' :: rest) items))
  | [] => by rw [renderItems]; exact ends_gap layout depth' (.inl rfl) rest
  | item :: items => by rw [renderItems]; exact .inr ⟨0x2c, _, rfl, .inl rfl⟩

theorem ends_renderMembers (layout : Layout) (depth depth' : Nat) (rest : List Char) :
    ∀ members,
      Ends (Text.utf8 (renderMembers layout depth (layout.gap depth' ++ '}' :: rest) members))
  | [] => by rw [renderMembers]; exact ends_gap layout depth' (.inr rfl) rest
  | (key, value) :: members => by rw [renderMembers]; exact .inr ⟨0x2c, _, rfl, .inl rfl⟩

/-! ### Steps of the reader -/

theorem scanItems_skip {room fuel : Nat} {blanks bytes : List UInt8}
    (h : ∀ b ∈ blanks, isBlank b = true) :
    scanItems room fuel (blanks ++ bytes) = scanItems room fuel bytes := by
  cases fuel with
  | zero => rw [scanItems, scanItems]
  | succ fuel => rw [scanItems, scanItems, scanValue_skip h]

theorem scanMembers_skip {room fuel : Nat} {blanks bytes : List UInt8}
    (h : ∀ b ∈ blanks, isBlank b = true) :
    scanMembers room fuel (blanks ++ bytes) = scanMembers room fuel bytes := by
  cases fuel with
  | zero => rw [scanMembers, scanMembers]
  | succ fuel => rw [scanMembers, scanMembers, skipBlanks_append h]

theorem scanValue_string {room fuel : Nat} {pieces : List Piece} {tail rest : List UInt8}
    {s : String} (hscan : scanString tail = some (pieces, rest))
    (htext : pieceText? pieces = some s) :
    scanValue room (fuel + 1) (0x22 :: tail) = some (string s, rest) := by
  rw [scanValue, skipBlanks_cons rfl]
  dsimp only
  rw [if_neg (by decide), if_neg (by decide), if_pos rfl, hscan]
  dsimp only [Option.bind_eq_bind, Option.bind]
  rw [htext]
  rfl

theorem scanValue_number {room fuel k : Nat} {bytes : List UInt8} (hends : Ends bytes) :
    scanValue room (fuel + 1) (Text.utf8 (Digits.ofNat k) ++ bytes) =
      some (number (.ofNat k), bytes) := by
  have hnumeral := scanNumeral_ofNat k hends
  obtain ⟨c, tail, hc, hcons⟩ := exists_digit k bytes
  rw [hcons] at hnumeral ⊢
  have hblank : isBlank (UInt8.ofNat c.toNat) = false := by
    simp [isBlank, digit_ne hc]
  rw [scanValue, skipBlanks_cons hblank]
  dsimp only
  rw [if_neg (digit_ne hc (by decide)), if_neg (digit_ne hc (by decide)),
    if_neg (digit_ne hc (by decide)), if_neg (digit_ne hc (by decide)),
    if_neg (digit_ne hc (by decide)), if_neg (digit_ne hc (by decide)), hnumeral]
  rfl

theorem scanValue_items {room fuel : Nat} {blanks bytes rest : List UInt8} {items : List Json}
    (hblanks : ∀ b ∈ blanks, isBlank b = true) (hstarts : Starts bytes)
    (hscan : scanItems (room - 1) fuel bytes = some (items, rest)) :
    scanValue room (fuel + 1) (0x5b :: (blanks ++ bytes)) =
      some (inRoom room (array items), rest) := by
  obtain ⟨b, tail, rfl, hb, hne⟩ := hstarts
  rw [scanValue, skipBlanks_cons rfl]
  dsimp only
  rw [if_neg (by decide), if_pos rfl, skipBlanks_append hblanks, skipBlanks_cons hb]
  split
  · rename_i heq
    cases heq
    exact absurd rfl hne
  · rw [hscan]
    rfl

theorem scanValue_members {room fuel : Nat} {blanks tail rest : List UInt8}
    {members : List (String × Json)} (hblanks : ∀ b ∈ blanks, isBlank b = true)
    (hscan : scanMembers (room - 1) fuel (0x22 :: tail) = some (some members, rest)) :
    scanValue room (fuel + 1) (0x7b :: (blanks ++ 0x22 :: tail)) =
      some (inRoom room (object members), rest) := by
  rw [scanValue, skipBlanks_cons rfl]
  dsimp only
  rw [if_pos rfl, skipBlanks_append hblanks, skipBlanks_cons rfl]
  split
  · rename_i heq
    cases heq
  · rw [hscan]
    rfl

theorem scanItems_last {room fuel : Nat} {bytes blanks rest : List UInt8} {item : Json}
    (hblanks : ∀ b ∈ blanks, isBlank b = true)
    (hscan : scanValue room fuel bytes = some (item, blanks ++ 0x5d :: rest)) :
    scanItems room (fuel + 1) bytes = some ([item], rest) := by
  rw [scanItems]
  refine Option.bind_eq_some_iff.mpr ⟨_, hscan, ?_⟩
  dsimp only
  rw [skipBlanks_append hblanks, skipBlanks_cons rfl]
  rfl

theorem scanItems_cons {room fuel : Nat} {bytes tail rest : List UInt8} {item : Json}
    {items : List Json} (hscan : scanValue room fuel bytes = some (item, 0x2c :: tail))
    (hitems : scanItems room fuel tail = some (items, rest)) :
    scanItems room (fuel + 1) bytes = some (item :: items, rest) := by
  rw [scanItems]
  refine Option.bind_eq_some_iff.mpr ⟨_, hscan, ?_⟩
  dsimp only
  rw [skipBlanks_cons rfl]
  exact Option.bind_eq_some_iff.mpr ⟨_, hitems, rfl⟩

theorem scanMembers_last {room fuel : Nat} {tail after blanks rest : List UInt8}
    {pieces : List Piece} {key : String} {value : Json}
    (hkey : scanString tail = some (pieces, 0x3a :: after)) (htext : pieceText? pieces = some key)
    (hblanks : ∀ b ∈ blanks, isBlank b = true)
    (hscan : scanValue room fuel after = some (value, blanks ++ 0x7d :: rest)) :
    scanMembers room (fuel + 1) (0x22 :: tail) = some (some [(key, value)], rest) := by
  rw [scanMembers, skipBlanks_cons rfl]
  refine Option.bind_eq_some_iff.mpr ⟨_, hkey, ?_⟩
  dsimp only
  rw [skipBlanks_cons rfl]
  refine Option.bind_eq_some_iff.mpr ⟨_, hscan, ?_⟩
  dsimp only
  rw [skipBlanks_append hblanks, skipBlanks_cons rfl, htext]
  rfl

theorem scanMembers_cons {room fuel : Nat} {tail after after' rest : List UInt8}
    {pieces : List Piece} {key : String} {value : Json} {members : List (String × Json)}
    (hkey : scanString tail = some (pieces, 0x3a :: after)) (htext : pieceText? pieces = some key)
    (hscan : scanValue room fuel after = some (value, 0x2c :: after'))
    (hmembers : scanMembers room fuel after' = some (some members, rest)) :
    scanMembers room (fuel + 1) (0x22 :: tail) = some (some ((key, value) :: members), rest) := by
  rw [scanMembers, skipBlanks_cons rfl]
  refine Option.bind_eq_some_iff.mpr ⟨_, hkey, ?_⟩
  dsimp only
  rw [skipBlanks_cons rfl]
  refine Option.bind_eq_some_iff.mpr ⟨_, hscan, ?_⟩
  dsimp only
  rw [skipBlanks_cons rfl]
  refine Option.bind_eq_some_iff.mpr ⟨_, hmembers, ?_⟩
  rw [htext]
  rfl

/-- What stands between a key and its value is the colon and blanks. -/
theorem colon_eq (layout : Layout) : ∃ blanks, Text.utf8 layout.colon = 0x3a :: blanks ∧
    ∀ b ∈ blanks, isBlank b = true := by
  cases layout with
  | compact => exact ⟨[], rfl, by simp⟩
  | pretty =>
    refine ⟨[0x20], rfl, fun b hb => ?_⟩
    rw [List.mem_singleton.mp hb]
    rfl

/-! ### Values -/

mutual

/-- The fuel that `scanValue` takes for a value. -/
def cost : Json → Nat
  | array items => itemsCost items + 1
  | object members => membersCost members + 1
  | null | bool _ | number _ | string _ | unread => 1

/-- The fuel that reading items takes. -/
def itemsCost : List Json → Nat
  | [] => 0
  | item :: items => item.cost + itemsCost items + 1

/-- The fuel that reading members takes. -/
def membersCost : List (String × Json) → Nat
  | [] => 0
  | (_, value) :: members => value.cost + membersCost members + 1

end

mutual

/-- **A value is read as it was written**: `scanValue` after `render` is `j.prune room`, whatever
follows it. -/
theorem scanValue_render (layout : Layout) : ∀ (j : Json) (room fuel depth : Nat)
    (rest : List Char), j.Plain → j.cost ≤ fuel → Ends (Text.utf8 rest) →
    scanValue room fuel (Text.utf8 (j.render layout depth rest)) =
      some (j.prune room, Text.utf8 rest)
  | j, _, 0, _, _, _, hcost, _ => by cases j <;> simp [cost] at hcost
  | null, room, fuel + 1, depth, rest, _, _, _ => by
    rw [render, scanValue, prune]
    exact @scanWord_utf8 "null" ['n', 'u', 'l', 'l'] rfl null (Text.utf8 rest)
  | bool true, room, fuel + 1, depth, rest, _, _, _ => by
    rw [render, scanValue, prune]
    exact @scanWord_utf8 "true" ['t', 'r', 'u', 'e'] rfl (bool true) (Text.utf8 rest)
  | bool false, room, fuel + 1, depth, rest, _, _, _ => by
    rw [render, scanValue, prune]
    exact @scanWord_utf8 "false" ['f', 'a', 'l', 's', 'e'] rfl (bool false) (Text.utf8 rest)
  | number n, room, fuel + 1, depth, rest, hplain, _, hends => by
    obtain ⟨k, rfl⟩ := hplain
    rw [render, prune, toChars_ofNat, Text.utf8_append]
    exact scanValue_number hends
  | string s, room, fuel + 1, depth, rest, _, _, _ => by
    obtain ⟨tail, pieces, hquoted, hscan, htext⟩ := scanString_quoted s rest
    rw [render, prune, hquoted]
    exact scanValue_string hscan htext
  | array [], room, fuel + 1, depth, rest, _, _, _ => by
    rw [render, scanValue, prune, pruneItems]
    rfl
  | array (item :: items), room, fuel + 1, depth, rest, hplain, hcost, _ => by
    rw [Plain, PlainItems] at hplain
    rw [cost] at hcost
    have hitems := scanItems_render layout item items (room - 1) fuel (depth + 1) depth rest
      hplain.1 hplain.2 (by omega)
    have hscan := scanValue_items (@isBlank_of_mem_gap layout (depth + 1)) (starts_render hplain.1)
      hitems
    rw [render, prune, ← hscan, Text.utf8_cons, Text.utf8_append]
    rfl
  | object [], room, fuel + 1, depth, rest, _, _, _ => by
    rw [render, scanValue, prune, pruneMembers]
    rfl
  | object ((key, value) :: members), room, fuel + 1, depth, rest, hplain, hcost, _ => by
    rw [Plain, PlainMembers] at hplain
    rw [cost] at hcost
    have hmembers := scanMembers_render layout key value members (room - 1) fuel (depth + 1) depth
      rest hplain.1 hplain.2 (by omega)
    have hscan := scanValue_members (@isBlank_of_mem_gap layout (depth + 1)) hmembers
    rw [render, prune, ← hscan, Text.utf8_cons, Text.utf8_append]
    rfl
  | unread, _, _, _, _, hplain, _, _ => by cases hplain
termination_by structural _ _ fuel => fuel

theorem scanItems_render (layout : Layout) : ∀ (item : Json) (items : List Json)
    (room fuel depth depth' : Nat) (rest : List Char), item.Plain → PlainItems items →
    itemsCost (item :: items) ≤ fuel →
    scanItems room fuel (Text.utf8 (item.render layout depth
      (renderItems layout depth (layout.gap depth' ++ ']' :: rest) items))) =
      some (pruneItems room (item :: items), Text.utf8 rest)
  | item, items, room, 0, _, _, _, _, _, hcost => by simp [itemsCost] at hcost
  | item, [], room, fuel + 1, depth, depth', rest, hitem, _, hcost => by
    rw [itemsCost, itemsCost] at hcost
    have hscan := scanValue_render layout item room fuel depth (layout.gap depth' ++ ']' :: rest)
      hitem (by omega) (ends_gap layout depth' (.inl rfl) rest)
    rw [Text.utf8_append] at hscan
    rw [renderItems, pruneItems, pruneItems]
    exact scanItems_last (@isBlank_of_mem_gap layout depth') hscan
  | item, next :: items, room, fuel + 1, depth, depth', rest, hitem, hitems, hcost => by
    rw [PlainItems] at hitems
    rw [itemsCost] at hcost
    have hscan := scanValue_render layout item room fuel depth
      (renderItems layout depth (layout.gap depth' ++ ']' :: rest) (next :: items)) hitem (by omega)
      (ends_renderItems layout depth depth' rest (next :: items))
    have hrest := scanItems_render layout next items room fuel depth depth' rest hitems.1 hitems.2
      (by omega)
    rw [← scanItems_skip (@isBlank_of_mem_gap layout depth), ← Text.utf8_append] at hrest
    rw [pruneItems]
    refine scanItems_cons (hscan.trans ?_) hrest
    rw [renderItems]
    rfl
termination_by structural _ _ _ fuel => fuel

theorem scanMembers_render (layout : Layout) : ∀ (key : String) (value : Json)
    (members : List (String × Json)) (room fuel depth depth' : Nat) (rest : List Char),
    value.Plain → PlainMembers members → membersCost ((key, value) :: members) ≤ fuel →
    scanMembers room fuel (Text.utf8 (quoted key (layout.colon ++ value.render layout depth
      (renderMembers layout depth (layout.gap depth' ++ '}' :: rest) members)))) =
      some (some (pruneMembers room ((key, value) :: members)), Text.utf8 rest)
  | key, value, members, room, 0, _, _, _, _, _, hcost => by simp [membersCost] at hcost
  | key, value, [], room, fuel + 1, depth, depth', rest, hvalue, _, hcost => by
    rw [membersCost, membersCost] at hcost
    obtain ⟨blanks, hcolon, hblanks⟩ := colon_eq layout
    have hscan := scanValue_render layout value room fuel depth (layout.gap depth' ++ '}' :: rest)
      hvalue (by omega) (ends_gap layout depth' (.inr rfl) rest)
    rw [Text.utf8_append (layout.gap depth'), ← scanValue_skip hblanks] at hscan
    obtain ⟨tail, pieces, hquoted, hkey, htext⟩ := scanString_quoted key (layout.colon ++
      value.render layout depth (layout.gap depth' ++ '}' :: rest))
    rw [Text.utf8_append, hcolon] at hkey
    rw [renderMembers, hquoted, pruneMembers, pruneMembers]
    exact scanMembers_last hkey htext (@isBlank_of_mem_gap layout depth') hscan
  | key, value, (key', value') :: members, room, fuel + 1, depth, depth', rest, hvalue, hmembers,
      hcost => by
    rw [PlainMembers] at hmembers
    rw [membersCost] at hcost
    obtain ⟨blanks, hcolon, hblanks⟩ := colon_eq layout
    have hscan := scanValue_render layout value room fuel depth
      (renderMembers layout depth (layout.gap depth' ++ '}' :: rest) ((key', value') :: members))
      hvalue (by omega) (ends_renderMembers layout depth depth' rest ((key', value') :: members))
    have hrest := scanMembers_render layout key' value' members room fuel depth depth' rest
      hmembers.1 hmembers.2 (by omega)
    rw [← scanMembers_skip (@isBlank_of_mem_gap layout depth), ← Text.utf8_append] at hrest
    rw [← scanValue_skip hblanks] at hscan
    obtain ⟨tail, pieces, hquoted, hkey, htext⟩ := scanString_quoted key (layout.colon ++
      value.render layout depth
        (renderMembers layout depth (layout.gap depth' ++ '}' :: rest) ((key', value') :: members)))
    rw [Text.utf8_append, hcolon] at hkey
    rw [hquoted, pruneMembers]
    refine scanMembers_cons hkey htext (hscan.trans ?_) hrest
    rw [renderMembers]
    rfl
termination_by structural _ _ _ _ fuel => fuel

end

/-! ### Fuel -/

theorem length_le_utf8 : ∀ cs : List Char, cs.length ≤ (Text.utf8 cs).length
  | [] => Nat.le_refl 0
  | c :: cs => by
    have hrest := length_le_utf8 cs
    have hc : 0 < (String.utf8EncodeChar c).length :=
      List.length_pos_iff.mpr String.utf8EncodeChar_ne_nil
    rw [Text.utf8_cons, List.length_append, List.length_cons]
    omega

theorem length_foldr_escape (rest : List Char) : ∀ cs : List Char,
    rest.length ≤ (cs.foldr (fun c rest => escape c ++ rest) rest).length
  | [] => Nat.le_refl _
  | c :: cs => by
    have := length_foldr_escape rest cs
    rw [List.foldr_cons, List.length_append]
    omega

theorem length_quoted (s : String) (rest : List Char) :
    rest.length + 2 ≤ (quoted s rest).length := by
  have := length_foldr_escape ('"' :: rest) s.toList
  rw [quoted, List.length_cons]
  rw [List.length_cons] at this
  omega

mutual

/-- `j.cost` is no more than twice the characters of the value. -/
theorem cost_render (layout : Layout) : ∀ (j : Json) (depth : Nat) (rest : List Char), j.Plain →
    j.cost + 2 * rest.length ≤ 2 * (j.render layout depth rest).length
  | null, _, rest, _ => by
    simp only [render, cost, List.length_cons]
    omega
  | bool true, _, rest, _ => by
    simp only [render, cost, List.length_cons]
    omega
  | bool false, _, rest, _ => by
    simp only [render, cost, List.length_cons]
    omega
  | number n, _, rest, h => by
    obtain ⟨k, rfl⟩ := h
    have := List.length_pos_iff.mpr (Digits.ofNat_ne_nil k)
    rw [render, cost, toChars_ofNat, List.length_append]
    omega
  | string s, _, rest, _ => by
    have := length_quoted s rest
    rw [render, cost]
    omega
  | array [], _, rest, _ => by
    simp only [render, cost, itemsCost, List.length_cons]
    omega
  | array (item :: items), depth, rest, h => by
    rw [Plain, PlainItems] at h
    have hitem := cost_render layout item (depth + 1)
      (renderItems layout (depth + 1) (layout.gap depth ++ ']' :: rest) items) h.1
    have hitems := cost_renderItems layout items (depth + 1) (layout.gap depth ++ ']' :: rest) h.2
    simp only [render, cost, itemsCost, List.length_cons, List.length_append] at hitem hitems ⊢
    omega
  | object [], _, rest, _ => by
    simp only [render, cost, membersCost, List.length_cons]
    omega
  | object ((key, value) :: members), depth, rest, h => by
    rw [Plain, PlainMembers] at h
    have hvalue := cost_render layout value (depth + 1)
      (renderMembers layout (depth + 1) (layout.gap depth ++ '}' :: rest) members) h.1
    have hmembers := cost_renderMembers layout members (depth + 1)
      (layout.gap depth ++ '}' :: rest) h.2
    have hkey := length_quoted key (layout.colon ++ value.render layout (depth + 1)
      (renderMembers layout (depth + 1) (layout.gap depth ++ '}' :: rest) members))
    simp only [render, cost, membersCost, List.length_cons, List.length_append]
      at hvalue hmembers hkey ⊢
    omega
  | unread, _, _, h => by cases h

theorem cost_renderItems (layout : Layout) : ∀ (items : List Json) (depth : Nat)
    (rest : List Char), PlainItems items →
    itemsCost items + 2 * rest.length ≤ 2 * (renderItems layout depth rest items).length
  | [], _, rest, _ => by
    rw [itemsCost, renderItems]
    omega
  | item :: items, depth, rest, h => by
    rw [PlainItems] at h
    have hitem := cost_render layout item depth (renderItems layout depth rest items) h.1
    have hitems := cost_renderItems layout items depth rest h.2
    simp only [renderItems, itemsCost, List.length_cons, List.length_append]
    omega

theorem cost_renderMembers (layout : Layout) : ∀ (members : List (String × Json)) (depth : Nat)
    (rest : List Char), PlainMembers members →
    membersCost members + 2 * rest.length ≤ 2 * (renderMembers layout depth rest members).length
  | [], _, rest, _ => by
    rw [membersCost, renderMembers]
    omega
  | (key, value) :: members, depth, rest, h => by
    rw [PlainMembers] at h
    have hvalue := cost_render layout value depth (renderMembers layout depth rest members) h.1
    have hmembers := cost_renderMembers layout members depth rest h.2
    have hkey := length_quoted key
      (layout.colon ++ value.render layout depth (renderMembers layout depth rest members))
    simp only [renderMembers, membersCost, List.length_cons, List.length_append] at hkey ⊢
    omega

end

/-! ### Documents -/

/-- A document in the given layout; `compact` and `pretty` are the two. -/
def text (layout : Layout) (j : Json) : String := String.ofList (j.toChars layout)

/-- **A document is read as it was written**, pruned to `mostNested`. -/
theorem read?_text (layout : Layout) {j : Json} (h : j.Plain) :
    read? (Text.bytes (j.text layout)) = some (j.prune mostNested) := by
  have hcost := cost_render layout j 0 [] h
  have hlength := length_le_utf8 (j.render layout 0 [])
  have hscan := scanValue_render layout j mostNested
    (2 * (Text.utf8 (j.render layout 0 [])).length + 2) 0 [] h (by omega) (.inl rfl)
  rw [text, Text.bytes_ofList, toChars, read?, hscan]
  rfl

/-- A document no deeper than `mostNested` is read as it was written. -/
theorem read?_text_of_depth_le (layout : Layout) {j : Json} (h : j.Plain)
    (hdepth : j.depth ≤ mostNested) : read? (Text.bytes (j.text layout)) = some j := by
  rw [read?_text layout h, prune_of_depth_le j mostNested hdepth]

/-- **The text of a document determines it**, however deep it nests. -/
theorem eq_of_text_eq (layout : Layout) {j j' : Json} (hj : j.Plain) (hj' : j'.Plain)
    (h : j.text layout = j'.text layout) : j = j' := by
  -- a reader with room and fuel enough for both reads each of them from the same bytes
  have hread : ∀ k : Json, k.Plain → k.depth ≤ max j.depth j'.depth →
      k.cost ≤ max j.cost j'.cost →
      scanValue (max j.depth j'.depth) (max j.cost j'.cost) (Text.utf8 (k.toChars layout)) =
        some (k, []) := fun k hk hroom hfuel => by
    have hscan := scanValue_render layout k (max j.depth j'.depth) (max j.cost j'.cost) 0 [] hk
      hfuel (.inl rfl)
    rwa [prune_of_depth_le k _ hroom] at hscan
  have hchars : j.toChars layout = j'.toChars layout := String.ofList_injective h
  have hfirst := hread j hj (Nat.le_max_left _ _) (Nat.le_max_left _ _)
  rw [hchars, hread j' hj' (Nat.le_max_right _ _) (Nat.le_max_right _ _)] at hfirst
  exact (Prod.mk.inj (Option.some.inj hfirst)).1.symm

end Json
end Covenant
