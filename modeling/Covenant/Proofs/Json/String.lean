/-
# Strings in JSON are read as they were written

Every character is written by `escape` so that its bytes come back: most stand
for themselves, the quote, the backslash and five control characters are escaped
by one letter, and the other control characters by their number.

Key theorems: `Json.exists_pieces`, `Json.scanString_quoted`.
-/
import Covenant.Json.Reader
import Covenant.Proofs.Text.Utf8

namespace Covenant
namespace Json

/-- A byte that stands for itself in a string. -/
def IsPlain (b : UInt8) : Prop := b ≠ 0x22 ∧ b ≠ 0x5c ∧ ¬b < 0x20

theorem scanString_cons {b : UInt8} (h : IsPlain b) (tail : List UInt8) :
    scanString (b :: tail) = (scanString tail).map fun p => (.byte b :: p.1, p.2) := by
  rw [scanString.eq_def]
  dsimp only
  rw [if_neg h.1, if_neg h.2.1, if_neg h.2.2]
  cases scanString tail <;> rfl

/-- Bytes that stand for themselves become pieces of the string, each a `Piece.byte`. -/
theorem scanString_plain (tail : List UInt8) : ∀ bytes : List UInt8, (∀ b ∈ bytes, IsPlain b) →
    scanString (bytes ++ tail) =
      (scanString tail).map fun p => (bytes.map Piece.byte ++ p.1, p.2)
  | [], _ => by cases h : scanString tail <;> simp [h]
  | b :: bytes, h => by
    have hrest := scanString_plain tail bytes fun x hx => h x (List.mem_cons_of_mem _ hx)
    rw [List.cons_append, scanString_cons (h b List.mem_cons_self), hrest, Option.map_map]
    rfl

theorem pieceBytes?_plain (rest : List Piece) : ∀ bytes : List UInt8,
    pieceBytes? (bytes.map Piece.byte ++ rest) = (pieceBytes? rest).map (bytes ++ ·)
  | [] => by cases h : pieceBytes? rest <;> simp [h]
  | b :: bytes => by
    rw [List.map_cons, List.cons_append, pieceBytes?, pieceBytes?_plain rest bytes]
    cases pieceBytes? rest <;> rfl

/-- The parts that a character is written as: they are read again, and have its bytes. -/
def IsWritten (c : Char) (written : List UInt8) (pieces : List Piece) : Prop :=
  (∀ tail, scanString (written ++ tail) = (scanString tail).map fun p => (pieces ++ p.1, p.2)) ∧
    ∀ rest, pieceBytes? (pieces ++ rest) = (pieceBytes? rest).map (String.utf8EncodeChar c ++ ·)

/-- A character escaped by one letter, as `\n`. -/
theorem isWritten_letter {letter b : UInt8} (hletter : letter ≠ 0x75)
    (hescaped : escaped? letter = some b) {c : Char} (hc : String.utf8EncodeChar c = [b]) :
    IsWritten c [0x5c, letter] [.byte b] := by
  refine ⟨fun tail => ?_, fun rest => ?_⟩
  · rw [List.cons_append, List.cons_append, List.nil_append, scanString.eq_def]
    dsimp only
    rw [if_neg (by decide), if_pos rfl, if_neg hletter, hescaped]
    cases scanString tail <;> rfl
  · rw [hc]
    exact pieceBytes?_plain rest [b]

theorem hexDigit?_char : ∀ d, d < 16 → hexDigit? (UInt8.ofNat (Hex.char d).toNat) = some d := by
  decide

theorem toNat_hexChar : ∀ d, d < 16 → (Hex.char d).toNat < 128 := by
  decide

/-- A control character escaped by its number, as `\u001f`. -/
theorem isWritten_number {c : Char} (hc : c.toNat < 32) :
    IsWritten c (Text.utf8 ['\\', 'u', '0', '0', Hex.char (c.toNat / 16), Hex.char (c.toNat % 16)])
      [.unit c.toNat] := by
  have hhigh : c.toNat / 16 < 16 := by omega
  have hlow : c.toNat % 16 < 16 := by omega
  have hwritten : Text.utf8 ['\\', 'u', '0', '0', Hex.char (c.toNat / 16),
      Hex.char (c.toNat % 16)] = [0x5c, 0x75, 0x30, 0x30,
        UInt8.ofNat (Hex.char (c.toNat / 16)).toNat,
        UInt8.ofNat (Hex.char (c.toNat % 16)).toNat] := by
    simp only [Text.utf8_cons, Text.utf8_nil,
      Text.utf8EncodeChar_of_ascii (toNat_hexChar _ hhigh),
      Text.utf8EncodeChar_of_ascii (toNat_hexChar _ hlow)]
    rfl
  have hunit : hexUnit? 0x30 0x30 (UInt8.ofNat (Hex.char (c.toNat / 16)).toNat)
      (UInt8.ofNat (Hex.char (c.toNat % 16)).toNat) = some c.toNat := by
    have hzero : hexDigit? 0x30 = some 0 := rfl
    unfold hexUnit?
    simp only [hzero, hexDigit?_char _ hhigh, hexDigit?_char _ hlow, Option.bind_eq_bind,
      Option.bind_some, Option.pure_def, Option.some.injEq]
    omega
  refine ⟨fun tail => ?_, fun rest => ?_⟩
  · rw [hwritten]
    simp only [List.cons_append, List.nil_append]
    rw [scanString.eq_def]
    dsimp only
    rw [if_neg (by decide), if_pos rfl, if_pos rfl, hunit]
    cases scanString tail <;> rfl
  · have hleading : isLeading c.toNat = false := by
      rw [isLeading, decide_eq_false_iff_not]
      omega
    have htrailing : isTrailing c.toNat = false := by
      rw [isTrailing, decide_eq_false_iff_not]
      omega
    rw [List.cons_append, List.nil_append, pieceBytes?.eq_def]
    dsimp only
    rw [hleading, htrailing, codePoint, Char.ofNat_toNat]
    cases pieceBytes? rest <;> rfl

/-- A character that is written as it is. -/
theorem isWritten_self {c : Char} (hquote : c ≠ '"') (hbackslash : c ≠ '\\') (hc : 32 ≤ c.toNat) :
    IsWritten c (String.utf8EncodeChar c) ((String.utf8EncodeChar c).map Piece.byte) := by
  have hplain : ∀ b ∈ String.utf8EncodeChar c, IsPlain b := by
    intro b hb
    by_cases hascii : c.toNat < 128
    · rw [Text.utf8EncodeChar_of_ascii hascii, List.mem_singleton] at hb
      subst hb
      have htoNat : (UInt8.ofNat c.toNat).toNat = c.toNat := by
        rw [UInt8.toNat_ofNat']
        omega
      have hne : ∀ d : Char, c ≠ d → c.toNat ≠ d.toNat := fun d hd h =>
        hd (by rw [← Char.ofNat_toNat c, h, Char.ofNat_toNat])
      have h1 := hne _ hquote
      have h2 := hne _ hbackslash
      refine ⟨fun h => h1 ?_, fun h => h2 ?_, fun h => ?_⟩
      · rw [← htoNat, h]
        rfl
      · rw [← htoNat, h]
        rfl
      · have : (UInt8.ofNat c.toNat).toNat < 32 := h
        omega
    · have hbyte := Text.le_of_mem_utf8EncodeChar (by omega) hb
      refine ⟨?_, ?_, fun h => ?_⟩
      · rintro rfl
        exact absurd hbyte (by decide)
      · rintro rfl
        exact absurd hbyte (by decide)
      · have : b.toNat < 32 := h
        omega
  exact ⟨fun tail => scanString_plain tail _ hplain, fun rest => pieceBytes?_plain rest _⟩

/-- However `escape` writes a character, it is read again. -/
theorem exists_pieces (c : Char) : ∃ pieces, IsWritten c (Text.utf8 (escape c)) pieces := by
  have hofNat : ∀ n, c.toNat = n → c = Char.ofNat n := fun n h => by
    rw [← h, Char.ofNat_toNat]
  unfold escape
  split
  · rename_i h
    subst h
    exact ⟨_, isWritten_letter (by decide) rfl rfl⟩
  split
  · rename_i h
    subst h
    exact ⟨_, isWritten_letter (by decide) rfl rfl⟩
  split
  · rename_i h
    rw [hofNat _ h]
    exact ⟨_, isWritten_letter (by decide) rfl rfl⟩
  split
  · rename_i h
    rw [hofNat _ h]
    exact ⟨_, isWritten_letter (by decide) rfl rfl⟩
  split
  · rename_i h
    rw [hofNat _ h]
    exact ⟨_, isWritten_letter (by decide) rfl rfl⟩
  split
  · rename_i h
    rw [hofNat _ h]
    exact ⟨_, isWritten_letter (by decide) rfl rfl⟩
  split
  · rename_i h
    rw [hofNat _ h]
    exact ⟨_, isWritten_letter (by decide) rfl rfl⟩
  split
  · rename_i h
    exact ⟨_, isWritten_number h⟩
  · rename_i hquote hbackslash _ _ _ _ _ hcontrol
    rw [Text.utf8_cons, Text.utf8_nil, List.append_nil]
    exact ⟨_, isWritten_self hquote hbackslash (by omega)⟩

/-! ### Whole strings -/

/-- A string in which nothing is escaped is written as it is. -/
theorem quoted_of_escape {s : String} (rest : List Char) (h : ∀ c ∈ s.toList, escape c = [c]) :
    quoted s rest = '"' :: (s.toList ++ '"' :: rest) := by
  unfold quoted
  congr 1
  revert h
  induction s.toList with
  | nil => exact fun _ => rfl
  | cons c cs ih =>
    intro h
    rw [List.forall_mem_cons] at h
    rw [List.foldr_cons, ih h.2, h.1]
    rfl

theorem scanString_escaped (rest : List Char) : ∀ cs : List Char, ∃ pieces,
    scanString (Text.utf8 (cs.foldr (fun c rest => escape c ++ rest) ('"' :: rest))) =
      some (pieces, Text.utf8 rest) ∧ pieceBytes? pieces = some (Text.utf8 cs)
  | [] => by
    refine ⟨[], ?_, rfl⟩
    have hquote : String.utf8EncodeChar '"' = [0x22] := rfl
    rw [List.foldr_nil, Text.utf8_cons, hquote, List.cons_append, List.nil_append,
      scanString.eq_def]
    dsimp only
    rw [if_pos rfl]
  | c :: cs => by
    obtain ⟨pieces, hscan, hbytes⟩ := scanString_escaped rest cs
    obtain ⟨first, hfirst, hfirstBytes⟩ := exists_pieces c
    refine ⟨first ++ pieces, ?_, ?_⟩
    · rw [List.foldr_cons, Text.utf8_append, hfirst, hscan]
      rfl
    · rw [hfirstBytes, hbytes]
      rfl

/-- **A string is read as it was written**: `scanString` undoes `quoted`. -/
theorem scanString_quoted (s : String) (rest : List Char) : ∃ tail pieces,
    Text.utf8 (quoted s rest) = 0x22 :: tail ∧ scanString tail = some (pieces, Text.utf8 rest) ∧
      pieceText? pieces = some s := by
  obtain ⟨pieces, hscan, hbytes⟩ := scanString_escaped rest s.toList
  refine ⟨_, pieces, rfl, hscan, ?_⟩
  rw [pieceText?, hbytes, Option.bind_eq_bind, Option.bind_some, Text.ofBytes?_utf8,
    String.ofList_toList]

end Json
end Covenant
