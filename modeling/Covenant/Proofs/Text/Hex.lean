/-
# Bytes and their hexadecimal digits

Bytes are found again from their digits, `bytes? (ofBytes bytes) = some bytes`.
A text stands for bytes exactly if it is an even number of hexadecimal digits,
in whatever case, and these are then the digits of the bytes but for the case.
It makes no difference whether a text is looked at character by character or
byte by byte, since no byte of a longer character is a digit.

Key definitions: `Hex.IsDigit`.
Key theorems: `Hex.isSome_digit?`, `Hex.bytes?_ofBytes`,
`Hex.ofBytes_of_bytes?`, `Hex.isSome_bytes?`, `Hex.forall_isDigit_utf8`.
-/
import Covenant.Proofs.Text.Utf8
import Covenant.Text.Hex

namespace Covenant
namespace Hex

/-! ### Single digits -/

/-- A hexadecimal digit, in either case. -/
def IsDigit (c : Char) : Prop :=
  ('0' ≤ c ∧ c ≤ '9') ∨ ('a' ≤ c ∧ c ≤ 'f') ∨ ('A' ≤ c ∧ c ≤ 'F')

instance : DecidablePred IsDigit := fun _ => inferInstanceAs (Decidable (_ ∨ _ ∨ _))

theorem isDigit_iff {c : Char} : IsDigit c ↔ (48 ≤ c.toNat ∧ c.toNat ≤ 57) ∨
    (97 ≤ c.toNat ∧ c.toNat ≤ 102) ∨ (65 ≤ c.toNat ∧ c.toNat ≤ 70) := Iff.rfl

theorem isSome_digit? {c : Char} : (digit? c).isSome ↔ IsDigit c := by
  rw [isDigit_iff]
  unfold digit?
  dsimp only
  split
  · simp_all
  split
  · simp_all
  split <;> simp_all

theorem IsDigit.toNat_lt {c : Char} (h : IsDigit c) : c.toNat < 128 := by
  rw [isDigit_iff] at h
  omega

theorem digit?_char : ∀ d < 16, digit? (char d) = some d := by
  decide

/-- `digit?_eq_some` for ASCII characters, which are few enough to decide it. -/
theorem digits_ascii : ∀ n < 128,
    (digit? (Char.ofNat n)).all fun d => d < 16 ∧ char d = (Char.ofNat n).toLower := by
  decide

/-- The digit `d` is below sixteen, and `char d` is the character it was read from, in lower
case. -/
theorem digit?_eq_some {c : Char} {d : Nat} (h : digit? c = some d) :
    d < 16 ∧ char d = c.toLower := by
  have hdigit : IsDigit c := isSome_digit?.mp (h ▸ rfl)
  have hall := digits_ascii c.toNat hdigit.toNat_lt
  rw [Char.ofNat_toNat, h] at hall
  simpa using hall

/-! ### Bytes -/

theorem bytes?_cons_eq_some {high low : Char} {cs : List Char} {bytes : List UInt8} :
    bytes? (high :: low :: cs) = some bytes ↔ ∃ x y rest, digit? high = some x ∧
      digit? low = some y ∧ bytes? cs = some rest ∧ UInt8.ofNat (16 * x + y) :: rest = bytes := by
  simp [bytes?, Option.bind_eq_some_iff]

theorem ofBytes_cons (b : UInt8) (bytes : List UInt8) :
    ofBytes (b :: bytes) = char (b.toNat / 16) :: char (b.toNat % 16) :: ofBytes bytes := rfl

theorem length_ofBytes : ∀ bytes : List UInt8, (ofBytes bytes).length = 2 * bytes.length
  | [] => rfl
  | b :: bytes => by
    rw [ofBytes_cons, List.length_cons, List.length_cons, length_ofBytes bytes, List.length_cons]
    omega

/-- **Bytes are found again from their digits.** -/
theorem bytes?_ofBytes : ∀ bytes : List UInt8, bytes? (ofBytes bytes) = some bytes
  | [] => rfl
  | b :: bytes => by
    have hbyte := b.toNat_lt
    have hvalue : 16 * (b.toNat / 16) + b.toNat % 16 = b.toNat := Nat.div_add_mod _ _
    refine bytes?_cons_eq_some.mpr ⟨_, _, _, digit?_char _ (by omega), digit?_char _ (by omega),
      bytes?_ofBytes bytes, ?_⟩
    rw [hvalue, UInt8.ofNat_toNat]

/-- **The digits that are read are those of the bytes**, but for the case. -/
theorem ofBytes_of_bytes? : ∀ {cs : List Char} {bytes : List UInt8}, bytes? cs = some bytes →
    ofBytes bytes = cs.map Char.toLower
  | [], bytes, h => by
    cases h
    rfl
  | [_], bytes, h => by cases h
  | high :: low :: cs, bytes, h => by
    obtain ⟨x, y, rest, hx, hy, hrest, rfl⟩ := bytes?_cons_eq_some.mp h
    obtain ⟨hx, hhigh⟩ := digit?_eq_some hx
    obtain ⟨hy, hlow⟩ := digit?_eq_some hy
    have hbyte : (UInt8.ofNat (16 * x + y)).toNat = 16 * x + y := by
      rw [UInt8.toNat_ofNat']
      omega
    have hquotient : (16 * x + y) / 16 = x := by omega
    have hremainder : (16 * x + y) % 16 = y := by omega
    rw [ofBytes_cons, hbyte, hquotient, hremainder, hhigh, hlow, ofBytes_of_bytes? hrest]
    rfl

theorem isSome_bytes?_cons {high low : Char} {cs : List Char} :
    (bytes? (high :: low :: cs)).isSome ↔
      (digit? high).isSome ∧ (digit? low).isSome ∧ (bytes? cs).isSome := by
  simp only [Option.isSome_iff_exists, bytes?_cons_eq_some]
  constructor
  · rintro ⟨_, x, y, rest, hx, hy, hrest, -⟩
    exact ⟨⟨x, hx⟩, ⟨y, hy⟩, ⟨rest, hrest⟩⟩
  · rintro ⟨⟨x, hx⟩, ⟨y, hy⟩, ⟨rest, hrest⟩⟩
    exact ⟨_, x, y, rest, hx, hy, hrest, rfl⟩

/-- **What stands for bytes**: digits, two for each. -/
theorem isSome_bytes? : ∀ {cs : List Char},
    (bytes? cs).isSome ↔ cs.length % 2 = 0 ∧ ∀ c ∈ cs, IsDigit c
  | [] => by simp [bytes?]
  | [_] => by simp [bytes?]
  | high :: low :: cs => by
    have hlength : (high :: low :: cs).length % 2 = cs.length % 2 := by
      simp only [List.length_cons]
      omega
    rw [isSome_bytes?_cons, isSome_digit?, isSome_digit?, isSome_bytes?, hlength,
      List.forall_mem_cons, List.forall_mem_cons]
    constructor
    · rintro ⟨hhigh, hlow, heven, hcs⟩
      exact ⟨heven, hhigh, hlow, hcs⟩
    · rintro ⟨heven, hhigh, hlow, hcs⟩
      exact ⟨hhigh, hlow, heven, hcs⟩

/-! ### Digits as bytes of a text -/

/-- No byte of a longer character looks like a digit. -/
theorem not_isDigit_byte : ∀ n < 256, 128 ≤ n → ¬IsDigit (Char.ofNat n) := by
  decide +kernel

/-- A character is a digit exactly if all of its bytes are. -/
theorem isDigit_utf8EncodeChar {c : Char} :
    (∀ b ∈ String.utf8EncodeChar c, IsDigit (Char.ofNat b.toNat)) ↔ IsDigit c := by
  by_cases hascii : c.toNat < 128
  · have hbyte : Char.ofNat (UInt8.ofNat c.toNat).toNat = c := by
      rw [UInt8.toNat_ofNat', Nat.mod_eq_of_lt (by omega), Char.ofNat_toNat]
    rw [Text.utf8EncodeChar_of_ascii hascii, List.forall_mem_singleton, hbyte]
  · refine iff_of_false (fun h => ?_) fun h => hascii h.toNat_lt
    obtain ⟨b, hb⟩ := List.exists_mem_of_ne_nil _ (String.utf8EncodeChar_ne_nil (c := c))
    have hlarge := Text.le_of_mem_utf8EncodeChar (Nat.le_of_not_lt hascii) hb
    exact not_isDigit_byte b.toNat b.toNat_lt hlarge (h b hb)

/-- **Digit by digit or byte by byte**: the characters are digits exactly if the bytes are. -/
theorem forall_isDigit_utf8 {cs : List Char} :
    (∀ b ∈ Text.utf8 cs, IsDigit (Char.ofNat b.toNat)) ↔ ∀ c ∈ cs, IsDigit c := by
  induction cs with
  | nil => simp
  | cons c cs ih =>
    rw [Text.utf8_cons, List.forall_mem_append, isDigit_utf8EncodeChar, ih, List.forall_mem_cons]

theorem length_utf8_of_isDigit {cs : List Char} (h : ∀ c ∈ cs, IsDigit c) :
    (Text.utf8 cs).length = cs.length := by
  induction cs with
  | nil => rfl
  | cons c cs ih =>
    rw [List.forall_mem_cons] at h
    rw [Text.utf8_cons, Text.utf8EncodeChar_of_ascii h.1.toNat_lt, List.singleton_append,
      List.length_cons, ih h.2, List.length_cons]

end Hex
end Covenant
