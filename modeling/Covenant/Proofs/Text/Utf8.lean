/-
# Text as bytes

The bytes of a text are those of its characters one after the other,
`Text.utf8`, and a text is found again from its bytes. An ASCII character is one
byte below 128, any other character is bytes from 128 on.

Key definitions: `Text.utf8`.
Key theorems: `Text.bytes_ofList`, `Text.ofBytes?_utf8`,
`Text.bytes_injective`, `Text.utf8EncodeChar_of_ascii`,
`Text.le_of_mem_utf8EncodeChar`.
-/
import Covenant.Text.Bytes

namespace Covenant
namespace Text

/-- The bytes of the characters `cs`, one character after the other. -/
def utf8 (cs : List Char) : List UInt8 := cs.flatMap String.utf8EncodeChar

@[simp] theorem utf8_nil : utf8 [] = [] := rfl

@[simp] theorem utf8_cons (c : Char) (cs : List Char) :
    utf8 (c :: cs) = String.utf8EncodeChar c ++ utf8 cs := rfl

@[simp] theorem utf8_append (cs cs' : List Char) : utf8 (cs ++ cs') = utf8 cs ++ utf8 cs' :=
  List.flatMap_append

/-! ### Texts and byte arrays -/

theorem toList_loop (bytes : ByteArray) (i : Nat) (before : List UInt8) :
    ByteArray.toList.loop bytes i before = before.reverse ++ bytes.data.toList.drop i := by
  induction i, before using ByteArray.toList.loop.induct bytes with
  | case1 i before hi ih =>
    have hlength : i < bytes.data.toList.length := by simpa using hi
    have hget : bytes.get! i = bytes.data.toList[i] := by simp [ByteArray.get!, hi]
    rw [ByteArray.toList.loop, if_pos hi, ih, hget]
    conv =>
      rhs
      rw [List.drop_eq_getElem_cons hlength]
    simp
  | case2 i before hi =>
    have hlength : bytes.data.toList.length ≤ i := by simpa using Nat.le_of_not_lt hi
    rw [ByteArray.toList.loop, if_neg hi, List.drop_eq_nil_of_le hlength, List.append_nil]

theorem toList_toByteArray (bytes : List UInt8) : bytes.toByteArray.toList = bytes := by
  rw [ByteArray.toList, toList_loop, List.toList_data_toByteArray]
  simp

theorem bytes_ofList (cs : List Char) : bytes (String.ofList cs) = utf8 cs := by
  rw [bytes, String.toUTF8_eq_toByteArray, String.toByteArray_ofList]
  exact toList_toByteArray _

theorem mk_toArray (bytes : List UInt8) : ByteArray.mk bytes.toArray = bytes.toByteArray := by
  ext1
  rw [List.data_toByteArray]

/-- A text is found from the bytes of its characters. -/
theorem ofBytes?_utf8 (cs : List Char) : ofBytes? (utf8 cs) = some (String.ofList cs) := by
  have hbytes : (ByteArray.mk (utf8 cs).toArray) = cs.utf8Encode := mk_toArray _
  have hvalid : (ByteArray.mk (utf8 cs).toArray).IsValidUTF8 := ⟨cs, hbytes⟩
  rw [ofBytes?, String.fromUTF8?, dif_pos hvalid]
  congr 1
  rw [← String.toByteArray_inj, String.toByteArray_ofList, ← hbytes]
  rfl

/-- The bytes of a text determine it. -/
theorem bytes_injective : Function.Injective bytes := by
  have hread : ∀ s : String, ofBytes? (bytes s) = some s := fun s => by
    have hs := ofBytes?_utf8 s.toList
    rwa [← bytes_ofList, String.ofList_toList] at hs
  intro s s' h
  have hs := hread s
  rw [h, hread s'] at hs
  exact (Option.some.inj hs).symm

/-! ### Single characters -/

theorem utf8EncodeChar_of_ascii {c : Char} (h : c.toNat < 128) :
    String.utf8EncodeChar c = [UInt8.ofNat c.toNat] := by
  have hle : c.val.toNat ≤ 0x7f := by
    have : c.toNat = c.val.toNat := rfl
    omega
  rw [String.utf8EncodeChar]
  exact if_pos hle

/-- No byte of a character that is not ASCII looks like one that is. -/
theorem le_of_mem_utf8EncodeChar {c : Char} (h : 128 ≤ c.toNat) {b : UInt8}
    (hb : b ∈ String.utf8EncodeChar c) : 128 ≤ b.toNat := by
  have hgt : ¬c.val.toNat ≤ 0x7f := by
    have : c.toNat = c.val.toNat := rfl
    omega
  have hbyte : ∀ n : Nat, 128 ≤ n % 256 → 128 ≤ (UInt8.ofNat n).toNat := fun n hn => by
    rwa [UInt8.toNat_ofNat']
  unfold String.utf8EncodeChar at hb
  simp only [hgt, ↓reduceIte] at hb
  split at hb
  · simp only [List.mem_cons, List.not_mem_nil, or_false] at hb
    rcases hb with rfl | rfl <;> exact hbyte _ (by omega)
  split at hb
  · simp only [List.mem_cons, List.not_mem_nil, or_false] at hb
    rcases hb with rfl | rfl | rfl <;> exact hbyte _ (by omega)
  · simp only [List.mem_cons, List.not_mem_nil, or_false] at hb
    rcases hb with rfl | rfl | rfl | rfl <;> exact hbyte _ (by omega)

end Text
end Covenant
