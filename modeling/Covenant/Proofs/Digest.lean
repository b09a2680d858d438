/-
# Digests and their texts

`Digest.read` has a text as a digest exactly if it is sixty-four hexadecimal
digits, and it is then the text of that digest but for the case of its letters;
every other text is refused with itself in the error. `d.toText` and its form in
JSON give the digest back, so a digest has one text in lower case, and no text
stands for two digests.

Key definitions: `Digest.IsText`.
Key theorems: `Digest.read_toText`, `Digest.toText_injective`,
`Digest.read_eq_ok`, `Digest.texts_read_strictly`.
-/
import Covenant.Proofs.Canonical.Fields
import Covenant.Proofs.Json.Reader
import Covenant.Canonical.Arrangement
import Covenant.Proofs.Text.Hex
import Covenant.Text.Blank

namespace Covenant
namespace Digest

/-- Sixty-four characters with `Hex.IsDigit`, in whatever case. -/
def IsText (s : String) : Prop := s.toList.length = 64 ∧ ∀ c ∈ s.toList, Hex.IsDigit c

/-! ### Writing -/

/-- **The text of a digest gives the digest back**: `read` undoes `toText`. -/
theorem read_toText (d : Digest) : read d.toText = .ok d := by
  rw [read, toText, String.toList_ofList, toChars, Hex.bytes?_ofBytes]
  exact dif_pos d.length_bytes

theorem toText_injective : Function.Injective toText := by
  intro d d' h
  have hread := read_toText d
  rw [h, read_toText] at hread
  exact (Except.ok.inj hread).symm

/-! ### Reading -/

/-- What `read` has is the digest of these digits, but for the case. -/
theorem isText_of_read {s : String} {d : Digest} (h : read s = .ok d) :
    IsText s ∧ d.toText = Text.lower s := by
  unfold read at h
  split at h
  · rename_i bytes hbytes
    split at h
    · rename_i hlength
      cases h
      have hlower := Hex.ofBytes_of_bytes? hbytes
      have hcount : s.toList.length = 64 := by
        rw [← List.length_map Char.toLower, ← hlower, Hex.length_ofBytes, hlength]
      obtain ⟨-, hdigits⟩ := Hex.isSome_bytes?.mp (Option.isSome_of_eq_some hbytes)
      exact ⟨⟨hcount, hdigits⟩, congrArg String.ofList hlower⟩
    · cases h
  · cases h

/-- `read` refuses no text with sixty-four digits. -/
theorem exists_read {s : String} (h : IsText s) : ∃ d, read s = .ok d := by
  have heven : s.toList.length % 2 = 0 := by rw [h.1]
  obtain ⟨bytes, hbytes⟩ := Option.isSome_iff_exists.mp (Hex.isSome_bytes?.mpr ⟨heven, h.2⟩)
  have hlength : bytes.length = 32 := by
    have hcount := congrArg List.length (Hex.ofBytes_of_bytes? hbytes)
    rw [Hex.length_ofBytes, List.length_map, h.1] at hcount
    omega
  refine ⟨⟨bytes, hlength⟩, ?_⟩
  rw [read, hbytes]
  exact dif_pos hlength

/-- **What is read as a digest** is its text, the letters in whatever case. -/
theorem read_eq_ok {s : String} {d : Digest} :
    read s = .ok d ↔ IsText s ∧ d.toText = Text.lower s := by
  constructor
  · exact isText_of_read
  · rintro ⟨hs, hlower⟩
    obtain ⟨d', hread⟩ := exists_read hs
    have heq : d.toText = d'.toText := hlower.trans (isText_of_read hread).2.symm
    rw [toText_injective heq]
    exact hread

/-- Whatever is refused is in the `Unreadable`. -/
theorem eq_of_read_eq_error {s : String} {e : Unreadable} (h : read s = .error e) : e = ⟨s⟩ := by
  unfold read at h
  split at h
  · split at h
    · cases h
    · cases h
      rfl
  · cases h
    rfl

/-- **What is refused** is every text but those of digests. -/
theorem read_eq_error {s : String} {e : Unreadable} :
    read s = .error e ↔ ¬IsText s ∧ e = ⟨s⟩ := by
  constructor
  · intro h
    refine ⟨fun hs => ?_, eq_of_read_eq_error h⟩
    obtain ⟨d, hread⟩ := exists_read hs
    cases h.symm.trans hread
  · rintro ⟨hs, rfl⟩
    cases hread : read s with
    | ok d => exact absurd (isText_of_read hread).1 hs
    | error e => rw [eq_of_read_eq_error hread]

/-- The bytes of a text tell as well as its characters whether `IsText` holds of it. -/
theorem isText_iff_bytes {s : String} : IsText s ↔ (Text.bytes s).length = 64 ∧
    ∀ b ∈ Text.bytes s, Hex.IsDigit (Char.ofNat b.toNat) := by
  have hbytes : Text.bytes s = Text.utf8 s.toList := by
    rw [← Text.bytes_ofList, String.ofList_toList]
  rw [hbytes, Hex.forall_isDigit_utf8]
  exact and_congr_left fun hdigits => by rw [Hex.length_utf8_of_isDigit hdigits]

/-! ### JSON -/

theorem escape_of_isDigit {c : Char} (h : Hex.IsDigit c) : Json.escape c = [c] := by
  have hascii : ∀ n < 128, Hex.IsDigit (Char.ofNat n) →
      Json.escape (Char.ofNat n) = [Char.ofNat n] := by decide
  have hc := hascii c.toNat h.toNat_lt
  rw [Char.ofNat_toNat] at hc
  exact hc h

/-- The form in JSON is `d.toText` between quotes. -/
theorem compact_toJson (d : Digest) : d.toJson.compact = "\"" ++ d.toText ++ "\"" := by
  obtain ⟨⟨-, hdigits⟩, -⟩ := isText_of_read d.read_toText
  have hquoted := Json.quoted_of_escape [] fun c hc => escape_of_isDigit (hdigits c hc)
  apply String.toList_injective
  show (String.ofList (Json.quoted d.toText [])).toList = _
  rw [hquoted]
  simp

/-- **The form in JSON gives the digest back**, in either `layout`. -/
theorem ofJson?_text (layout : Json.Layout) (d : Digest) :
    (Json.read? (Text.bytes (d.toJson.text layout))).bind ofJson? = some d := by
  have hplain : d.toJson.Plain := Json.plain_string d.toText
  rw [Json.read?_text_of_depth_le layout hplain (Nat.zero_le _)]
  show (read d.toText).toOption = some d
  rw [read_toText]
  rfl

/-- **Texts of digests are read strictly.** `Digest.read` has a text exactly if `IsText` holds of
it, sixty-four hexadecimal digits, counted in characters or in bytes: as the one digest `d` with
`d.toText` the text in lower case. Every other text is refused with itself in the error. `d.toJson`
is that text between quotes; and text and JSON of a digest are read as the digest. -/
theorem texts_read_strictly :
    (∀ s, (∃ d, read s = .ok d) ↔ IsText s) ∧
    (∀ s, IsText s ↔ (Text.bytes s).length = 64 ∧
      ∀ b ∈ Text.bytes s, Hex.IsDigit (Char.ofNat b.toNat)) ∧
    (∀ s d, read s = .ok d ↔ IsText s ∧ d.toText = Text.lower s) ∧
    (∀ s e, read s = .error e ↔ ¬IsText s ∧ e = ⟨s⟩) ∧
    (∀ d : Digest, d.toJson.compact = "\"" ++ d.toText ++ "\"") ∧
    (∀ d : Digest, read d.toText = .ok d) ∧
    ∀ (d : Digest) (layout : Json.Layout),
      (Json.read? (Text.bytes (d.toJson.text layout))).bind ofJson? = some d := by
  refine ⟨fun s => ?_, fun s => ?_, fun s d => ?_, fun s e => ?_, fun d => ?_, fun d => ?_,
    fun d layout => ?_⟩
  · exact ⟨fun ⟨_, h⟩ => (isText_of_read h).1, exists_read⟩
  · exact isText_iff_bytes
  · exact read_eq_ok
  · exact read_eq_error
  · exact d.compact_toJson
  · exact d.read_toText
  · exact ofJson?_text layout d

end Digest
end Covenant
