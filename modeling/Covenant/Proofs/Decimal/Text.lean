/-
# What is written of a decimal is read again

A decimal that is written has its mantissa as digits and the point where the
scale puts it; read again it is the same decimal, except that a zero has lost
its sign: `readPlain d.toChars = .ok d.normal`.

Key theorems: `Decimal.readPlain_toChars`, `Decimal.read_toText`,
`Decimal.toText_injective`.
-/
import Covenant.Decimal.Text
import Covenant.Proofs.Decimal.Normal
import Covenant.Proofs.Except
import Covenant.Proofs.Text.Digits

namespace Covenant
namespace Decimal

open Digits (extend)

/-! ### Digits -/

/-- The `digits` before the point extend the mantissa `m`. -/
theorem readDigits_whole : ∀ (digits rest : List Char) (seen : Bool) (m : Nat),
    (∀ c ∈ digits, Digits.isDigit c = true) → digits ≠ [] → extend m digits < limit →
    readDigits false seen m 0 (digits ++ rest) = readDigits false true (extend m digits) 0 rest
  | [], _, _, _, _, hne, _ => absurd rfl hne
  | c :: digits, rest, seen, m, hdigits, _, hlt => by
    have hc := Digits.digit?_of_isDigit (hdigits c List.mem_cons_self)
    rw [Digits.extend_cons, hc, Option.getD_some] at hlt ⊢
    have hle := Digits.le_extend digits (10 * m + (c.toNat - 48))
    rw [List.cons_append, readDigits, hc]
    simp only [Bool.false_and, Bool.false_eq_true, ↓reduceIte]
    rw [if_pos (by omega)]
    cases digits with
    | nil => rfl
    | cons c' digits =>
      exact readDigits_whole (c' :: digits) rest true _
        (fun x hx => hdigits x (List.mem_cons_of_mem _ hx)) (List.cons_ne_nil _ _) hlt

/-- The `digits` after the point extend the mantissa `m` and the scale `s`, as long as there are
places. -/
theorem readDigits_places : ∀ (digits : List Char) (m s : Nat),
    (∀ c ∈ digits, Digits.isDigit c = true) → extend m digits < limit → s + digits.length ≤ 28 →
    readDigits true true m s digits = .ok (extend m digits, s + digits.length)
  | [], m, s, _, _, _ => by
    rw [readDigits]
    rfl
  | c :: digits, m, s, hdigits, hlt, hscale => by
    have hc := Digits.digit?_of_isDigit (hdigits c List.mem_cons_self)
    rw [List.length_cons] at hscale ⊢
    rw [Digits.extend_cons, hc, Option.getD_some] at hlt ⊢
    have hle := Digits.le_extend digits (10 * m + (c.toNat - 48))
    have hplaces : ¬28 ≤ s := by omega
    rw [readDigits, hc]
    simp only [hplaces, decide_false, Bool.and_false, Bool.false_eq_true, ↓reduceIte]
    rw [if_pos (by omega), readDigits_places digits _ (s + 1)
      (fun x hx => hdigits x (List.mem_cons_of_mem _ hx)) hlt (by omega)]
    congr 2
    omega

/-- A point passes to the places. -/
theorem readDigits_point (m : Nat) (places : List Char) :
    readDigits false true m 0 ('.' :: places) = readDigits true true m 0 places := by
  have hpoint : Digits.digit? '.' = none := rfl
  rw [readDigits, hpoint]
  simp

/-! ### Decimals -/

/-- The digits of `d` that are written, the point left out. -/
def digits (d : Decimal) : List Char := Digits.padded (d.scale + 1) d.mantissa

/-- The `digits` before the point. -/
def whole (d : Decimal) : List Char := d.digits.take (d.digits.length - d.scale)

/-- The `digits` after the point. -/
def places (d : Decimal) : List Char := d.digits.drop (d.digits.length - d.scale)

theorem toChars_eq (d : Decimal) : d.toChars =
    (if d.negative then ['-'] else []) ++
      (d.whole ++ if d.scale = 0 then [] else '.' :: d.places) := by
  unfold toChars
  dsimp only
  rw [List.append_assoc]
  rfl

theorem length_digits (d : Decimal) : d.scale < d.digits.length := by
  rw [digits, Digits.length_padded]
  omega

theorem isDigit_of_mem_whole (d : Decimal) {c : Char} (hc : c ∈ d.whole) :
    Digits.isDigit c = true :=
  Digits.isDigit_of_mem_padded (List.mem_of_mem_take hc)

theorem isDigit_of_mem_places (d : Decimal) {c : Char} (hc : c ∈ d.places) :
    Digits.isDigit c = true :=
  Digits.isDigit_of_mem_padded (List.mem_of_mem_drop hc)

/-- A digit is written even before the point of a number below one. -/
theorem whole_ne_nil (d : Decimal) : d.whole ≠ [] := by
  have hlength := d.length_digits
  intro h
  have hnone := congrArg List.length h
  simp only [whole, List.length_take, List.length_nil] at hnone
  omega

theorem length_places (d : Decimal) : d.places.length = d.scale := by
  have hlength := d.length_digits
  rw [places, List.length_drop]
  omega

theorem extend_places (d : Decimal) : extend (extend 0 d.whole) d.places = d.mantissa := by
  rw [← Digits.extend_append, whole, places, List.take_append_drop]
  exact Digits.value_padded _ _

/-- The digits of `d`, with the point where its scale puts it, are read as its mantissa and its
scale. -/
theorem readDigits_digits (d : Decimal) :
    readDigits false false 0 0 (d.whole ++ if d.scale = 0 then [] else '.' :: d.places) =
      .ok (d.mantissa, d.scale) := by
  have hmantissa := d.mantissa_lt
  have hextend := d.extend_places
  have hlength := d.length_places
  have hle := Digits.le_extend d.places (extend 0 d.whole)
  have hwhole : extend 0 d.whole < limit := by omega
  rw [readDigits_whole _ _ _ _ (fun c hc => d.isDigit_of_mem_whole hc) d.whole_ne_nil hwhole]
  by_cases hscale : d.scale = 0
  · have hplaces : d.places = [] := List.eq_nil_of_length_eq_zero (hlength.trans hscale)
    rw [hplaces] at hextend
    have hmantissa' : extend 0 d.whole = d.mantissa := hextend
    rw [if_pos hscale, hscale, hmantissa']
    rfl
  · have hbound : 0 + d.places.length ≤ 28 := by
      have := d.scale_le
      omega
    have hread := readDigits_places d.places _ 0 (fun c hc => d.isDigit_of_mem_places hc)
      (hextend ▸ hmantissa) hbound
    rw [if_neg hscale, readDigits_point, hread, hextend, hlength, Nat.zero_add]

theorem ofUnsignedZero?_normal (d : Decimal) :
    ofUnsignedZero? d.negative d.mantissa d.scale = some d.normal := by
  rw [ofUnsignedZero?, of?, dif_pos ⟨d.mantissa_lt, d.scale_le⟩]
  rfl

/-- A sign in front of digits is read as the sign of the number. -/
theorem readPlain_of_digit (negative : Bool) {c : Char} {rest : List Char} {m s : Nat} {d : Decimal}
    (hc : Digits.isDigit c = true) (hread : readDigits false false 0 0 (c :: rest) = .ok (m, s))
    (hd : ofUnsignedZero? negative m s = some d) :
    readPlain ((if negative then ['-'] else []) ++ c :: rest) = .ok d := by
  have hminus : c ≠ '-' := by rintro rfl; cases hc
  have hplus : c ≠ '+' := by rintro rfl; cases hc
  cases negative with
  | true =>
    refine bind_eq_ok.mpr ⟨(true, c :: rest), rfl, bind_eq_ok.mpr ⟨(m, s), hread, ?_⟩⟩
    dsimp only
    rw [hd]
  | false =>
    rw [if_neg Bool.false_ne_true, List.nil_append]
    unfold readPlain
    split
    · rename_i h; cases h
    · rename_i h; cases h; exact absurd rfl hminus
    · rename_i h; cases h; exact absurd rfl hplus
    · refine bind_eq_ok.mpr ⟨(false, c :: rest), rfl, bind_eq_ok.mpr ⟨(m, s), hread, ?_⟩⟩
      dsimp only
      rw [hd]

/-- **What is written of a decimal is read again**, but for the sign of zero: as `d.normal`. -/
theorem readPlain_toChars (d : Decimal) : readPlain d.toChars = .ok d.normal := by
  have hread := d.readDigits_digits
  obtain ⟨c, rest, hcons⟩ := List.exists_cons_of_ne_nil d.whole_ne_nil
  have hc : Digits.isDigit c = true := by
    apply d.isDigit_of_mem_whole
    rw [hcons]
    exact List.mem_cons_self
  rw [toChars_eq]
  rw [hcons] at hread ⊢
  exact readPlain_of_digit d.negative hc hread d.ofUnsignedZero?_normal

theorem read_toText (d : Decimal) : read d.toText = .ok d.normal := by
  rw [read, toText, String.toList_ofList, readPlain_toChars]

/-- A decimal is written with a minus sign in front exactly if it has one. -/
theorem head?_toChars (d : Decimal) : d.toChars.head? = some '-' ↔ d.negative = true := by
  obtain ⟨c, rest, hcons⟩ := List.exists_cons_of_ne_nil d.whole_ne_nil
  have hc : Digits.isDigit c = true := by
    apply d.isDigit_of_mem_whole
    rw [hcons]
    exact List.mem_cons_self
  have hminus : c ≠ '-' := by rintro rfl; cases hc
  rw [toChars_eq, hcons]
  cases d.negative with
  | true => simp
  | false => simp [hminus]

/-- **What is written of a decimal determines it**, its sign and its scale included. -/
theorem toText_injective : Function.Injective toText := by
  intro d d' h
  have hchars : d.toChars = d'.toChars := String.ofList_injective h
  have hread := d.readPlain_toChars
  rw [hchars, readPlain_toChars] at hread
  have hnormal : d'.normal = d.normal := Except.ok.inj hread
  have hsign : d'.negative = d.negative := by
    rw [Bool.eq_iff_iff, ← head?_toChars, ← head?_toChars, hchars]
  obtain ⟨n, m, s, hm, hs⟩ := d
  obtain ⟨n', m', s', hm', hs'⟩ := d'
  simp only [normal, mk.injEq] at hnormal
  obtain ⟨-, rfl, rfl⟩ := hnormal
  exact mk.injEq .. |>.mpr ⟨hsign.symm, rfl, rfl⟩

end Decimal
end Covenant
