/-
# What is written of a date is read again

A date in the form with hyphens is the same date when it is read,
`readIso? d.isoText = some d`, whatever its year: four digits without a sign, or
a sign and as many digits as it takes.

Key definitions: `Date.YearForm`, `Date.IsShort`.
Key theorems: `Date.scanNumber_digits`, `Date.yearForm_yearChars`,
`Date.scanYear_of_form`, `Date.scanNumber_short`, `Date.readIso?_isoText`.
-/
import Covenant.Calendar.Text
import Covenant.Proofs.Calendar.DayNumber
import Covenant.Proofs.Text.Digits

namespace Covenant
namespace Date

theorem dropWhile_digit {c : Char} (h : Digits.isDigit c = true) (rest : List Char) :
    (c :: rest).dropWhile Text.isBlank = c :: rest := by
  rw [List.dropWhile_cons_of_neg (by simp [Digits.isBlank_of_isDigit h])]

/-- At most `most` digits are read as their number, up to what is no digit. -/
theorem scanNumber_digits {most : Option Nat} {digits rest : List Char}
    (hdigits : ∀ c ∈ digits, Digits.isDigit c = true) (hne : digits ≠ [])
    (hmost : ∀ n, most = some n → digits.length ≤ n)
    (hrest : ∀ c cs, rest = c :: cs → Digits.isDigit c = false) :
    scanNumber most (digits ++ rest) = some (Digits.value digits, rest) := by
  have hblank : (digits ++ rest).dropWhile Text.isBlank = digits ++ rest := by
    obtain ⟨c, cs, rfl⟩ := List.exists_cons_of_ne_nil hne
    exact dropWhile_digit (hdigits c List.mem_cons_self) _
  have hrun : (digits ++ rest).takeWhile Digits.isDigit = digits := by
    rw [List.takeWhile_append_of_pos hdigits]
    cases rest with
    | nil => simp
    | cons c cs => rw [List.takeWhile_cons_of_neg (by simp [hrest c cs rfl]), List.append_nil]
  unfold scanNumber
  dsimp only
  rw [hblank, hrun]
  cases most with
  | none => simp [hne]
  | some n =>
    have htake : digits.take n = digits := List.take_of_length_le (hmost n rfl)
    simp [htake, hne]

theorem not_digit_cons {c : Char} (hc : Digits.isDigit c = false) (rest : List Char) :
    ∀ d cs, c :: rest = d :: cs → Digits.isDigit d = false := by
  rintro d cs h
  cases h
  exact hc

theorem not_digit_nil : ∀ c cs, ([] : List Char) = c :: cs → Digits.isDigit c = false := by
  rintro c cs ⟨⟩

/-! ### Years -/

/-- The forms in which a year is read: up to four digits, or a sign and any number of digits. -/
inductive YearForm : List Char → Int → Prop where
  | short {digits : List Char} : (∀ c ∈ digits, Digits.isDigit c = true) → digits ≠ [] →
      digits.length ≤ 4 → YearForm digits (Digits.value digits)
  | plus {digits : List Char} : (∀ c ∈ digits, Digits.isDigit c = true) → digits ≠ [] →
      YearForm ('+' :: digits) (Digits.value digits)
  | minus {digits : List Char} : (∀ c ∈ digits, Digits.isDigit c = true) → digits ≠ [] →
      YearForm ('-' :: digits) (-(Digits.value digits : Int))

theorem length_padded_year {year : Int} (h : 0 ≤ year ∧ year ≤ 9999) :
    (Digits.padded 4 year.natAbs).length = 4 :=
  Digits.length_padded_of_lt (by decide) (show year.natAbs < 10000 by omega)

/-- A year is written in one of these forms. -/
theorem yearForm_yearChars (year : Int) : YearForm (yearChars year) year := by
  have hdigits : ∀ c ∈ Digits.padded 4 year.natAbs, Digits.isDigit c = true := fun c hc =>
    Digits.isDigit_of_mem_padded hc
  have hne := Digits.padded_ne_nil 4 year.natAbs
  unfold yearChars
  by_cases hyear : 0 ≤ year ∧ year ≤ 9999
  · rw [if_pos hyear]
    have hform := YearForm.short hdigits hne (Nat.le_of_eq (length_padded_year hyear))
    rwa [Digits.value_padded, show ((year.natAbs : Nat) : Int) = year by omega] at hform
  · rw [if_neg hyear]
    by_cases hneg : year < 0
    · rw [if_pos hneg]
      have hform := YearForm.minus hdigits hne
      rwa [Digits.value_padded, show -((year.natAbs : Nat) : Int) = year by omega] at hform
    · rw [if_neg hneg]
      have hform := YearForm.plus hdigits hne
      rwa [Digits.value_padded, show ((year.natAbs : Nat) : Int) = year by omega] at hform

theorem scanYear_minus (cs : List Char) : scanYear ('-' :: cs) =
    if cs.head?.any Digits.isDigit then
      (scanNumber none cs).map fun p => (-(p.1 : Int), p.2) else none := rfl

theorem scanYear_plus (cs : List Char) : scanYear ('+' :: cs) =
    if cs.head?.any Digits.isDigit then
      (scanNumber none cs).map fun p => ((p.1 : Int), p.2) else none := rfl

theorem scanYear_digit {c : Char} (hc : Digits.isDigit c = true) (cs : List Char) :
    scanYear (c :: cs) = (scanNumber (some 4) (c :: cs)).map fun p => ((p.1 : Int), p.2) := by
  unfold scanYear
  rw [dropWhile_digit hc]
  split
  · rename_i h; cases h; cases hc
  · rename_i h; cases h; cases hc
  · rfl

/-- A year is read by `scanYear` in each of its forms, up to what is no digit. -/
theorem scanYear_of_form {cs rest : List Char} {year : Int} (h : YearForm cs year)
    (hrest : ∀ c tail, rest = c :: tail → Digits.isDigit c = false) :
    scanYear (cs ++ rest) = some (year, rest) := by
  have hhead : ∀ {digits : List Char}, (∀ c ∈ digits, Digits.isDigit c = true) → digits ≠ [] →
      (digits ++ rest).head?.any Digits.isDigit = true := fun hdigits hne => by
    obtain ⟨c, tail, rfl⟩ := List.exists_cons_of_ne_nil hne
    exact hdigits c List.mem_cons_self
  cases h with
  | short hdigits hne hlength =>
    have hread := @scanNumber_digits (some 4) _ _ hdigits hne (by rintro n ⟨⟩; exact hlength) hrest
    obtain ⟨c, tail, rfl⟩ := List.exists_cons_of_ne_nil hne
    rw [List.cons_append] at hread ⊢
    rw [scanYear_digit (hdigits c List.mem_cons_self), hread]
    rfl
  | plus hdigits hne =>
    rw [List.cons_append, scanYear_plus, if_pos (hhead hdigits hne),
      scanNumber_digits hdigits hne (by rintro n ⟨⟩) hrest]
    rfl
  | minus hdigits hne =>
    rw [List.cons_append, scanYear_minus, if_pos (hhead hdigits hne),
      scanNumber_digits hdigits hne (by rintro n ⟨⟩) hrest]
    rfl

/-! ### Days and months -/

/-- One or two digits. -/
structure IsShort (cs : List Char) : Prop where
  digits : ∀ c ∈ cs, Digits.isDigit c = true
  ne_nil : cs ≠ []
  length_le : cs.length ≤ 2

theorem isShort_of_length {cs : List Char} (hcs : ∀ c ∈ cs, Digits.isDigit c = true)
    (h : cs.length = 2) : IsShort cs :=
  ⟨hcs, List.ne_nil_of_length_pos (h ▸ Nat.two_pos), Nat.le_of_eq h⟩

theorem isShort_padded {n : Nat} (hn : n < 100) : IsShort (Digits.padded 2 n) :=
  isShort_of_length (fun _ hc => Digits.isDigit_of_mem_padded hc)
    (Digits.length_padded_of_lt (by decide) hn)

/-- One or two digits are read as their number, up to what is no digit. -/
theorem scanNumber_short {cs rest : List Char} (h : IsShort cs)
    (hrest : ∀ c tail, rest = c :: tail → Digits.isDigit c = false) :
    scanNumber (some 2) (cs ++ rest) = some (Digits.value cs, rest) :=
  scanNumber_digits h.digits h.ne_nil (by rintro n ⟨⟩; exact h.length_le) hrest

/-- Two digits are read as the number `n` that is written with them. -/
theorem scanNumber_two {n : Nat} (hn : n < 100) {rest : List Char}
    (hrest : ∀ c tail, rest = c :: tail → Digits.isDigit c = false) :
    scanNumber (some 2) (Digits.padded 2 n ++ rest) = some (n, rest) := by
  rw [scanNumber_short (isShort_padded hn) hrest, Digits.value_padded]

theorem day_lt_hundred (d : Date) : d.day < 100 :=
  Nat.lt_of_le_of_lt (Nat.le_trans d.day_le (monthLength_le d.year d.month)) (by decide)

theorem month_lt_hundred (d : Date) : d.month < 100 := Nat.lt_of_le_of_lt d.month_le (by decide)

/-! ### Dates -/

/-- **What is written of a date is read again**: `readIso?` undoes `isoText`. -/
theorem readIso?_isoText (d : Date) : readIso? d.isoText = some d := by
  have hlast : scanNumber (some 2) (Digits.padded 2 d.day) = some (d.day, []) := by
    have h := scanNumber_two d.day_lt_hundred not_digit_nil
    rwa [List.append_nil] at h
  have hhyphen := @not_digit_cons '-' rfl
  have hmiddle := scanNumber_two d.month_lt_hundred (hhyphen (Digits.padded 2 d.day))
  have hexpect : ∀ cs : List Char,
      expect '-' (('-' :: cs).dropWhile Text.isBlank) = some ((), cs) := fun cs => rfl
  unfold readIso? isoText isoChars
  rw [String.toList_ofList, List.append_assoc, List.cons_append,
    scanYear_of_form (yearForm_yearChars d.year) (hhyphen _)]
  simp only [Option.bind_eq_bind, Option.bind_some, hexpect, hmiddle, hlast]
  exact of?_self d

end Date
end Covenant
