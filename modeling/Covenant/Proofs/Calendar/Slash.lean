/-
# What is read as a date with slashes

More is read than is written. White space may stand around the text and in front
of the month and of the year, day and month may have one digit, and a year may
be any number of up to four digits, so that `1/7/15` is a day of the year 15.
Only what has two digits, two digits and the year in full is written again as it
was read.

Key definitions: `Date.SlashForm`, `Date.StrictYear`, `Date.StrictForm`.
Key theorems: `Date.ofSlashChars?_eq`, `Date.ofSlashChars?_eq_some`,
`Date.strictForm_slashChars`, `Date.slashText_eq_trim_iff`,
`Date.slash_dates_accepted`.
-/
import Covenant.Proofs.Calendar.Order
import Covenant.Proofs.Calendar.Text
import Covenant.Proofs.Text.Blank

namespace Covenant
namespace Date

variable {gap gap' day month year cs rest : List Char}

/-! ### Scanning -/

theorem scanNumber_gap (hgap : ∀ c ∈ gap, Text.isBlank c = true) (most : Option Nat) :
    scanNumber most (gap ++ cs) = scanNumber most cs := by
  unfold scanNumber
  rw [List.dropWhile_append_of_pos hgap]

theorem scanYear_gap (hgap : ∀ c ∈ gap, Text.isBlank c = true) :
    scanYear (gap ++ cs) = scanYear cs := by
  unfold scanYear
  rw [List.dropWhile_append_of_pos hgap]

theorem expect_eq_some {c : Char} {u : Unit} : expect c cs = some (u, rest) ↔ cs = c :: rest := by
  cases cs with
  | nil => simp [expect]
  | cons x tail => by_cases hx : x = c <;> simp [expect, hx]

theorem expect_cons (c : Char) (cs : List Char) : expect c (c :: cs) = some ((), cs) :=
  expect_eq_some.mpr rfl

/-- White space in front of a text that starts with none is nothing. -/
theorem gap_eq_nil (hgap : ∀ c ∈ gap, Text.isBlank c = true)
    (hstart : ∀ c ∈ (gap ++ cs).head?, Text.isBlank c = false) : gap = [] := by
  cases gap with
  | nil => rfl
  | cons c tail =>
    have hblank := hgap c List.mem_cons_self
    rw [hstart c rfl] at hblank
    cases hblank

/-- The `digits` that are taken as a number stand behind the white space in front. -/
theorem exists_of_prefix_digits {digits : List Char} {n : Nat}
    (hpart : digits <+: (cs.dropWhile Text.isBlank).takeWhile Digits.isDigit)
    (h : (if digits = [] then none else
      some (Digits.value digits, (cs.dropWhile Text.isBlank).drop digits.length)) =
        some (n, rest)) :
    ∃ gap, cs = gap ++ (digits ++ rest) ∧ (∀ c ∈ gap, Text.isBlank c = true) ∧
      (∀ c ∈ digits, Digits.isDigit c = true) ∧ digits ≠ [] ∧ Digits.value digits = n := by
  split at h
  · cases h
  · rename_i hne
    obtain ⟨rfl, rfl⟩ := Prod.mk.inj (Option.some.inj h)
    have hsplit := List.prefix_iff_eq_append.mp (hpart.trans (List.takeWhile_prefix _))
    refine ⟨cs.takeWhile Text.isBlank, ?_, fun c hc => List.mem_takeWhile_imp hc,
      fun c hc => List.mem_takeWhile_imp (hpart.subset hc), hne, rfl⟩
    rw [hsplit, List.takeWhile_append_dropWhile]

/-- What `scanNumber` reads as a number is white space and digits. -/
theorem exists_of_scanNumber {most : Option Nat} {n : Nat}
    (h : scanNumber most cs = some (n, rest)) :
    ∃ gap digits, cs = gap ++ (digits ++ rest) ∧ (∀ c ∈ gap, Text.isBlank c = true) ∧
      (∀ c ∈ digits, Digits.isDigit c = true) ∧ digits ≠ [] ∧ Digits.value digits = n ∧
      ∀ k, most = some k → digits.length ≤ k := by
  cases most with
  | none =>
    obtain ⟨gap, hcs, hgap, hdigits, hne, hvalue⟩ :=
      exists_of_prefix_digits (List.prefix_refl _) h
    exact ⟨gap, _, hcs, hgap, hdigits, hne, hvalue, by rintro k ⟨⟩⟩
  | some most =>
    obtain ⟨gap, hcs, hgap, hdigits, hne, hvalue⟩ :=
      exists_of_prefix_digits (List.take_prefix most _) h
    refine ⟨gap, _, hcs, hgap, hdigits, hne, hvalue, ?_⟩
    rintro k ⟨⟩
    exact List.length_take_le _ _

/-- What is read as a year after a sign is digits. -/
theorem exists_of_scanSigned {n : Nat} (hhead : cs.head?.any Digits.isDigit = true)
    (h : scanNumber none cs = some (n, rest)) :
    ∃ digits, cs = digits ++ rest ∧ (∀ c ∈ digits, Digits.isDigit c = true) ∧ digits ≠ [] ∧
      Digits.value digits = n := by
  obtain ⟨gap, digits, rfl, hgap, hdigits, hne, hvalue, -⟩ := exists_of_scanNumber h
  have hnone : gap = [] := gap_eq_nil hgap fun c hc => by
    rw [Option.mem_def.mp hc] at hhead
    exact Digits.isBlank_of_isDigit hhead
  exact ⟨digits, by rw [hnone, List.nil_append], hdigits, hne, hvalue⟩

/-- What `scanYear` reads as a year is white space and a year in one of its forms. -/
theorem exists_of_scanYear {y : Int} (h : scanYear cs = some (y, rest)) :
    ∃ gap year, cs = gap ++ (year ++ rest) ∧ (∀ c ∈ gap, Text.isBlank c = true) ∧
      YearForm year y := by
  have hsplit := List.takeWhile_append_dropWhile (p := Text.isBlank) (l := cs)
  have hblank : ∀ c ∈ cs.takeWhile Text.isBlank, Text.isBlank c = true := fun c hc =>
    List.mem_takeWhile_imp hc
  unfold scanYear at h
  split at h
  · rename_i tail hdrop
    rw [hdrop] at hsplit
    split at h
    · rename_i hhead
      obtain ⟨⟨n, left⟩, hnumber, h⟩ := Option.map_eq_some_iff.mp h
      cases h
      obtain ⟨digits, rfl, hdigits, hne, rfl⟩ := exists_of_scanSigned hhead hnumber
      exact ⟨_, '-' :: digits, hsplit.symm, hblank, .minus hdigits hne⟩
    · cases h
  · rename_i tail hdrop
    rw [hdrop] at hsplit
    split at h
    · rename_i hhead
      obtain ⟨⟨n, left⟩, hnumber, h⟩ := Option.map_eq_some_iff.mp h
      cases h
      obtain ⟨digits, rfl, hdigits, hne, rfl⟩ := exists_of_scanSigned hhead hnumber
      exact ⟨_, '+' :: digits, hsplit.symm, hblank, .plus hdigits hne⟩
    · cases h
  · obtain ⟨⟨n, left⟩, hnumber, h⟩ := Option.map_eq_some_iff.mp h
    cases h
    obtain ⟨gap, digits, hcs, hgap, hdigits, hne, rfl, hlength⟩ := exists_of_scanNumber hnumber
    rw [hcs, ← List.append_assoc] at hsplit
    refine ⟨_, digits, hsplit.symm, ?_, .short hdigits hne (hlength 4 rfl)⟩
    exact fun c hc => (List.mem_append.mp hc).elim (hblank c) (hgap c)

/-! ### The forms in which a date is read -/

/-- The forms in which the date `d` is read: day and month of one or two digits and a year, with
slashes between them and perhaps white space after these. -/
inductive SlashForm (d : Date) : List Char → Prop where
  | mk {day gap month gap' year : List Char} : IsShort day → Digits.value day = d.day →
      (∀ c ∈ gap, Text.isBlank c = true) → IsShort month → Digits.value month = d.month →
      (∀ c ∈ gap', Text.isBlank c = true) → YearForm year d.year →
      SlashForm d (day ++ '/' :: (gap ++ (month ++ '/' :: (gap' ++ year))))

/-- Parts in these forms are read by `ofSlashChars?`, if they make a date. -/
theorem ofSlashChars?_eq {y : Int} (hday : IsShort day) (hgap : ∀ c ∈ gap, Text.isBlank c = true)
    (hmonth : IsShort month) (hgap' : ∀ c ∈ gap', Text.isBlank c = true) (hyear : YearForm year y) :
    ofSlashChars? (day ++ '/' :: (gap ++ (month ++ '/' :: (gap' ++ year)))) =
      of? y (Digits.value month) (Digits.value day) := by
  have hslash := @not_digit_cons '/' rfl
  have hlast : scanYear year = some (y, []) := by
    have h := scanYear_of_form hyear not_digit_nil
    rwa [List.append_nil] at h
  unfold ofSlashChars?
  rw [scanNumber_short hday (hslash _)]
  simp only [Option.bind_eq_bind, Option.bind_some, expect_cons, scanNumber_gap hgap,
    scanNumber_short hmonth (hslash _), scanYear_gap hgap', hlast, if_true]

/-- **A date is read in each form of `SlashForm`, and in no other.** -/
theorem ofSlashChars?_eq_some {d : Date} (hstart : cs.dropWhile Text.isBlank = cs) :
    ofSlashChars? cs = some d ↔ SlashForm d cs := by
  constructor
  · intro h
    unfold ofSlashChars? at h
    simp only [Option.bind_eq_bind, Option.bind_eq_some_iff] at h
    obtain ⟨⟨n, cs₁⟩, hday, ⟨u, cs₂⟩, hfirst, ⟨m, cs₃⟩, hmonth, ⟨u', cs₄⟩, hsecond,
      ⟨y, cs₅⟩, hyear, h⟩ := h
    obtain rfl := expect_eq_some.mp hfirst
    obtain rfl := expect_eq_some.mp hsecond
    split at h
    · rename_i hend
      subst hend
      obtain ⟨before, day, rfl, hbefore, hdigits, hne, rfl, hlength⟩ := exists_of_scanNumber hday
      obtain ⟨gap, month, rfl, hgap, hdigits', hne', rfl, hlength'⟩ := exists_of_scanNumber hmonth
      obtain ⟨gap', year, rfl, hgap', hform⟩ := exists_of_scanYear hyear
      obtain ⟨rfl, hvalue', hvalue⟩ := of?_eq_some h
      have hnone : before = [] := gap_eq_nil hbefore fun c hc => by
        have hhead := List.head?_dropWhile_not Text.isBlank (before ++ (day ++ '/' :: (gap ++
          (month ++ '/' :: (gap' ++ (year ++ []))))))
        rw [hstart, Option.mem_def.mp hc] at hhead
        exact hhead
      rw [hnone, List.nil_append, List.append_nil]
      exact .mk ⟨hdigits, hne, hlength 2 rfl⟩ hvalue.symm hgap ⟨hdigits', hne', hlength' 2 rfl⟩
        hvalue'.symm hgap' hform
    · cases h
  · rintro ⟨hday, hvalue, hgap, hmonth, hvalue', hgap', hyear⟩
    rw [ofSlashChars?_eq hday hgap hmonth hgap' hyear, hvalue, hvalue']
    exact of?_self d

theorem readSlash_eq_ok {s : String} {d : Date} :
    readSlash s = .ok d ↔ ofSlashChars? (Text.trimList s.toList) = some d := by
  unfold readSlash
  cases ofSlashChars? (Text.trimList s.toList) <;> simp

theorem readSlash_eq_error {s : String} {e : Unreadable} :
    readSlash s = .error e ↔ e = ⟨s⟩ ∧ ofSlashChars? (Text.trimList s.toList) = none := by
  unfold readSlash
  cases ofSlashChars? (Text.trimList s.toList) <;> simp [eq_comm]

/-! ### The form in which a date is written -/

/-- A year as `yearChars` writes it: four digits, or a sign and the digits of a year that has
more. -/
inductive StrictYear : List Char → Prop where
  | plain {digits : List Char} : (∀ c ∈ digits, Digits.isDigit c = true) → digits.length = 4 →
      StrictYear digits
  | signed {y : Int} : ¬(0 ≤ y ∧ y ≤ 9999) → StrictYear (yearChars y)

/-- The form of `slashChars`: two digits, two digits and a year as it is written, with slashes
between them. -/
inductive StrictForm : List Char → Prop where
  | mk {day month year : List Char} : (∀ c ∈ day, Digits.isDigit c = true) → day.length = 2 →
      (∀ c ∈ month, Digits.isDigit c = true) → month.length = 2 → StrictYear year →
      StrictForm (day ++ '/' :: (month ++ '/' :: year))

theorem strictYear_yearChars (y : Int) : StrictYear (yearChars y) := by
  by_cases hy : 0 ≤ y ∧ y ≤ 9999
  · have hplain : yearChars y = Digits.padded 4 y.natAbs := if_pos hy
    rw [hplain]
    exact .plain (fun c hc => Digits.isDigit_of_mem_padded hc) (length_padded_year hy)
  · exact .signed hy

/-- A year as it is written is that of one year. -/
theorem StrictYear.exists_year (h : StrictYear year) :
    ∃ y, YearForm year y ∧ yearChars y = year := by
  cases h with
  | plain hdigits hlength =>
    have hne : year ≠ [] := by
      rintro rfl
      cases hlength
    have hvalue := Digits.padded_value hdigits hne
    have hlt := Digits.extend_lt 0 hdigits
    rw [hlength] at hvalue hlt
    refine ⟨Digits.value year, .short hdigits hne (Nat.le_of_eq hlength), ?_⟩
    have hrange : (0 : Int) ≤ Digits.value year ∧ (Digits.value year : Int) ≤ 9999 := by
      have hten : (0 + 1) * Decimal.tenTo 4 = 10000 := rfl
      rw [hten, ← Digits.value_eq_extend] at hlt
      omega
    exact (if_pos hrange).trans hvalue
  | @signed y hy => exact ⟨y, yearForm_yearChars y, rfl⟩

theorem slashChars_eq (d : Date) : d.slashChars = Digits.padded 2 d.day ++
    '/' :: (Digits.padded 2 d.month ++ '/' :: yearChars d.year) := by
  simp [slashChars]

/-- A date is written in `StrictForm`. -/
theorem strictForm_slashChars (d : Date) : StrictForm d.slashChars := by
  rw [slashChars_eq]
  exact .mk (fun c hc => Digits.isDigit_of_mem_padded hc)
    (Digits.length_padded_of_lt (by decide) d.day_lt_hundred)
    (fun c hc => Digits.isDigit_of_mem_padded hc)
    (Digits.length_padded_of_lt (by decide) d.month_lt_hundred) (strictYear_yearChars d.year)

/-- What is in `StrictForm` is the date that is read, as it is written. -/
theorem eq_slashChars {d : Date} (h : StrictForm cs) (hread : ofSlashChars? cs = some d) :
    cs = d.slashChars := by
  obtain ⟨hday, hlength, hmonth, hlength', hyear⟩ := h
  have hshort := isShort_of_length hday hlength
  have hshort' := isShort_of_length hmonth hlength'
  obtain ⟨y, hform, rfl⟩ := hyear.exists_year
  have hnone : ∀ c ∈ ([] : List Char), Text.isBlank c = true := by simp
  have hparts := ofSlashChars?_eq hshort hnone hshort' hnone hform
  rw [List.nil_append, List.nil_append, hread] at hparts
  obtain ⟨hy, hm, hd⟩ := of?_eq_some hparts.symm
  rw [slashChars_eq, hy, hm, hd, ← hlength, Digits.padded_value hday hshort.ne_nil, hlength,
    ← hlength', Digits.padded_value hmonth hshort'.ne_nil]

/-- What is read is written again as it was, white space apart, exactly if it is in `StrictForm`. -/
theorem slashText_eq_trim_iff {s : String} {d : Date} (h : readSlash s = .ok d) :
    d.slashText = Text.trim s ↔ StrictForm (Text.trimList s.toList) := by
  have hread := readSlash_eq_ok.mp h
  constructor
  · intro heq
    have hchars : d.slashChars = Text.trimList s.toList := String.ofList_injective heq
    exact hchars ▸ strictForm_slashChars d
  · intro hstrict
    exact congrArg String.ofList (eq_slashChars hstrict hread).symm

/-- **What is read as a date.** `readSlash` takes a text exactly if it is, without the white space
around it, in one of the forms of `SlashForm`; it is written again as it was exactly if it is in
`StrictForm`. What is refused is named in the error. -/
theorem slash_dates_accepted (s : String) :
    (∀ d, readSlash s = .ok d ↔ SlashForm d (Text.trimList s.toList)) ∧
    (∀ d, readSlash s = .ok d →
      (d.slashText = Text.trim s ↔ StrictForm (Text.trimList s.toList))) ∧
    ∀ e, readSlash s = .error e ↔ e = ⟨s⟩ ∧ ∀ d, ¬SlashForm d (Text.trimList s.toList) := by
  have hform : ∀ d, ofSlashChars? (Text.trimList s.toList) = some d ↔
      SlashForm d (Text.trimList s.toList) := fun d =>
    ofSlashChars?_eq_some (Text.dropWhile_trimList s.toList)
  refine ⟨fun d => readSlash_eq_ok.trans (hform d), fun d => slashText_eq_trim_iff, fun e => ?_⟩
  rw [readSlash_eq_error, Option.eq_none_iff_forall_ne_some]
  exact and_congr_right fun _ => forall_congr' fun d => not_congr (hform d)

/-- A date between blanks is read, and written again without them. -/
theorem firstOfJuly_accepted : readSlash " 01/07/2015 " = .ok (.literal 2015 7 1) ∧
    StrictForm "01/07/2015".toList := by
  have hread : readSlash " 01/07/2015 " = .ok (.literal 2015 7 1) := by decide +kernel
  refine ⟨hread, ?_⟩
  exact ((slash_dates_accepted " 01/07/2015 ").2.1 _ hread).mp (by decide +kernel)

/-- A day and a month of one digit and a year of two are read, as a day of the first century,
although no date is written so. -/
theorem shortYear_accepted : readSlash "1/7/15" = .ok (.literal 15 7 1) ∧
    (literal 15 7 1).slashText = "01/07/0015" ∧ ¬StrictForm "1/7/15".toList := by
  have hread : readSlash "1/7/15" = .ok (.literal 15 7 1) := by decide +kernel
  have htext : (literal 15 7 1).slashText = "01/07/0015" := by decide +kernel
  refine ⟨hread, htext, fun hstrict => ?_⟩
  have hsame := (slashText_eq_trim_iff hread).mpr hstrict
  rw [htext] at hsame
  revert hsame
  decide +kernel

end Date
end Covenant
