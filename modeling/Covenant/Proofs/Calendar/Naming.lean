/-
# A written date names one date

What is written of a date with slashes is that date when it is read,
`readSlash d.slashText = .ok d`, whatever its year and whatever white space
stands around it. Two dates are therefore never written alike. The text of a key
ends in its dates, which hold none of the characters that set them off, so it
names the same dates for every key that is shown so; and a log of written
elections is these elections when it is read.

Key definitions: `Date.isDateChar`, `LogStep.row`.
Key theorems: `Date.slashForm_slashChars`, `Date.readSlash_slashText`,
`Observable.keyText_cases`, `LogStep.ofRows_row`, `dates_named_once`.
-/
import Covenant.ElectionLog
import Covenant.Observable
import Covenant.Proofs.Calendar.Slash
import Covenant.Proofs.Except

namespace Covenant
namespace Date

/-! ### The characters of a written date -/

/-- The characters that a written date may have: a digit, a slash or a sign. -/
def isDateChar (c : Char) : Bool := Digits.isDigit c || c == '/' || c == '+' || c == '-'

theorem isDateChar_of_isDigit {c : Char} (h : Digits.isDigit c = true) : isDateChar c = true := by
  simp [isDateChar, h]

theorem YearForm.isDateChar_of_mem {cs : List Char} {y : Int} (h : YearForm cs y) :
    ∀ c ∈ cs, isDateChar c = true := by
  cases h with
  | short hdigits => exact fun c hc => isDateChar_of_isDigit (hdigits c hc)
  | plus hdigits =>
    exact List.forall_mem_cons.mpr ⟨rfl, fun c hc => isDateChar_of_isDigit (hdigits c hc)⟩
  | minus hdigits =>
    exact List.forall_mem_cons.mpr ⟨rfl, fun c hc => isDateChar_of_isDigit (hdigits c hc)⟩

theorem isDateChar_of_mem_slashChars {d : Date} {c : Char} (hc : c ∈ d.slashChars) :
    isDateChar c = true := by
  rw [slashChars_eq, List.mem_append, List.mem_cons, List.mem_append, List.mem_cons] at hc
  obtain hday | rfl | hmonth | rfl | hyear := hc
  · exact isDateChar_of_isDigit (Digits.isDigit_of_mem_padded hday)
  · rfl
  · exact isDateChar_of_isDigit (Digits.isDigit_of_mem_padded hmonth)
  · rfl
  · exact (yearForm_yearChars d.year).isDateChar_of_mem c hyear

theorem not_mem_slashChars {c : Char} (hc : isDateChar c = false) (d : Date) :
    c ∉ d.slashChars := by
  intro hmem
  rw [isDateChar_of_mem_slashChars hmem] at hc
  cases hc

/-- A year ends in a digit. -/
theorem YearForm.exists_concat {cs : List Char} {y : Int} (h : YearForm cs y) :
    ∃ front c, cs = front ++ [c] ∧ Digits.isDigit c = true := by
  have hconcat : ∀ {digits : List Char}, (∀ c ∈ digits, Digits.isDigit c = true) → digits ≠ [] →
      ∃ front c, digits = front ++ [c] ∧ Digits.isDigit c = true := fun {digits} hdigits hne =>
    ⟨digits.dropLast, digits.getLast hne, (List.dropLast_append_getLast hne).symm,
      hdigits _ (List.getLast_mem hne)⟩
  cases h with
  | short hdigits hne => exact hconcat hdigits hne
  | plus hdigits hne =>
    obtain ⟨front, c, rfl, hc⟩ := hconcat hdigits hne
    exact ⟨'+' :: front, c, rfl, hc⟩
  | minus hdigits hne =>
    obtain ⟨front, c, rfl, hc⟩ := hconcat hdigits hne
    exact ⟨'-' :: front, c, rfl, hc⟩

/-- A written date, `slashChars`, ends in a digit. -/
theorem slashChars_concat (d : Date) : ∃ front c, d.slashChars = front ++ [c] ∧
    Digits.isDigit c = true := by
  obtain ⟨front, c, hyear, hc⟩ := (yearForm_yearChars d.year).exists_concat
  refine ⟨Digits.padded 2 d.day ++ '/' :: (Digits.padded 2 d.month ++ '/' :: front), c, ?_, hc⟩
  rw [slashChars_eq, hyear]
  simp

/-- A written date starts with a digit. -/
theorem slashChars_cons (d : Date) : ∃ c rest, d.slashChars = c :: rest ∧
    Digits.isDigit c = true := by
  obtain ⟨c, rest, hday⟩ := List.exists_cons_of_ne_nil (Digits.padded_ne_nil 2 d.day)
  have hc : c ∈ Digits.padded 2 d.day := hday ▸ List.mem_cons_self
  refine ⟨c, rest ++ '/' :: (Digits.padded 2 d.month ++ '/' :: yearChars d.year), ?_,
    Digits.isDigit_of_mem_padded hc⟩
  rw [slashChars_eq, hday, List.cons_append]

/-! ### What is written is read -/

/-- A date is written in a form in which it is read, `SlashForm`. -/
theorem slashForm_slashChars (d : Date) : SlashForm d d.slashChars := by
  have hnone : ∀ c ∈ ([] : List Char), Text.isBlank c = true := by simp
  rw [slashChars_eq]
  exact .mk (isShort_padded d.day_lt_hundred) (Digits.value_padded 2 d.day) hnone
    (isShort_padded d.month_lt_hundred) (Digits.value_padded 2 d.month) hnone
    (yearForm_yearChars d.year)

/-- A written date is read, whatever white space stands `before` and `after` it. -/
theorem readSlash_slashText (d : Date) {before after : String}
    (hbefore : ∀ c ∈ before.toList, Text.isBlank c = true)
    (hafter : ∀ c ∈ after.toList, Text.isBlank c = true) :
    readSlash (before ++ d.slashText ++ after) = .ok d := by
  obtain ⟨c, rest, hcons, hc⟩ := d.slashChars_cons
  obtain ⟨front, c', hconcat, hc'⟩ := d.slashChars_concat
  have hhead : ∀ x ∈ d.slashChars.head?, Text.isBlank x = false := by
    rw [hcons]
    rintro x ⟨⟩
    exact Digits.isBlank_of_isDigit hc
  have hlast : ∀ x ∈ d.slashChars.getLast?, Text.isBlank x = false := by
    rw [hconcat, List.getLast?_concat]
    rintro x ⟨⟩
    exact Digits.isBlank_of_isDigit hc'
  have htrim : Text.trimList (before ++ d.slashText ++ after).toList = d.slashChars := by
    rw [String.toList_append, String.toList_append, slashText, String.toList_ofList]
    exact Text.trimList_append hbefore hafter (by rw [hcons]; exact List.cons_ne_nil _ _) hhead
      hlast
  rw [readSlash_eq_ok, htrim]
  exact (ofSlashChars?_eq_some (Text.dropWhile_of_head hhead)).mpr d.slashForm_slashChars

theorem slashChars_injective : Function.Injective slashChars := by
  intro d d' h
  have hread : readSlash ("" ++ d.slashText ++ "") = readSlash ("" ++ d'.slashText ++ "") := by
    unfold slashText
    rw [h]
  rw [readSlash_slashText d (by simp) (by simp),
    readSlash_slashText d' (by simp) (by simp)] at hread
  exact Except.ok.inj hread

end Date

/-! ### Keys -/

/-- A key is shown as a text that ends in its `dates`: two in brackets, with dots between them, or
one behind a sign. -/
theorem Observable.keyText_cases (o : ObservableKey) :
    (∃ front start finish, o.dates = [start, finish] ∧ o.keyText.toList =
      (front ++ '[' :: (start.slashChars ++ ['.'])) ++ '.' :: (finish.slashChars ++ [']'])) ∨
    ∃ front on, o.dates = [on] ∧ o.keyText.toList = front ++ '@' :: on.slashChars := by
  cases o with
  | fixing index start finish =>
    refine .inl ⟨index.toList, start, finish, rfl, ?_⟩
    simp [keyText, render, Date.slashText]
  | spot base quoted on =>
    refine .inr ⟨base.code.toList ++ '/' :: quoted.code.toList, on, rfl, ?_⟩
    simp [keyText, render, Date.slashText]
  | quote name on =>
    refine .inr ⟨name.toList, on, rfl, ?_⟩
    simp [keyText, render, Date.slashText]

/-- No text ends both in a bracket and in a written date. -/
theorem Date.append_slashChars_ne (front front' : List Char) (d : Date) :
    front ++ [']'] ≠ front' ++ d.slashChars := by
  obtain ⟨body, c, hconcat, hc⟩ := d.slashChars_concat
  rw [hconcat, ← List.append_assoc]
  intro h
  obtain ⟨-, rfl⟩ := List.append_singleton_inj.mp h
  cases hc

/-- Keys that are shown alike have the same `dates`. -/
theorem Observable.dates_eq_of_keyText_eq {o o' : ObservableKey} (h : o.keyText = o'.keyText) :
    o.dates = o'.dates := by
  have htext := congrArg String.toList h
  obtain ⟨front, start, finish, hdates, hshown⟩ | ⟨front, on, hdates, hshown⟩ := keyText_cases o <;>
  obtain ⟨front', start', finish', hdates', hshown'⟩ | ⟨front', on', hdates', hshown'⟩ :=
    keyText_cases o' <;>
  rw [hshown, hshown'] at htext <;> rw [hdates, hdates']
  · have hdot : ∀ d : Date, '.' ∉ d.slashChars ++ [']'] := fun d => by
      simpa using Date.not_mem_slashChars rfl d
    have hbracket : ∀ d : Date, '[' ∉ d.slashChars ++ ['.'] := fun d => by
      simpa using Date.not_mem_slashChars rfl d
    obtain ⟨hfront, hfinish⟩ := (Text.append_cons_inj (hdot _) (hdot _)).mp htext
    obtain ⟨-, hstart⟩ := (Text.append_cons_inj (hbracket _) (hbracket _)).mp hfront
    rw [Date.slashChars_injective (List.append_cancel_right hstart),
      Date.slashChars_injective (List.append_cancel_right hfinish)]
  · refine absurd ?_ (Date.append_slashChars_ne (front ++ '[' :: (start.slashChars ++ ['.']) ++
      '.' :: finish.slashChars) (front' ++ ['@']) on')
    simpa using htext
  · refine absurd ?_ (Date.append_slashChars_ne (front' ++ '[' :: (start'.slashChars ++ ['.']) ++
      '.' :: finish'.slashChars) (front ++ ['@']) on)
    simpa using htext.symm
  · have hsign : ∀ d : Date, '@' ∉ d.slashChars := fun d => Date.not_mem_slashChars rfl d
    obtain ⟨-, hon⟩ := (Text.append_cons_inj (hsign _) (hsign _)).mp htext
    rw [Date.slashChars_injective hon]

/-! ### Logs -/

namespace LogStep

/-- The values of the row in which an election is written, the day as its `slashText`. -/
def row (s : LogStep) : Vector String 3 := #v[s.actor.name, s.label, s.day.slashText]

theorem ofValues_row {s : LogStep} (hactor : s.actor.name ≠ "") (hlabel : s.label ≠ "") :
    ofValues s.row = .ok s := by
  have hday : Date.readSlash s.day.slashText = .ok s.day := by
    have h := @Date.readSlash_slashText s.day "" "" (by simp) (by simp)
    simpa using h
  show ofWords s.actor.name s.label s.day.slashText = .ok s
  rw [ofWords, if_neg hactor, if_neg hlabel, hday]
  rfl

/-- A log of written elections is these elections when it is read, if no name and no label is
empty. -/
theorem ofRows_row : ∀ steps : List LogStep, (∀ s ∈ steps, s.actor.name ≠ "" ∧ s.label ≠ "") →
    ofRows (steps.map fun s => .ok s.row) = .ok steps
  | [], _ => rfl
  | s :: steps, h => by
    obtain ⟨⟨hactor, hlabel⟩, hsteps⟩ := List.forall_mem_cons.mp h
    have hrow : (Except.ok s.row : Except Csv.Error _).mapError LogError.csv = .ok s.row := rfl
    simp only [List.map_cons, ofRows, hrow]
    exact bind_eq_ok.mpr ⟨_, rfl, bind_eq_ok.mpr ⟨s, ofValues_row hactor hlabel,
      bind_eq_ok.mpr ⟨steps, ofRows_row steps hsteps, rfl⟩⟩⟩

end LogStep

/-- **A written date names one date.** The `slashText` of a date is read by `readSlash` as that
date, whatever its year and also with white space around it, so that no two dates are written alike.
Keys with one `keyText` have the same `dates`, and a log of written elections is read as these
elections. -/
theorem dates_named_once :
    (∀ (d : Date) (before after : String), (∀ c ∈ before.toList, Text.isBlank c = true) →
      (∀ c ∈ after.toList, Text.isBlank c = true) →
      Date.readSlash (before ++ d.slashText ++ after) = .ok d) ∧
    Function.Injective Date.slashText ∧
    (∀ o o' : ObservableKey, o.keyText = o'.keyText → o.dates = o'.dates) ∧
    ∀ steps : List LogStep, (∀ s ∈ steps, s.actor.name ≠ "" ∧ s.label ≠ "") →
      LogStep.ofRows (steps.map fun s => .ok s.row) = .ok steps := by
  refine ⟨fun d before after => Date.readSlash_slashText d, fun d d' h => ?_,
    fun o o' => Observable.dates_eq_of_keyText_eq, LogStep.ofRows_row⟩
  exact Date.slashChars_injective (String.ofList_injective h)

/-- A leap day before the common era is read with white space around it, and so is a log in which
it is written. -/
theorem leapDay_named_once :
    Date.readSlash ("\t" ++ (Date.literal (-4) 2 29).slashText ++ " ") =
      .ok (.literal (-4) 2 29) ∧
    LogStep.ofRows [.ok #v["a", "pay", (Date.literal (-4) 2 29).slashText]] =
      .ok [⟨⟨"a"⟩, "pay", .literal (-4) 2 29⟩] :=
  ⟨dates_named_once.1 _ "\t" " " (by simp [Text.isBlank]) (by simp [Text.isBlank]),
    dates_named_once.2.2.2 [⟨⟨"a"⟩, "pay", .literal (-4) 2 29⟩] (by simp)⟩

end Covenant
