/-
# Trimming and splitting

White space at the ends of a text is taken off, and nothing else. A text is
split at the first character of a kind, so the part in front holds none. What
stands on either side of the last such character is known from the text as well.

Key theorems: `Text.trimList_append`, `Text.dropWhile_trimList`,
`Text.splitAt?_eq_some`, `Text.append_cons_inj`.
-/
import Covenant.Text.Blank
import Mathlib.Data.List.DropRight

namespace Covenant
namespace Text

/-! ### Trimming -/

/-- A text that starts with no white space keeps its start. -/
theorem dropWhile_of_head {cs : List Char} (h : ∀ c ∈ cs.head?, isBlank c = false) :
    cs.dropWhile isBlank = cs := by
  cases cs with
  | nil => rfl
  | cons c rest => exact List.dropWhile_cons_of_neg (by simp [h c rfl])

/-- White space `before` and `after` a text is taken off, if the text has none at its ends. -/
theorem trimList_append {before text after : List Char}
    (hbefore : ∀ c ∈ before, isBlank c = true) (hafter : ∀ c ∈ after, isBlank c = true)
    (hne : text ≠ []) (hhead : ∀ c ∈ text.head?, isBlank c = false)
    (hlast : ∀ c ∈ text.getLast?, isBlank c = false) :
    trimList (before ++ text ++ after) = text := by
  have hstart : (text ++ after).dropWhile isBlank = text ++ after := by
    apply dropWhile_of_head
    rwa [List.head?_append_of_ne_nil _ hne]
  have hend : text.reverse.dropWhile isBlank = text.reverse := by
    apply dropWhile_of_head
    rwa [List.head?_reverse]
  unfold trimList
  rw [List.append_assoc, List.dropWhile_append_of_pos hbefore, hstart, List.reverse_append,
    List.dropWhile_append_of_pos (by simpa using hafter), hend, List.reverse_reverse]

/-- A trimmed text starts with no white space. -/
theorem dropWhile_trimList (cs : List Char) : (trimList cs).dropWhile isBlank = trimList cs := by
  have hpart : trimList cs <+: cs.dropWhile isBlank := List.rdropWhile_prefix isBlank _
  obtain ⟨rest, hrest⟩ := hpart
  apply dropWhile_of_head
  intro c hc
  have hne : trimList cs ≠ [] := by
    rintro hnil
    rw [hnil] at hc
    cases hc
  have hhead := List.head?_dropWhile_not isBlank cs
  rw [← hrest, List.head?_append_of_ne_nil _ hne, Option.mem_def.mp hc] at hhead
  exact hhead

/-! ### Splitting -/

/-- A text `s` is split at a character exactly if it is made of `front` and `back` and the character
between them, and `front` holds no other. -/
theorem splitAt?_eq_some {c : Char} {s front back : String} :
    splitAt? (· == c) s = some (front, back) ↔
      s.toList = front.toList ++ c :: back.toList ∧ c ∉ front.toList := by
  have hother : ∀ {x : Char}, (!(x == c)) = true ↔ x ≠ c := by simp
  constructor
  · intro h
    have hsplit := List.takeWhile_append_dropWhile (p := (!· == c)) (l := s.toList)
    have hhead := List.head?_dropWhile_not (!· == c) s.toList
    unfold splitAt? at h
    dsimp only at h
    cases hdrop : s.toList.dropWhile (!· == c) with
    | nil =>
      rw [hdrop] at h
      cases h
    | cons x rest =>
      rw [hdrop] at h hsplit hhead
      cases h
      have hx : x = c := by simpa using hhead
      subst hx
      rw [String.toList_ofList, String.toList_ofList]
      refine ⟨hsplit.symm, fun hmem => ?_⟩
      exact hother.mp (List.mem_takeWhile_imp (p := (!· == x)) hmem) rfl
  · rintro ⟨hs, hfront⟩
    have hall : ∀ x ∈ front.toList, (!(x == c)) = true := fun x hx =>
      hother.mpr fun heq => hfront (heq ▸ hx)
    unfold splitAt?
    rw [hs, List.dropWhile_append_of_pos hall, List.takeWhile_append_of_pos hall,
      List.dropWhile_cons_of_neg (by simp), List.takeWhile_cons_of_neg (by simp)]
    simp

/-- If `c` is in neither `back` nor `back'`, then `front ++ c :: back` determines the two parts. -/
theorem append_cons_inj {c : Char} {front front' back back' : List Char} (h : c ∉ back)
    (h' : c ∉ back') :
    front ++ c :: back = front' ++ c :: back' ↔ front = front' ∧ back = back' := by
  constructor
  · intro heq
    obtain ⟨mid, hfront, hback⟩ | ⟨mid, hfront, hback⟩ := List.append_eq_append_iff.mp heq
    all_goals cases mid with
    | nil => simp_all
    | cons x rest =>
      -- the character would stand a second time behind itself
      obtain ⟨rfl, rfl⟩ := List.cons.inj hback
      simp at h h'
  · rintro ⟨rfl, rfl⟩
    rfl

end Text
end Covenant
