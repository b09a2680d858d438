/-
# Numbers and their digits

The digits of a number denote the number, `value (ofNat n) = n`, zeros in front
change nothing, and only zero starts with a zero. So a text of digits is the
number that it denotes, written in so many places.

Key theorems: `Digits.value_ofNat`, `Digits.value_padded`,
`Digits.isDigit_of_mem_padded`, `Digits.length_padded`, `Digits.padded_value`.
-/
import Covenant.Decimal.Basic
import Covenant.Text.Blank
import Covenant.Text.Digits

namespace Covenant
namespace Digits

/-! ### Single digits -/

theorem toNat_char {d : Nat} (h : d < 10) : (char d).toNat = 48 + d := by
  have hcases : d = 0 ∨ d = 1 ∨ d = 2 ∨ d = 3 ∨ d = 4 ∨ d = 5 ∨ d = 6 ∨ d = 7 ∨ d = 8 ∨ d = 9 := by
    omega
  rcases hcases with rfl | rfl | rfl | rfl | rfl | rfl | rfl | rfl | rfl | rfl <;> rfl

theorem digit?_char {d : Nat} (h : d < 10) : digit? (char d) = some d := by
  rw [digit?, toNat_char h, if_pos (by omega)]
  congr 1
  omega

theorem isDigit_char {d : Nat} (h : d < 10) : isDigit (char d) = true := by
  rw [isDigit, digit?_char h]
  rfl

theorem isDigit_iff {c : Char} : isDigit c = true ↔ 48 ≤ c.toNat ∧ c.toNat ≤ 57 := by
  unfold isDigit digit?
  split <;> simp_all

theorem isBlank_of_isDigit {c : Char} (h : isDigit c = true) : Text.isBlank c = false := by
  obtain ⟨h1, h2⟩ := isDigit_iff.mp h
  unfold Text.isBlank
  simp only [Bool.or_eq_false_iff, Bool.and_eq_false_iff, decide_eq_false_iff_not,
    beq_eq_false_iff_ne, ne_eq]
  omega

theorem digit?_of_isDigit {c : Char} (h : isDigit c = true) : digit? c = some (c.toNat - 48) := by
  rw [digit?, if_pos (isDigit_iff.mp h)]

/-! ### The digits of a number -/

theorem ofNat_of_lt {n : Nat} (h : n < 10) : ofNat n = [char n] := by
  rw [ofNat, if_pos h]

theorem ofNat_of_le {n : Nat} (h : 10 ≤ n) : ofNat n = ofNat (n / 10) ++ [char (n % 10)] := by
  rw [ofNat, if_neg (by omega)]

theorem ofNat_ne_nil (n : Nat) : ofNat n ≠ [] := by
  by_cases h : n < 10
  · rw [ofNat_of_lt h]
    exact List.cons_ne_nil _ _
  · rw [ofNat_of_le (by omega)]
    simp

theorem isDigit_of_mem_ofNat (n : Nat) : ∀ c ∈ ofNat n, isDigit c = true := by
  induction n using ofNat.induct with
  | case1 n h =>
    rw [ofNat_of_lt h]
    intro c hc
    rw [List.mem_singleton.mp hc]
    exact isDigit_char h
  | case2 n h ih =>
    rw [ofNat_of_le (by omega)]
    intro c hc
    rcases List.mem_append.mp hc with hc | hc
    · exact ih c hc
    · rw [List.mem_singleton.mp hc]
      exact isDigit_char (Nat.mod_lt _ (by decide))

/-- Only a number of one digit starts with a zero. -/
theorem head?_ofNat (n : Nat) : (ofNat n).head? = some '0' → n = 0 := by
  induction n using ofNat.induct with
  | case1 n h =>
    rw [ofNat_of_lt h]
    intro hhead
    have hchar : char n = '0' := by simpa using hhead
    have hn := toNat_char h
    rw [hchar] at hn
    have : '0'.toNat = 48 := rfl
    omega
  | case2 n h ih =>
    obtain ⟨c, rest, hcons⟩ := List.exists_cons_of_ne_nil (ofNat_ne_nil (n / 10))
    rw [ofNat_of_le (by omega), hcons]
    rw [hcons] at ih
    intro hhead
    have := ih hhead
    omega

/-! ### The number of digits -/

/-- The number `n` with the digits `cs` appended. -/
def extend (n : Nat) (cs : List Char) : Nat := cs.foldl (fun n c => 10 * n + (digit? c).getD 0) n

theorem value_eq_extend (cs : List Char) : value cs = extend 0 cs := rfl

theorem extend_cons (n : Nat) (c : Char) (cs : List Char) :
    extend n (c :: cs) = extend (10 * n + (digit? c).getD 0) cs := rfl

theorem extend_append (n : Nat) (cs cs' : List Char) :
    extend n (cs ++ cs') = extend (extend n cs) cs' := List.foldl_append

theorem le_extend (cs : List Char) : ∀ n, n ≤ extend n cs := by
  induction cs with
  | nil => intro n; exact Nat.le_refl n
  | cons c rest ih =>
    intro n
    rw [extend_cons]
    have := ih (10 * n + (digit? c).getD 0)
    omega

/-- The digits of `n` denote `n`. -/
theorem value_ofNat (n : Nat) : value (ofNat n) = n := by
  induction n using ofNat.induct with
  | case1 n h =>
    rw [ofNat_of_lt h, value_eq_extend, extend_cons, digit?_char h]
    simp [extend]
  | case2 n h ih =>
    have hd : n % 10 < 10 := Nat.mod_lt _ (by decide)
    rw [value_eq_extend] at ih
    rw [ofNat_of_le (by omega), value_eq_extend, extend_append, ih, extend_cons, digit?_char hd]
    simp only [Option.getD_some, extend, List.foldl_nil]
    omega

/-! ### Numbers with a least width -/

theorem extend_zeros (k : Nat) : extend 0 (List.replicate k '0') = 0 := by
  induction k with
  | zero => rfl
  | succ k ih =>
    rw [List.replicate_succ, extend_cons]
    exact ih

theorem value_padded (width n : Nat) : value (padded width n) = n := by
  rw [padded, value_eq_extend, extend_append, extend_zeros]
  exact value_ofNat n

theorem isDigit_of_mem_padded {width n : Nat} {c : Char} (hc : c ∈ padded width n) :
    isDigit c = true := by
  rcases List.mem_append.mp hc with hc | hc
  · rw [List.eq_of_mem_replicate hc]
    rfl
  · exact isDigit_of_mem_ofNat n c hc

theorem length_padded (width n : Nat) :
    (padded width n).length = max width (ofNat n).length := by
  rw [padded, List.length_append, List.length_replicate]
  omega

theorem length_ofNat_le {n : Nat} :
    ∀ k, 0 < k → n < Decimal.tenTo k → (ofNat n).length ≤ k := by
  induction n using ofNat.induct with
  | case1 n h =>
    intro k hk _
    rw [ofNat_of_lt h]
    exact hk
  | case2 n h ih =>
    intro k hk hn
    cases k with
    | zero => omega
    | succ k =>
      have hk : 0 < k := by
        rcases Nat.eq_zero_or_pos k with rfl | hpos
        · have hten : Decimal.tenTo (0 + 1) = 10 := rfl
          omega
        · exact hpos
      have hlt : n / 10 < Decimal.tenTo k := by
        rw [Decimal.tenTo_succ] at hn
        omega
      rw [ofNat_of_le (by omega), List.length_append]
      have := ih k hk hlt
      simp only [List.length_singleton]
      omega

/-- A number below `10 ^ width` has exactly that width. -/
theorem length_padded_of_lt {width n : Nat} (hwidth : 0 < width) (h : n < Decimal.tenTo width) :
    (padded width n).length = width := by
  have := length_ofNat_le width hwidth h
  rw [length_padded]
  omega

theorem padded_ne_nil (width n : Nat) : padded width n ≠ [] :=
  List.append_ne_nil_of_right_ne_nil _ (ofNat_ne_nil n)

/-! ### The number of a text of digits -/

theorem eq_of_digit?_eq {c c' : Char} (hc : isDigit c = true) (hc' : isDigit c' = true)
    (h : digit? c = digit? c') : c = c' := by
  rw [digit?_of_isDigit hc, digit?_of_isDigit hc', Option.some.injEq] at h
  have hge := (isDigit_iff.mp hc).1
  have hge' := (isDigit_iff.mp hc').1
  exact Char.toNat_inj.mp (by omega)

/-- Each digit is found again from the number, if it is known how many there are. -/
theorem eq_of_extend_eq : ∀ {cs cs' : List Char} {n n' : Nat}, cs.length = cs'.length →
    (∀ c ∈ cs, isDigit c = true) → (∀ c ∈ cs', isDigit c = true) →
    extend n cs = extend n' cs' → n = n' ∧ cs = cs'
  | [], [], n, n', _, _, _, h => ⟨h, rfl⟩
  | c :: cs, c' :: cs', n, n', hlength, hcs, hcs', h => by
    rw [List.forall_mem_cons] at hcs hcs'
    rw [extend_cons, extend_cons] at h
    obtain ⟨hn, rfl⟩ := eq_of_extend_eq (Nat.succ.inj hlength) hcs.2 hcs'.2 h
    have hdigit := digit?_of_isDigit hcs.1
    have hdigit' := digit?_of_isDigit hcs'.1
    have hle := (isDigit_iff.mp hcs.1).2
    have hle' := (isDigit_iff.mp hcs'.1).2
    rw [hdigit, hdigit', Option.getD_some, Option.getD_some] at hn
    have hvalues : c.toNat - 48 = c'.toNat - 48 ∧ n = n' := by omega
    rw [eq_of_digit?_eq hcs.1 hcs'.1 (by rw [hdigit, hdigit', hvalues.1]), hvalues.2]
    exact ⟨rfl, rfl⟩

theorem extend_lt : ∀ {cs : List Char} (n : Nat), (∀ c ∈ cs, isDigit c = true) →
    extend n cs < (n + 1) * Decimal.tenTo cs.length
  | [], n, _ => by simp [extend, Decimal.tenTo]
  | c :: cs, n, h => by
    rw [List.forall_mem_cons] at h
    have hle := (isDigit_iff.mp h.1).2
    have hnext : 10 * n + (digit? c).getD 0 + 1 ≤ 10 * (n + 1) := by
      rw [digit?_of_isDigit h.1, Option.getD_some]
      omega
    calc extend n (c :: cs)
      _ = extend (10 * n + (digit? c).getD 0) cs := extend_cons n c cs
      _ < (10 * n + (digit? c).getD 0 + 1) * Decimal.tenTo cs.length := extend_lt _ h.2
      _ ≤ 10 * (n + 1) * Decimal.tenTo cs.length := Nat.mul_le_mul_right _ hnext
      _ = (n + 1) * Decimal.tenTo (c :: cs).length := by
        rw [List.length_cons, Decimal.tenTo_succ, Nat.mul_comm _ 10, Nat.mul_left_comm,
          Nat.mul_assoc]

/-- A text of digits is its number, `value cs`, in so many places. -/
theorem padded_value {cs : List Char} (hcs : ∀ c ∈ cs, isDigit c = true) (hne : cs ≠ []) :
    padded cs.length (value cs) = cs := by
  have hlt : value cs < Decimal.tenTo cs.length := by
    have h := extend_lt 0 hcs
    rwa [Nat.zero_add, Nat.one_mul] at h
  have hlength := length_padded_of_lt (List.length_pos_iff.mpr hne) hlt
  have hvalue : extend 0 (padded cs.length (value cs)) = extend 0 cs := value_padded _ _
  exact (eq_of_extend_eq hlength (fun c => isDigit_of_mem_padded) hcs hvalue).2

end Digits
end Covenant
