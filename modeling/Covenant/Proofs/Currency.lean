/-
# Currencies and their codes

A currency is known from its place in the order, `c.rank`, and from its code,
`c.code`, which is read in any case and with white space around it.

Key theorems: `Currency.eq_of_rank_eq`, `Currency.ofCode?_eq_some`,
`Currency.read_eq_ok`.
-/
import Covenant.Currency

namespace Covenant
namespace Currency

theorem all_rank (c : Currency) : all[c.rank]? = some c := by
  cases c <;> rfl

theorem eq_of_rank_eq {c c' : Currency} (h : c.rank = c'.rank) : c = c' := by
  have hc := c.all_rank
  rw [h, c'.all_rank] at hc
  exact (Option.some.inj hc).symm

theorem ofCode?_eq_some {code : String} {c : Currency} : ofCode? code = some c ↔ code = c.code := by
  constructor
  · intro h
    have hcode := List.find?_some h
    exact (by simpa using hcode : c.code = code).symm
  · rintro rfl
    cases c <;> rfl

/-- `Currency.read` finds a currency by its `code`, whatever the case and the white space around
it. -/
theorem read_eq_ok {s : String} {c : Currency} :
    Currency.read s = .ok c ↔ Text.upper (Text.trim s) = c.code := by
  rw [← ofCode?_eq_some]
  unfold Currency.read
  dsimp only
  split
  · rename_i found hfound
    simp [hfound]
  · rename_i hnone
    simp [hnone]

end Currency
end Covenant
