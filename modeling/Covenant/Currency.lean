/-
# Currencies

The seven currencies of `Currency.all`, ordered as listed, that is by `rank`. A
code such as `"USD"` is read in any case and with white space around it.

Key definitions: `Currency`, `Currency.read`.
-/
import Covenant.Text.Blank

namespace Covenant

/-- A `word` that is not one of those expected where a `kind` of thing is named. -/
structure UnknownWord where
  kind : String
  word : String
deriving DecidableEq

/-- What was expected and the `word` found instead, trimmed and in capitals as it was looked up. -/
def UnknownWord.message (e : UnknownWord) : String := s!"Unknown {e.kind}: {e.word}"

/-- The currencies that payments can be in. -/
inductive Currency where
  | usd | eur | gbp | chf | jpy | cad | aud
deriving DecidableEq

namespace Currency

/-- The currencies in the order of `rank`. -/
def all : List Currency := [usd, eur, gbp, chf, jpy, cad, aud]

/-- The three-letter code, such as `"USD"`. -/
def code : Currency → String
  | usd => "USD"
  | eur => "EUR"
  | gbp => "GBP"
  | chf => "CHF"
  | jpy => "JPY"
  | cad => "CAD"
  | aud => "AUD"

/-- The place of the currency in `all`. -/
def rank : Currency → Nat
  | usd => 0
  | eur => 1
  | gbp => 2
  | chf => 3
  | jpy => 4
  | cad => 5
  | aud => 6

instance : Ord Currency := ⟨compareOn rank⟩

instance : Std.TransOrd Currency := inferInstanceAs (Std.TransCmp (compareOn rank))

/-- The currency whose `code` is exactly this. -/
def ofCode? (code : String) : Option Currency := all.find? (·.code == code)

/-- Reads a code, whatever its case and the white space around it. -/
def read (s : String) : Except UnknownWord Currency :=
  let word := Text.upper (Text.trim s)
  match ofCode? word with
  | some c => .ok c
  | none => .error ⟨"currency", word⟩

end Currency
end Covenant
