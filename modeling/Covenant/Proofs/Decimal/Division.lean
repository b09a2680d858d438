/-
# Long division

A quotient is extended by as many digits as there is room for. What was found so
far and the remainder stay the same number all along; when no digit fits any
more, the rest decides how the last one is rounded. So `a.div b` is rounded to
the number that stands for it, as sums and products are, as long as the divisor
has no more than 64 bits: `EvenlyDivided a b`. With more, one that has outgrown
its 96 bits may be taken to go on when it does not.

Key definitions: `Decimal.Found`, `Decimal.EvenlyDivided`.
Key theorems: `Decimal.extendQuotient_found`, `Decimal.evenlyDivided_of_narrow`.
-/
import Covenant.Proofs.Decimal.Rounding

namespace Covenant
namespace Decimal

/-! ### Digits that are given up -/

/-- The whole part `q` and the remainder `r` decide how a quotient is rounded. -/
theorem roundDiv_add {d r : Nat} (hr : r < d) (q : Nat) :
    roundDiv (q * d + r) d = if 2 * r < d then q else if d < 2 * r then q + 1 else q + q % 2 := by
  have hdiv : (q * d + r) / d = q := by
    rw [Nat.mul_comm, Nat.mul_add_div (by omega), Nat.div_eq_of_lt hr, Nat.add_zero]
  have hmod : (q * d + r) % d = r := by
    rw [Nat.mul_comm, Nat.mul_add_mod, Nat.mod_eq_of_lt hr]
  unfold roundDiv
  dsimp only
  rw [hdiv, hmod]

/-- So do they if the last digit of `q` is given up too. -/
theorem roundDiv_add_ten {d r : Nat} (hr : r < d) (q : Nat) :
    roundDiv (q * d + r) (d * 10) =
      q / 10 + if 5 < q % 10 ∨ q % 10 = 5 ∧ (r ≠ 0 ∨ q / 10 % 2 = 1) then 1 else 0 := by
  have hrest : q * d + r = q / 10 * (d * 10) + (q % 10 * d + r) := by
    have hq : q = q / 10 * 10 + q % 10 := (Nat.div_add_mod' q 10).symm
    calc q * d + r = (q / 10 * 10 + q % 10) * d + r := by rw [← hq]
      _ = q / 10 * (d * 10) + (q % 10 * d + r) := by ring
  have hdigit : q % 10 < 10 := Nat.mod_lt q (by decide)
  have hle : q % 10 * d ≤ 9 * d := Nat.mul_le_mul_right d (by omega)
  rw [hrest, roundDiv_add (by omega)]
  rcases Nat.lt_trichotomy (q % 10) 5 with hlt | heq | hgt
  · have hfour : q % 10 * d ≤ 4 * d := Nat.mul_le_mul_right d (by omega)
    rw [if_pos (by omega), if_neg (by omega), Nat.add_zero]
  · rw [heq, if_neg (by omega)]
    by_cases hzero : r = 0
    · rcases Nat.mod_two_eq_zero_or_one (q / 10) with heven | hodd
      · rw [if_neg (by omega), if_neg (by omega), heven]
      · rw [if_neg (by omega), if_pos (by omega), hodd]
    · rw [if_pos (by omega), if_pos (by omega)]
  · have hsix : 6 * d ≤ q % 10 * d := Nat.mul_le_mul_right d (by omega)
    rw [if_neg (by omega), if_pos (by omega), if_pos (by omega)]

/-! ### Room for digits -/

theorem headroom_lt {q : Nat} (hq : q < limit) : ∀ bound, q * tenTo (headroom q bound) < limit
  | 0 => by
    rw [headroom]
    exact (Nat.mul_one q).symm ▸ hq
  | p + 1 => by
    rw [headroom]
    split
    · assumption
    · exact headroom_lt hq p

/-- No more digits fit than there is `headroom` for. -/
theorem limit_le_of_headroom_lt {q : Nat} : ∀ {bound}, headroom q bound < bound →
    limit ≤ q * tenTo (headroom q bound + 1)
  | p + 1, h => by
    rw [headroom] at h ⊢
    split at h
    · exact absurd h (Nat.lt_irrefl _)
    · rename_i hfull
      rw [if_neg hfull]
      rcases Nat.eq_or_lt_of_le (headroom_le q p) with heq | hlt
      · rw [heq]
        exact Nat.not_lt.mp hfull
      · exact limit_le_of_headroom_lt hlt

/-- There is no room at the last place, or where a digit more does not fit. -/
theorem full_of_headroom_eq_zero {q : Nat} {scale : Int} (hle : scale ≤ 28)
    (h : headroom q (Min.min 9 (28 - scale).toNat) = 0) : scale = 28 ∨ limit ≤ q * 10 := by
  rcases Nat.eq_zero_or_pos (Min.min 9 (28 - scale).toNat) with hbound | hbound
  · exact .inl (by omega)
  · have hlimit := limit_le_of_headroom_lt (h.symm ▸ hbound)
    rw [h] at hlimit
    exact .inr hlimit

/-! ### The number on the way -/

/-- What was divided, in units of the place `scale`, over the units of one. -/
def dividend (n : Nat) (scale : Int) : Nat := n * tenTo (-scale).toNat

/-- What `dividend` is divided by. -/
def divisorAt (d : Nat) (scale : Int) : Nat := d * tenTo scale.toNat

theorem divisorAt_pos {d : Nat} (hd : 0 < d) (scale : Int) : 0 < divisorAt d scale :=
  Nat.mul_pos hd (tenTo_pos _)

section

variable {n d p : Nat} {scale : Int}

/-- The `p` digits that are moved to the whole part leave the number as it is. -/
theorem nearest?_extend (hd : 0 < d) (k : Nat) :
    nearest? (dividend (n * tenTo p) (scale + p)) (divisorAt d (scale + p)) k =
      nearest? (dividend n scale) (divisorAt d scale) k := by
  refine nearest?_congr (divisorAt_pos hd _) (divisorAt_pos hd _) ?_ k
  have hexponent : p + (-(scale + p)).toNat + scale.toNat =
      (-scale).toNat + (scale + p).toNat := by omega
  have hpower := congrArg tenTo hexponent
  simp only [tenTo_add] at hpower
  unfold dividend divisorAt
  calc n * tenTo p * tenTo (-(scale + p)).toNat * (d * tenTo scale.toNat)
      = n * d * (tenTo p * tenTo (-(scale + p)).toNat * tenTo scale.toNat) := by ring
    _ = n * d * (tenTo (-scale).toNat * tenTo (scale + p).toNat) := by rw [hpower]
    _ = n * tenTo (-scale).toNat * (d * tenTo (scale + p).toNat) := by ring

/-- At the place `s` of its own the number is a quotient by the divisor. -/
theorem roundDiv_dividend (hd : 0 < d) {s : Nat} (hs : (s : Int) = scale + p) :
    roundDiv (dividend n scale * tenTo s) (divisorAt d scale) = roundDiv (n * tenTo p) d := by
  refine roundDiv_congr (divisorAt_pos hd _) hd ?_
  have hexponent : (-scale).toNat + s = p + scale.toNat := by omega
  have hpower := congrArg tenTo hexponent
  simp only [tenTo_add] at hpower
  unfold dividend divisorAt
  calc n * tenTo (-scale).toNat * tenTo s * d
      = n * d * (tenTo (-scale).toNat * tenTo s) := by ring
    _ = n * d * (tenTo p * tenTo scale.toNat) := by rw [hpower]
    _ = n * tenTo p * (d * tenTo scale.toNat) := by ring

/-- At the place before, by ten times the divisor. -/
theorem roundDiv_dividend_pred (hd : 0 < d) {s : Nat} (hs : (s : Int) + 1 = scale + p) :
    roundDiv (dividend n scale * tenTo s) (divisorAt d scale) =
      roundDiv (n * tenTo p) (d * 10) := by
  refine roundDiv_congr (divisorAt_pos hd _) (by omega) ?_
  have hexponent : (-scale).toNat + (s + 1) = p + scale.toNat := by omega
  have hpower := congrArg tenTo hexponent
  simp only [tenTo_add, tenTo_succ] at hpower
  unfold dividend divisorAt
  calc n * tenTo (-scale).toNat * tenTo s * (d * 10)
      = n * d * (tenTo (-scale).toNat * (tenTo s * 10)) := by ring
    _ = n * d * (tenTo p * tenTo scale.toNat) := by rw [hpower]
    _ = n * tenTo p * (d * tenTo scale.toNat) := by ring

/-- The number is too large if the digits before the point are too many. -/
theorem nearest?_dividend_eq_none (hd : 0 < d) (hp : scale + p ≤ 0)
    (h : limit * d ≤ n * tenTo p) (k : Nat) :
    nearest? (dividend n scale) (divisorAt d scale) k = none := by
  have hunit : divisorAt d scale = d := by
    have hscale : scale.toNat = 0 := by omega
    rw [divisorAt, hscale]
    exact Nat.mul_one d
  have hlarge : limit * d ≤ dividend n scale := calc
    limit * d ≤ n * tenTo p := h
    _ ≤ n * tenTo (-scale).toNat := Nat.mul_le_mul_left n (tenTo_le_tenTo (by omega))
  refine nearest?_eq_none (divisorAt_pos hd _) (not_fits_of_le_div ?_) k
  rw [hunit, Nat.le_div_iff_mul_le hd]
  exact (Nat.mul_one (dividend n scale)).symm ▸ hlarge

end

/-! ### What is found -/

/-- What was found is `nearest? n d 28` and in range, or there is none. -/
def Found (n d : Nat) : Option Quotient → Prop
  | none => nearest? n d 28 = none
  | some f => f.whole < limit ∧ 0 ≤ f.scale ∧ f.scale ≤ 28 ∧
      nearest? n d 28 = some (f.whole / tenTo f.scale.toNat : ℚ)

theorem Found.congr {n d n' d' : Nat} (h : nearest? n d 28 = nearest? n' d' 28)
    {x : Option Quotient} (hx : Found n d x) : Found n' d' x := by
  cases x with
  | none => exact h.symm.trans hx
  | some f => exact ⟨hx.1, hx.2.1, hx.2.2.1, h.symm.trans hx.2.2.2⟩

section

variable {n d q r p : Nat} {scale : Int}

/-- Without a remainder the whole part `q` is the number. -/
theorem found_exact (hd : 0 < d) (hq : q < limit) (hscale : 0 ≤ scale) (hle : scale ≤ 28)
    (extended : Bool) :
    Found (dividend (q * d) scale) (divisorAt d scale) (some ⟨q, scale, extended⟩) := by
  have hone : (-scale).toNat = 0 := by omega
  have hplaces : scale.toNat ≤ 28 := by omega
  have hvalue : dividend (q * d) scale * tenTo scale.toNat = q * divisorAt d scale := by
    unfold dividend divisorAt
    rw [hone, ← Nat.mul_assoc]
    exact congrArg (· * tenTo scale.toNat) (Nat.mul_one (q * d))
  exact ⟨hq, hscale, hle, nearest?_exact (divisorAt_pos hd _) hq hvalue hplaces⟩

/-- A quotient that has outgrown its bits gives up its last digit by `shrink`, and is rounded by it
and by what comes after it. -/
theorem found_shrink (hd : 0 < d) (hn : n * tenTo p = q * d + r) (hr : r < d) (hlow : limit ≤ q)
    (hhigh : q / 10 + 1 < limit) (hle : scale + p ≤ 28) (extended : Bool) :
    Found (dividend n scale) (divisorAt d scale) (shrink q (scale + p) (r != 0) extended) := by
  unfold shrink
  by_cases hwhole : scale + p - 1 < 0
  · rw [if_pos hwhole]
    have hwhole : scale + p ≤ 0 := by omega
    have hlarge : limit * d ≤ n * tenTo p := by
      rw [hn]
      exact Nat.le_trans (Nat.mul_le_mul_right d hlow) (Nat.le_add_right _ _)
    exact nearest?_dividend_eq_none hd hwhole hlarge 28
  rw [if_neg hwhole]
  obtain ⟨s, hs⟩ : ∃ s : Nat, (s : Int) + 1 = scale + p := ⟨(scale + p - 1).toNat, by omega⟩
  have hscale : scale + p - 1 = s := by omega
  have hround : roundDiv (dividend n scale * tenTo s) (divisorAt d scale) =
      q / 10 + if 5 < q % 10 ∨ q % 10 = 5 ∧ (r ≠ 0 ∨ q / 10 % 2 = 1) then 1 else 0 := by
    rw [roundDiv_dividend_pred hd hs, hn, roundDiv_add_ten hr]
  have hfits : Fits (dividend n scale) (divisorAt d scale) s := by
    rw [Fits, hround]
    split <;> omega
  have hlast : ¬Fits (dividend n scale) (divisorAt d scale) (s + 1) := by
    have hplace : ((s + 1 : Nat) : Int) = scale + p := by omega
    rw [Fits, roundDiv_dividend hd hplace, hn, roundDiv_add hr]
    split
    · omega
    split <;> omega
  have hplaces : s ≤ 28 := by omega
  have hnearest := nearest?_of_last (divisorAt_pos hd _) hfits hplaces (.inr hlast)
  have hup : (decide (5 < q % 10) || (q % 10 == 5 && ((r != 0) || q / 10 % 2 == 1))) =
      decide (5 < q % 10 ∨ q % 10 = 5 ∧ (r ≠ 0 ∨ q / 10 % 2 = 1)) := by
    simp [bne, Bool.beq_eq_decide_eq]
  dsimp only
  rw [hup, hscale]
  simp only [decide_eq_true_eq]
  rw [Fits, hround] at hfits
  refine ⟨hfits, Int.natCast_nonneg s, Int.ofNat_le.mpr hplaces, ?_⟩
  rw [hnearest, placed, hround]
  rfl

/-- A quotient in range is rounded out of it only to `limit`, and with a digit less it is rounded up
too. -/
theorem roundDiv_eq_limit_of_not_lt (hq : q < limit) (hr : r < d) (hne : r ≠ 0)
    (h : ¬roundDiv (q * d + r) d < limit) :
    roundDiv (q * d + r) d = limit ∧ roundDiv (q * d + r) (d * 10) = limit / 10 + 1 := by
  have hdiv : (q * d + r) / d = q := by
    rw [Nat.mul_comm, Nat.mul_add_div (by omega), Nat.div_eq_of_lt hr, Nat.add_zero]
  obtain ⟨hround, hdigits⟩ := roundDiv_eq_limit (by rwa [hdiv]) h
  have hfive : q % 10 = 5 ∧ q / 10 = limit / 10 := by
    rw [hdiv] at hdigits
    unfold limit at hdigits ⊢
    omega
  refine ⟨hround, ?_⟩
  rw [roundDiv_add_ten hr, if_pos (.inr ⟨hfive.1, .inl hne⟩), hfive.2]

/-- Where no more digit fits, the remainder decides how the last one is rounded. -/
theorem found_round_of_lt (hd : 0 < d) (hscale : 0 ≤ scale) (hle : scale ≤ 28)
    (hfull : scale = 28 ∨ limit ≤ q * 10) (hlt : roundDiv (q * d + r) d < limit) :
    Found (dividend (q * d + r) scale) (divisorAt d scale)
      (some ⟨roundDiv (q * d + r) d, scale, true⟩) := by
  have hround : roundDiv (dividend (q * d + r) scale * tenTo scale.toNat) (divisorAt d scale) =
      roundDiv (q * d + r) d := by
    rw [roundDiv_dividend (p := 0) hd (by omega)]
    exact congrArg (roundDiv · d) (Nat.mul_one _)
  have hlast : scale.toNat = 28 ∨
      ¬Fits (dividend (q * d + r) scale) (divisorAt d scale) (scale.toNat + 1) := by
    refine hfull.imp (fun h => by omega) fun hmany => ?_
    have hten : limit ≤ (q * d + r) * tenTo 1 / d := by
      rw [Nat.le_div_iff_mul_le hd]
      calc limit * d ≤ q * 10 * d := Nat.mul_le_mul_right d hmany
        _ = q * d * tenTo 1 := Nat.mul_right_comm q 10 d
        _ ≤ (q * d + r) * tenTo 1 := Nat.mul_le_mul_right _ (Nat.le_add_right _ _)
    rw [Fits, roundDiv_dividend (p := 1) hd (by omega)]
    exact Nat.not_lt.mpr (Nat.le_trans hten (le_roundDiv _ _))
  have hplaces : scale.toNat ≤ 28 := by omega
  have hnearest := nearest?_of_last (divisorAt_pos hd _) (by rwa [Fits, hround]) hplaces hlast
  refine ⟨hlt, hscale, hle, ?_⟩
  rw [hnearest, placed, hround]

/-- The digit that rounding up to `limit` adds is given up again. -/
theorem found_shrink_limit (hd : 0 < d) (hscale : 0 ≤ scale) (hle : scale ≤ 28)
    (hround : roundDiv (q * d + r) d = limit)
    (htenth : roundDiv (q * d + r) (d * 10) = limit / 10 + 1) :
    Found (dividend (q * d + r) scale) (divisorAt d scale) (shrink limit scale true true) := by
  have hnot : ¬Fits (dividend (q * d + r) scale) (divisorAt d scale) scale.toNat := by
    have hone : (q * d + r) * tenTo 0 = q * d + r := Nat.mul_one _
    rw [Fits, roundDiv_dividend (p := 0) hd (by omega), hone, hround]
    exact Nat.lt_irrefl limit
  have hshrink : shrink limit scale true true =
    if scale - 1 < 0 then none else some ⟨limit / 10 + 1, scale - 1, true⟩ := rfl
  rw [hshrink]
  by_cases hwhole : scale - 1 < 0
  · have hzero : scale.toNat = 0 := by omega
    rw [if_pos hwhole]
    exact nearest?_eq_none (divisorAt_pos hd _) (hzero ▸ hnot) 28
  rw [if_neg hwhole]
  obtain ⟨s, rfl⟩ : ∃ s : Nat, (s : Int) + 1 = scale := ⟨(scale - 1).toNat, by omega⟩
  have hpred : roundDiv (dividend (q * d + r) (s + 1) * tenTo s) (divisorAt d (s + 1)) =
      limit / 10 + 1 := by
    rw [roundDiv_dividend_pred (p := 0) hd (by omega), ← htenth]
    exact congrArg (roundDiv · (d * 10)) (Nat.mul_one _)
  have hlimit : limit / 10 + 1 < limit := by decide
  have hplaces : s ≤ 28 := by omega
  have hplace : ((s : Int) + 1).toNat = s + 1 := by omega
  have hnearest := nearest?_of_last (divisorAt_pos hd _) (by rwa [Fits, hpred]) hplaces
    (.inr (hplace ▸ hnot))
  rw [Int.add_sub_cancel]
  refine ⟨hlimit, Int.natCast_nonneg s, Int.ofNat_le.mpr hplaces, ?_⟩
  rw [hnearest, placed, hpred]
  rfl

end

/-! ### Long division -/

section

variable {d q r : Nat}

/-- As many digits of the remainder go to the whole part as are asked for. -/
theorem extend_digits (d q r t : Nat) :
    (q * d + r) * t = (q * t + r * t / d) * d + r * t % d := by
  calc (q * d + r) * t = q * t * d + r * t := by ring
    _ = q * t * d + (r * t / d * d + r * t % d) := by rw [Nat.div_add_mod']
    _ = (q * t + r * t / d) * d + r * t % d := by ring

/-- The last digit is rounded as the remainder asks. -/
theorem roundUp_eq (hr : r < d) (q : Nat) :
    (if (decide (d < 2 * r) || (2 * r == d && q % 2 == 1)) = true then q + 1 else q) =
      roundDiv (q * d + r) d := by
  rw [roundDiv_add hr]
  rcases Nat.lt_trichotomy (2 * r) d with hlt | heq | hgt
  · have hup : ¬d < 2 * r ∧ 2 * r ≠ d := by omega
    simp [hlt, hup]
  · rcases Nat.mod_two_eq_zero_or_one q with heven | hodd
    · simp [heq, heven]
    · simp [heq, hodd]
  · have hdown : ¬2 * r < d := by omega
    simp [hgt, hdown]

theorem isInexact_of_narrow (hsize : d < UInt64.size) (n : Nat) :
    isInexact n d = (n % d != 0) := by
  have hwide : ¬(UInt64.size ≤ d ∧ d.log2 < n.log2) := fun h => Nat.not_le.mpr hsize h.1
  rw [isInexact, decide_eq_false hwide, Bool.or_false]

/-- Digits that outgrow the room there is do so by few. -/
theorem outgrown_lt (hr : r < d) {t : Nat} (hq : q * t < limit) (ht : t ≤ tenTo 9) :
    (q * t + r * t / d) / 10 + 1 < limit := by
  have hdigits : r * t / d ≤ t := by
    rw [Nat.div_le_iff_le_mul_add_pred (by omega)]
    have := Nat.mul_le_mul_right t (Nat.le_of_lt hr)
    omega
  have hnine : tenTo 9 = 1000000000 := rfl
  unfold limit at *
  omega

end

/-- **Long division finds the nearest number**, or that there is none: `q` and the remainder `r`
stay the same number all along. -/
theorem extendQuotient_found {d : Nat} (hd : 0 < d) (hsize : d < UInt64.size) (q r : Nat)
    (scale : Int) (extended : Bool) : q < limit → r < d → scale ≤ 28 →
    Found (dividend (q * d + r) scale) (divisorAt d scale)
      (extendQuotient d q r scale extended) := by
  induction q, r, scale, extended using extendQuotient.induct d with
  | case1 q scale extended hscale =>
    intro hq _ hle
    rw [extendQuotient, if_pos rfl, if_pos hscale]
    exact found_exact hd hq hscale hle extended
  | case2 q scale extended hscale p hlarge =>
    intro hq _ hle
    rw [extendQuotient, if_pos rfl, if_neg hscale, if_pos hlarge]
    have hmany : limit * d ≤ (q * d + 0) * tenTo p := calc
      limit * d ≤ q * tenTo p * d := Nat.mul_le_mul_right d hlarge
      _ = (q * d + 0) * tenTo p := Nat.mul_right_comm q (tenTo p) d
    exact nearest?_dividend_eq_none hd (by omega) hmany 28
  | case3 q scale extended hscale p hlarge ih =>
    intro hq hr hle
    rw [extendQuotient, if_pos rfl, if_neg hscale, if_neg hlarge]
    have hstep : q * tenTo p * d + 0 = (q * d + 0) * tenTo p := Nat.mul_right_comm q (tenTo p) d
    have hfound := ih (Nat.not_le.mp hlarge) hr (by omega)
    rw [hstep] at hfound
    exact hfound.congr (nearest?_extend hd 28)
  | case4 q r scale extended hne p hwhole =>
    intro hq hr hle
    rw [extendQuotient, if_neg hne, if_pos hwhole]
    have hroom : p < Min.min 9 (28 - scale).toNat := by omega
    have hmany : limit * d ≤ (q * d + r) * tenTo (p + 1) := calc
      limit * d ≤ q * tenTo (p + 1) * d := Nat.mul_le_mul_right d (limit_le_of_headroom_lt hroom)
      _ = q * d * tenTo (p + 1) := Nat.mul_right_comm _ _ _
      _ ≤ (q * d + r) * tenTo (p + 1) := Nat.mul_le_mul_right _ (Nat.le_add_right _ _)
    exact nearest?_dividend_eq_none hd (by omega) hmany 28
  | case5 q r scale extended hne p hwhole hzero up rounded hlt =>
    intro hq hr hle
    have hrounded : rounded = roundDiv (q * d + r) d := roundUp_eq hr q
    have hfits : roundDiv (q * d + r) d < limit := hrounded ▸ hlt
    rw [extendQuotient, if_neg hne, if_neg hwhole, dif_pos hzero]
    dsimp only
    rw [roundUp_eq hr, if_pos hfits]
    exact found_round_of_lt hd (by omega) hle (full_of_headroom_eq_zero hle hzero) hfits
  | case6 q r scale extended hne p hwhole hzero up rounded hlt =>
    intro hq hr hle
    have hrounded : rounded = roundDiv (q * d + r) d := roundUp_eq hr q
    have hlimit : ¬roundDiv (q * d + r) d < limit := hrounded ▸ hlt
    obtain ⟨hround, htenth⟩ := roundDiv_eq_limit_of_not_lt hq hr hne hlimit
    rw [extendQuotient, if_neg hne, if_neg hwhole, dif_pos hzero]
    dsimp only
    rw [roundUp_eq hr, if_neg hlimit, hround]
    exact found_shrink_limit hd (by omega) hle hround htenth
  | case7 q r scale extended hne p hwhole hzero n q' hlarge =>
    intro hq hr hle
    rw [extendQuotient, if_neg hne, if_neg hwhole, dif_neg hzero, if_pos hlarge,
      isInexact_of_narrow hsize]
    have hroom : p ≤ Min.min 9 (28 - scale).toNat := headroom_le _ _
    have hhigh := outgrown_lt hr (headroom_lt hq _) (tenTo_le_tenTo (by omega : p ≤ 9))
    exact found_shrink hd (extend_digits d q r (tenTo p)) (Nat.mod_lt _ hd) hlarge hhigh
      (by omega) true
  | case8 q r scale extended hne p hwhole hzero n q' hlarge ih =>
    intro hq hr hle
    rw [extendQuotient, if_neg hne, if_neg hwhole, dif_neg hzero, if_neg hlarge]
    have hroom : p ≤ Min.min 9 (28 - scale).toNat := headroom_le _ _
    have hfound := ih (Nat.not_le.mp hlarge) (Nat.mod_lt _ hd) (by omega)
    rw [← extend_digits d q r (tenTo p)] at hfound
    exact hfound.congr (nearest?_extend hd 28)

/-! ### Zeros at the end -/

/-- The two are the same number, `x` with as many digits and places as `y` or less. -/
structure Shorter (x y : Nat × Nat) : Prop where
  mantissa_le : x.1 ≤ y.1
  scale_le : x.2 ≤ y.2
  same : x.1 * tenTo y.2 = y.1 * tenTo x.2

namespace Shorter

theorem refl (x : Nat × Nat) : Shorter x x := ⟨Nat.le_refl _, Nat.le_refl _, rfl⟩

theorem trans {x y z : Nat × Nat} (h : Shorter x y) (h' : Shorter y z) : Shorter x z where
  mantissa_le := Nat.le_trans h.mantissa_le h'.mantissa_le
  scale_le := Nat.le_trans h.scale_le h'.scale_le
  same := by
    refine Nat.eq_of_mul_eq_mul_right (tenTo_pos y.2) ?_
    calc x.1 * tenTo z.2 * tenTo y.2 = x.1 * tenTo y.2 * tenTo z.2 := Nat.mul_right_comm _ _ _
      _ = y.1 * tenTo z.2 * tenTo x.2 := by rw [h.same, Nat.mul_right_comm]
      _ = z.1 * tenTo x.2 * tenTo y.2 := by rw [h'.same, Nat.mul_right_comm]

/-- Zeros at the end may be dropped. -/
theorem drop {q s k : Nat} (hk : k ≤ s) (h : q % tenTo k = 0) :
    Shorter (q / tenTo k, s - k) (q, s) where
  mantissa_le := Nat.div_le_self q _
  scale_le := Nat.sub_le s k
  same := by
    have hq : q = q / tenTo k * tenTo k := (Nat.div_mul_cancel (Nat.dvd_of_mod_eq_zero h)).symm
    calc q / tenTo k * tenTo s = q / tenTo k * (tenTo k * tenTo (s - k)) := by
          rw [← tenTo_add, Nat.add_sub_cancel' hk]
      _ = q * tenTo (s - k) := by rw [← Nat.mul_assoc, ← hq]

end Shorter

theorem shorter_dropZeros (granule k : Nat) (x : Nat × Nat) :
    Shorter (dropZeros granule k x) x := by
  unfold dropZeros
  split
  · rename_i h
    exact .drop h.2.1 h.2.2
  · exact .refl x

theorem shorter_dropEights (q s : Nat) : Shorter (dropEights q s) (q, s) := by
  induction q, s using dropEights.induct with
  | case1 q s h ih =>
    rw [dropEights, dif_pos h]
    exact ih.trans (.drop h.2.1 h.2.2)
  | case2 q s h =>
    rw [dropEights, dif_neg h]
    exact .refl _

/-- A quotient loses nothing but zeros at its end by `stripZeros`. -/
theorem shorter_stripZeros (q s : Nat) : Shorter (stripZeros q s) (q, s) :=
  (shorter_dropZeros 2 1 _).trans <| (shorter_dropZeros 4 2 _).trans <|
    (shorter_dropZeros 16 4 _).trans (shorter_dropEights q s)

/-! ### Quotients -/

theorem map_toRat_ofUnsignedZero? {negative : Bool} {m s : Nat} (hm : m < limit) (hs : s ≤ 28) :
    (ofUnsignedZero? negative m s).map toRat =
      some (if negative then -(m / tenTo s : ℚ) else m / tenTo s) := by
  rw [ofUnsignedZero?, map_toRat_of? hm hs]
  rcases Nat.eq_zero_or_pos m with rfl | hpos
  · simp
  · have hne : (m != 0) = true := bne_iff_ne.mpr hpos.ne'
    rw [hne, Bool.and_true]

theorem abs_toRat_div_toRat (a b : Decimal) :
    |a.toRat / b.toRat| =
      (a.mantissa * tenTo b.scale : Nat) / (b.mantissa * tenTo a.scale : Nat) := by
  rw [abs_div, abs_toRat, abs_toRat, div_div_div_eq, mul_comm (tenTo a.scale : ℚ)]
  push_cast
  rfl

/-- The division `a.div b` comes to the number that stands for the quotient. -/
def EvenlyDivided (a b : Decimal) : Prop := (a.div b).map toRat = round? (a.toRat / b.toRat)

/-- Long division starts with the number that is asked for. -/
theorem nearest?_start {m n : Nat} (hn : 0 < n) (s s' : Nat) :
    nearest? (dividend (m / n * n + m % n) (s - s')) (divisorAt n (s - s')) 28 =
      nearest? (m * tenTo s') (n * tenTo s) 28 := by
  refine nearest?_congr (divisorAt_pos hn _) (Nat.mul_pos hn (tenTo_pos s)) ?_ 28
  have hexponent : (-((s : Int) - s')).toNat + s = s' + ((s : Int) - s').toNat := by omega
  have hpower := congrArg tenTo hexponent
  simp only [tenTo_add] at hpower
  unfold dividend divisorAt
  rw [Nat.div_add_mod']
  calc m * tenTo (-((s : Int) - s')).toNat * (n * tenTo s)
      = m * n * (tenTo (-((s : Int) - s')).toNat * tenTo s) := by ring
    _ = m * n * (tenTo s' * tenTo ((s : Int) - s').toNat) := by rw [hpower]
    _ = m * tenTo s' * (n * tenTo ((s : Int) - s').toNat) := by ring

/-- A number is written without the zeros at its end, and with a sign unless it is zero. -/
theorem map_toRat_of_shorter {negative : Bool} {x y : Nat × Nat} (h : Shorter x y)
    (hm : y.1 < limit) (hs : y.2 ≤ 28) : (ofUnsignedZero? negative x.1 x.2).map toRat =
      some (if negative then -(y.1 / tenTo y.2 : ℚ) else y.1 / tenTo y.2) := by
  have hsame : (x.1 / tenTo x.2 : ℚ) = y.1 / tenTo y.2 := by
    rw [div_eq_div_iff (cast_tenTo_ne_zero _) (cast_tenTo_ne_zero _)]
    exact_mod_cast h.same
  rw [map_toRat_ofUnsignedZero? (Nat.lt_of_le_of_lt h.mantissa_le hm) (Nat.le_trans h.scale_le hs),
    hsame]

/-- **A quotient is rounded** to the number that stands for it, if the divisor `b` has at most 64
bits. -/
theorem evenlyDivided_of_narrow {a b : Decimal} (hb : b.isZero = false)
    (hsize : b.mantissa < UInt64.size) : EvenlyDivided a b := by
  have hd : 0 < b.mantissa := Nat.pos_of_ne_zero (by simpa [isZero] using hb)
  unfold EvenlyDivided div
  cases ha : a.isZero with
  | true =>
    rw [if_pos rfl, toRat_of_isZero ha, zero_div]
    simpa using (round?_toRat zero).symm
  | false =>
    have hwhole : a.mantissa / b.mantissa < limit :=
      Nat.lt_of_le_of_lt (Nat.div_le_self _ _) a.mantissa_lt
    have hplaces : (a.scale - b.scale : Int) ≤ 28 := by
      have := a.scale_le
      omega
    have hfound := (extendQuotient_found hd hsize _ _ _ false hwhole (Nat.mod_lt a.mantissa hd)
      hplaces).congr (nearest?_start hd a.scale b.scale)
    have hsign : a.toRat / b.toRat < 0 ↔ (a.negative != b.negative) = true := by
      rw [negative_bne_iff ha hb, div_neg_iff, mul_neg_iff]
    rw [if_neg Bool.false_ne_true,
      round?_eq (Nat.mul_pos hd (tenTo_pos _)) (abs_toRat_div_toRat a b)]
    cases hquotient : extendQuotient b.mantissa (a.mantissa / b.mantissa)
        (a.mantissa % b.mantissa) (a.scale - b.scale) false with
    | none =>
      rw [hquotient] at hfound
      have hnone : nearest? (a.mantissa * tenTo b.scale) (b.mantissa * tenTo a.scale) 28 = none :=
        hfound
      rw [hnone]
      rfl
    | some f =>
      rw [hquotient] at hfound
      obtain ⟨hrange, -, hscale, hvalue⟩ := hfound
      rw [hvalue, Option.map_some]
      have hshorter : Shorter (if f.extended then stripZeros f.whole f.scale.toNat
          else (f.whole, f.scale.toNat)) (f.whole, f.scale.toNat) := by
        split
        · exact shorter_stripZeros _ _
        · exact .refl _
      simp only [hsign]
      exact map_toRat_of_shorter hshorter hrange (show f.scale.toNat ≤ 28 by omega)

end Decimal
end Covenant
