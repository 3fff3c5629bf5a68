import Mathlib

/-!
# Rounded arithmetic

A rounding is monotone and leaves the small integers alone, as rounding to a
double does.  A number of units that is computed as its whole part plus its
fraction, with every operation rounded, still respects integer bounds.
-/

/-- Rounding to numbers among which are all integers up to `2 ^ 53`. -/
structure Rounding where
  round : ℚ → ℚ
  mono : Monotone round
  exact : ∀ n : ℤ, |n| ≤ 2 ^ 53 → round n = n

namespace Rounding

/-- Conversion to an integer, towards zero. -/
def truncate (q : ℚ) : ℤ := if 0 ≤ q then ⌊q⌋ else ⌈q⌉

theorem truncate_le {q : ℚ} {bound : ℤ} (nonneg : 0 ≤ bound) (le : q ≤ bound) :
    truncate q ≤ bound := by
  unfold truncate
  split
  next =>
    have floored : (⌊q⌋ : ℚ) ≤ bound := (Int.floor_le q).trans le
    exact_mod_cast floored
  next negative =>
    exact (Int.ceil_le.mpr (by simpa using (not_le.mp negative).le)).trans nonneg

variable (rounding : Rounding)

/-- `d` in units, as the sum of its whole part and its fraction. -/
def quotient (d unit : ℤ) : ℚ :=
  rounding.round (rounding.round (d.tdiv unit) +
    rounding.round (rounding.round (d.tmod unit) / rounding.round unit))

variable {rounding}

theorem round_le_intCast {q : ℚ} {bound : ℤ} (small : |bound| ≤ 2 ^ 53) (le : q ≤ bound) :
    rounding.round q ≤ bound := by
  rw [← rounding.exact bound small]
  exact rounding.mono le

-- Either the whole part is below the bound, and the fraction at most one, or
-- the whole part is the bound and there is no fraction.
theorem quotient_le {d unit bound : ℤ} (positive : 0 < unit) (smallUnit : unit ≤ 2 ^ 53)
    (nonneg : 0 ≤ bound) (small : bound ≤ 2 ^ 53) (whole : |d.tdiv unit| ≤ 2 ^ 53)
    (le : d ≤ bound * unit) : rounding.quotient d unit ≤ bound := by
  have above : d.tmod unit < unit := Int.tmod_lt_of_pos d positive
  have below : -unit < d.tmod unit := Int.lt_tmod_of_pos d positive
  have parts : unit * d.tdiv unit + d.tmod unit = d := Int.mul_tdiv_add_tmod d unit
  have remainder : |d.tmod unit| ≤ 2 ^ 53 := by
    rw [abs_le]
    constructor <;> omega
  have unitPositive : (0 : ℚ) < unit := by exact_mod_cast positive
  rw [quotient, rounding.exact _ whole, rounding.exact _ remainder,
    rounding.exact unit (by rwa [abs_of_pos positive])]
  apply round_le_intCast (by rwa [abs_of_nonneg nonneg])
  rcases le_or_gt (d.tmod unit) 0 with none | some
  · have wholeLe : d.tdiv unit ≤ bound := by
      apply Int.le_of_lt_add_one
      apply lt_of_mul_lt_mul_left _ positive.le
      linarith
    have fraction : rounding.round (d.tmod unit / unit) ≤ (0 : ℤ) := by
      apply round_le_intCast (by norm_num)
      rw [Int.cast_zero]
      exact div_nonpos_of_nonpos_of_nonneg (by exact_mod_cast none) unitPositive.le
    have wholeCast : ((d.tdiv unit : ℤ) : ℚ) ≤ bound := by exact_mod_cast wholeLe
    push_cast at fraction
    linarith
  · have wholeLt : d.tdiv unit < bound := by
      apply lt_of_mul_lt_mul_left _ positive.le
      linarith
    have fraction : rounding.round (d.tmod unit / unit) ≤ (1 : ℤ) := by
      apply round_le_intCast (by norm_num)
      rw [Int.cast_one, div_le_one unitPositive]
      exact_mod_cast above.le
    have wholeCast : ((d.tdiv unit : ℤ) : ℚ) + 1 ≤ bound := by exact_mod_cast wholeLt
    push_cast at fraction
    linarith

end Rounding
