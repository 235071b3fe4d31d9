import MarketAggregator.FaithfulRounding
import MarketAggregator.WindowBuckets
import Mathlib.Algebra.Order.Field.Rat
import Mathlib.Algebra.Order.Floor.Semiring
import Mathlib.Tactic.Linarith
import Mathlib.Tactic.Positivity

/-!
# Decimal arithmetic that rounds

A decimal has 96 bits and at most 28 places. A result of an operation that has more places is
rounded to them, and one that has more than 96 bits before the point is none. Whole numbers of
96 bits are decimals, and so are the numbers of smallest places, so bounds of these kinds hold
of rounded results.
-/

namespace DecimalRounding

open Decimals FaithfulRounding WindowBuckets

/-- Rounded to a whole number it has no more than 96 bits. -/
def Fits (q : ℚ) : Prop := |q| < 2 ^ 96 - 1 / 2

instance : DecidablePred Fits := fun q => inferInstanceAs (Decidable (|q| < 2 ^ 96 - 1 / 2))

/-- The numbers that a decimal can hold. -/
def representable : Set ℚ := Set.range valueOf

/-- The four operations on decimals. The operands and the results are their values. -/
abbrev Rounding := Arithmetic representable Fits

def Rounding.exact : Rounding := Arithmetic.exact representable Fits

/-- The largest whole number of 96 bits. -/
def ceiling : Nat := 2 ^ 96 - 1

theorem mem_fraction {k places : Nat} (small : k ≤ ceiling) (few : places ≤ 28) :
    (k : ℚ) / 10 ^ places ∈ representable := by
  have fits : k < 2 ^ 96 := by
    rw [ceiling] at small
    omega
  exact ⟨⟨false, k, places, fits, few⟩, rfl⟩

theorem mem_natCast {k : Nat} (small : k ≤ ceiling) : (k : ℚ) ∈ representable := by
  have whole := mem_fraction small (Nat.zero_le 28)
  rwa [pow_zero, div_one] at whole

theorem mem_zero : (0 : ℚ) ∈ representable := by
  have zero := mem_natCast (Nat.zero_le ceiling)
  rwa [Nat.cast_zero] at zero

theorem mem_neg {q : ℚ} (own : q ∈ representable) : -q ∈ representable := by
  obtain ⟨d, rfl⟩ := own
  refine ⟨{ d with negative := !d.negative }, ?_⟩
  cases sign : d.negative with
  | true => simp [valueOf, sign, neg_div]
  | false => simp [valueOf, sign, neg_div]

theorem valueOf_le (d : Decimal) : |valueOf d| ≤ ceiling := by
  have mantissa : (d.mantissa : ℚ) ≤ ceiling := by
    have below : d.mantissa ≤ ceiling := Nat.le_pred_of_lt d.fits
    exact_mod_cast below
  have scaled : (1 : ℚ) ≤ 10 ^ d.scale := one_le_pow₀ (by norm_num)
  have magnitude : |if d.negative then -(d.mantissa : ℚ) else d.mantissa| = d.mantissa := by
    split <;> simp
  rw [valueOf, abs_div, magnitude, abs_of_pos (by positivity)]
  exact (div_le_self (Nat.cast_nonneg _) scaled).trans mantissa

theorem fits_of_le {q : ℚ} (small : |q| ≤ ceiling) : Fits q := by
  have room : (ceiling : ℚ) < 2 ^ 96 - 1 / 2 := by norm_num [ceiling]
  exact small.trans_lt room

section Results

variable {q r low high : ℚ} {k : Nat}

theorem le_of_mem (own : q ∈ representable) : |q| ≤ ceiling := by
  obtain ⟨d, rfl⟩ := own
  exact valueOf_le d

/-- An exact result between two decimals fits, and the rounded one is between them as well. -/
theorem fits_between (faithful : Fits q → Faithful representable q r)
    (lows : low ∈ representable) (highs : high ∈ representable) (bounds : low ≤ q ∧ q ≤ high) :
    Fits q ∧ low ≤ r ∧ r ≤ high := by
  have least := abs_le.mp (le_of_mem lows)
  have most := abs_le.mp (le_of_mem highs)
  have fits : Fits q :=
    fits_of_le (abs_le.mpr ⟨least.1.trans bounds.1, bounds.2.trans most.2⟩)
  exact ⟨fits, (faithful fits).between lows highs bounds⟩

/-- The same of a whole number that bounds the magnitude. -/
theorem fits_within (faithful : Fits q → Faithful representable q r) (small : k ≤ ceiling)
    (bound : |q| ≤ k) : Fits q ∧ |r| ≤ k := by
  have high := mem_natCast small
  obtain ⟨fits, bounds⟩ := fits_between faithful (mem_neg high) high (abs_le.mp bound)
  exact ⟨fits, abs_le.mpr bounds⟩

/-- And of the next whole number. -/
theorem fits_ceil (faithful : Fits q → Faithful representable q r) (small : ⌈|q|⌉₊ ≤ ceiling) :
    Fits q ∧ |r| ≤ ⌈|q|⌉₊ :=
  fits_within faithful small (Nat.le_ceil _)

end Results

end DecimalRounding
