import Mathlib

/-! # Machine integers with checks

A signed machine integer is an integer within the bounds of its width, and an operation is the one
on integers with nothing in the place of a result beyond them. -/

namespace GStore

/-- The integers of a signed machine type. -/
def InWidth (bits : ℕ) (value : ℤ) : Prop :=
  -((2 ^ (bits - 1) : ℕ) : ℤ) ≤ value ∧ value < ((2 ^ (bits - 1) : ℕ) : ℤ)

instance (bits : ℕ) (value : ℤ) : Decidable (InWidth bits value) :=
  inferInstanceAs (Decidable (_ ∧ _))

def checked (bits : ℕ) (value : ℤ) : Option ℤ := if InWidth bits value then some value else none

variable {bits : ℕ} {value result : ℤ}

theorem checked_eq_some : checked bits value = some result ↔ InWidth bits value ∧ result = value := by
  rw [checked]
  split
  · rename_i inside
    rw [Option.some.injEq, eq_comm, and_iff_right inside]
  · rename_i outside
    exact iff_of_false (Option.some_ne_none _ ∘ Eq.symm) fun both => outside both.1

theorem inWidth_64 : InWidth 64 value ↔
    -9223372036854775808 ≤ value ∧ value < 9223372036854775808 := by
  rw [InWidth]
  norm_num

/-- Division that rounds to zero, of a dividend that was moved down if it is negative, rounds
down. -/
theorem tdiv_of_shifted {divisor : ℤ} (positive : 0 < divisor) (dividend : ℤ) :
    (if 0 ≤ dividend then dividend else dividend - (divisor - 1)).tdiv divisor =
      dividend / divisor := by
  split
  · rename_i nonneg
    exact Int.tdiv_eq_ediv_of_nonneg nonneg
  · rename_i negative
    have shifted : -(dividend - (divisor - 1)) = -dividend + (divisor - 1) := by ring
    have nonneg : 0 ≤ -dividend + (divisor - 1) := by omega
    rw [← neg_neg (dividend - (divisor - 1)), Int.neg_tdiv, shifted,
      Int.tdiv_eq_ediv_of_nonneg nonneg]
    -- The negated quotient rounds up.
    have remainder := Int.emod_add_mul_ediv dividend divisor
    have low := Int.emod_nonneg dividend positive.ne'
    have high := Int.emod_lt_of_pos dividend positive
    have split : -dividend + (divisor - 1) =
        (divisor - 1 - dividend % divisor) + divisor * (-(dividend / divisor)) := by
      linear_combination remainder
    rw [split, Int.add_mul_ediv_left _ _ positive.ne',
      Int.ediv_eq_zero_of_lt (by omega) (by omega)]
    omega

end GStore
