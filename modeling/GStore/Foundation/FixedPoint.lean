import Mathlib

/-! # Fixed-point numbers

A mantissa, and how many of its digits stand behind the point. Numbers of one scale are added and
compared by their mantissas; a number is brought to a larger scale by digits of zero. -/

namespace GStore.FixedPoint

/-- The number of a mantissa at a scale. -/
def number (base : ℕ) (mant : ℤ) (scale : ℕ) : ℚ := mant / (base : ℚ) ^ scale

variable {base scale target : ℕ}

end GStore.FixedPoint
