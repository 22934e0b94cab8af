import Mathlib

/-!
# Wrapping 64-bit integers

Go's `int` on a 64-bit machine: every result is reduced to the residue in `[-2^63, 2^63)`.
-/

namespace Hnatsd.Misc

/-- The 64-bit signed integer with the bits of `n`. -/
def wrap64 (n : Int) : Int := n.bmod (2 ^ 64)

/-- The integers a Go `int64` can have. -/
def Fits64 (n : Int) : Prop := -(2 ^ 63) ≤ n ∧ n < 2 ^ 63

instance (n : Int) : Decidable (Fits64 n) := inferInstanceAs (Decidable (_ ∧ _))

theorem wrap64_of_bounds {n : Int} (low : -(2 ^ 63) ≤ n) (high : n < 2 ^ 63) : wrap64 n = n := by
  unfold wrap64
  rw [Int.bmod_eq_of_le] <;> omega

theorem wrap64_bounds (n : Int) : -(2 ^ 63) ≤ wrap64 n ∧ wrap64 n < 2 ^ 63 := by
  have low := @Int.le_bmod n (2 ^ 64) (by decide)
  have high := @Int.bmod_lt n (2 ^ 64) (by decide)
  unfold wrap64
  omega

/-- Wrapping early changes nothing. -/
theorem wrap64_add_left (m n : Int) : wrap64 (wrap64 m + n) = wrap64 (m + n) := by
  unfold wrap64
  exact Int.bmod_add_bmod

theorem wrap64_mul_add (m k n : Int) : wrap64 (wrap64 m * k + n) = wrap64 (m * k + n) := by
  have product : wrap64 (wrap64 m * k) = wrap64 (m * k) := Int.bmod_mul_bmod
  rw [← wrap64_add_left, product, wrap64_add_left]

theorem wrap64_sub_left (m n : Int) : wrap64 (wrap64 m - n) = wrap64 (m - n) := by
  rw [Int.sub_eq_add_neg, wrap64_add_left, ← Int.sub_eq_add_neg]

/-- Sums of two sizes that do not fit turn negative. -/
theorem wrap64_of_overflow {n : Int} (low : 2 ^ 63 ≤ n) (high : n < 2 ^ 64) :
    wrap64 n = n - 2 ^ 64 := by
  unfold wrap64
  rw [Int.bmod_def]
  omega

end Hnatsd.Misc
