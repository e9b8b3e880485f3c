import Mathlib.Algebra.Order.Ring.Int

/-!
# Fixed-width integers

The `int` and `long` of both languages as integers, with the reduction their arithmetic applies.
-/

namespace Barn

/-- The 32-bit two's-complement value with the same low 32 bits. -/
def toInt (value : Int) : Int :=
  value.bmod (2 ^ 32)

/-- The 64-bit two's-complement value with the same low 64 bits. -/
def toLong (value : Int) : Int :=
  value.bmod (2 ^ 64)

/-- A value in the range of `int` is unchanged. -/
theorem toInt_of_range {value : Int} (hlow : -2 ^ 31 ≤ value) (hhigh : value < 2 ^ 31) :
    toInt value = value := by
  simp only [toInt, Int.bmod_def]
  omega

/-- A value in the range of `long` is unchanged. -/
theorem toLong_of_range {value : Int} (hlow : -2 ^ 63 ≤ value) (hhigh : value < 2 ^ 63) :
    toLong value = value := by
  simp only [toLong, Int.bmod_def]
  omega

/-- An `int` is less than `2 ^ 31`. -/
theorem toInt_lt (value : Int) : toInt value < 2 ^ 31 := by
  simp only [toInt, Int.bmod_def]
  omega

/-- Nor is it less than the least one. -/
theorem neg_le_toInt (value : Int) : -2 ^ 31 ≤ toInt value := by
  simp only [toInt, Int.bmod_def]
  omega

/-- A value that has been reduced is an `int`. -/
@[simp] theorem toInt_toInt (value : Int) : toInt (toInt value) = toInt value := by
  simp [toInt]

/-- A value that is not negative can only become less. -/
theorem toLong_le {value : Int} (h : 0 ≤ value) : toLong value ≤ value := by
  simp only [toLong, Int.bmod_def]
  omega

/-- Reducing an operand of a 32-bit sum first makes no difference. -/
@[simp] theorem toInt_add_toInt (first second : Int) :
    toInt (toInt first + second) = toInt (first + second) := by
  simp [toInt]

/-- So it is for a 64-bit sum. -/
@[simp] theorem toLong_add_toLong (first second : Int) :
    toLong (toLong first + second) = toLong (first + second) := by
  simp [toLong]

/-- So it is for a 64-bit difference. -/
@[simp] theorem toLong_sub_toLong (first second : Int) :
    toLong (toLong first - second) = toLong (first - second) := by
  simp [toLong]

end Barn
