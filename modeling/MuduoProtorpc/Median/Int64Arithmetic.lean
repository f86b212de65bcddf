import Mathlib.Algebra.Order.Ring.Int
import MuduoProtorpc.Foundation.OrderStatistics
import MuduoProtorpc.Median.Collector

/-!
# Numbers that stay in their range

Where the results of the collector's arithmetic are in the range of `int64`, they are those of the
integers; so is the middle of two numbers, though their distance may be out of the range
(`toInt_middle`).
-/

set_option autoImplicit false
set_option relaxedAutoImplicit false

namespace MuduoProtorpc.Median

section Arithmetic

variable {first second : Int64}

theorem toInt_add_of_mem (hlow : -2 ^ 63 ≤ first.toInt + second.toInt)
    (hhigh : first.toInt + second.toInt < 2 ^ 63) :
    (first + second).toInt = first.toInt + second.toInt := by
  rw [Int64.toInt_add]
  exact Int.bmod_eq_of_le (by omega) (by omega)

theorem toInt_sub_of_mem (hlow : -2 ^ 63 ≤ first.toInt - second.toInt)
    (hhigh : first.toInt - second.toInt < 2 ^ 63) :
    (first - second).toInt = first.toInt - second.toInt := by
  rw [Int64.toInt_sub]
  exact Int.bmod_eq_of_le (by omega) (by omega)

/-- The unsigned value of a number is the number up to a multiple of 2^64. -/
theorem toInt_eq_toUInt64 (number : Int64) :
    number.toInt = (number.toUInt64.toNat : ℤ).bmod (2 ^ 64) :=
  BitVec.toInt_eq_toNat_bmod number.toBitVec

/-- The distance of two numbers, as an unsigned number. -/
theorem toNat_distance (hle : first ≤ second) :
    ((second - first).toUInt64.toNat : ℤ) = second.toInt - first.toInt := by
  have hsub := Int64.toInt_sub second first
  rw [toInt_eq_toUInt64 (second - first)] at hsub
  have hlt := (second - first).toUInt64.toNat_lt
  have hbound := second.toInt_lt
  have hlow := first.le_toInt
  rw [Int64.le_iff_toInt_le] at hle
  have hsame := congrArg (fun number : ℤ ↦ number % (2 ^ 64 : ℕ)) hsub
  simp only [Int.bmod_emod] at hsame
  omega

/-- The middle of two numbers. -/
theorem toInt_middle (hle : first ≤ second) :
    (middle first second).toInt = first.toInt + (second.toInt - first.toInt) / 2 := by
  have hdistance := toNat_distance hle
  have hlt := (second - first).toUInt64.toNat_lt
  have hbound := second.toInt_lt
  have hlow := first.le_toInt
  rw [Int64.le_iff_toInt_le] at hle
  have hhalf : ((second - first).toUInt64 / 2).toInt64.toInt =
      (second.toInt - first.toInt) / 2 := by
    rw [toInt_eq_toUInt64, UInt64.toUInt64_toInt64, UInt64.toNat_div]
    show ((((second - first).toUInt64.toNat / 2 : ℕ) : ℤ)).bmod (2 ^ 64) = _
    rw [Int.bmod_eq_of_le (by omega) (by omega)]
    omega
  unfold middle
  rw [toInt_add_of_mem, hhalf]
  · rw [hhalf]
    omega
  · rw [hhalf]
    omega

end Arithmetic

end MuduoProtorpc.Median
