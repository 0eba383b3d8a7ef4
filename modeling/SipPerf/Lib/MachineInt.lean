import Mathlib.Algebra.Order.Ring.Nat

/-!
# Fixed-Width Integers

The conversions between C integer types, on the unbounded integers. A value
of an unsigned type of width `w` is a natural number below `2 ^ w`, and
arithmetic on it is arithmetic of the naturals followed by reduction. A
conversion to `int` keeps the value modulo `2 ^ 32` and picks the
representative in the signed range, which is what every compiler of interest
does with a value that does not fit.

## Main definitions

* `u32`: Reduction to a 32-bit unsigned value.
* `u64`: Reduction to a 64-bit unsigned value.
* `dec32`: Decrement of a 32-bit unsigned value.
* `sub64`: Subtraction of 64-bit unsigned values.
* `toInt32`: Conversion to a 32-bit signed value.

## Theorems

* `u32_of_lt`: A value in range is kept.
* `u64_of_lt`: A value in range is kept.
* `dec32_of_pos`: A positive value in range is decremented.
* `toInt32_sub64`: Converting a difference of 64-bit values.
-/

namespace SipPerf

namespace MachineInt

/-- Reduction to a 32-bit unsigned value. -/
def u32 (n : Nat) : Nat := n % 2 ^ 32

/-- Reduction to a 64-bit unsigned value. -/
def u64 (n : Nat) : Nat := n % 2 ^ 64

/-- Decrement of a 32-bit unsigned value. Zero wraps to the largest one. -/
def dec32 (n : Nat) : Nat := (n + (2 ^ 32 - 1)) % 2 ^ 32

/-- Subtraction of 64-bit unsigned values. -/
def sub64 (a b : Nat) : Nat := (a + (2 ^ 64 - b % 2 ^ 64)) % 2 ^ 64

/-- Conversion to a 32-bit signed value. -/
def toInt32 (x : Int) : Int := (x + 2 ^ 31) % 2 ^ 32 - 2 ^ 31

theorem u32_of_lt (n : Nat) (h : n < 2 ^ 32) : u32 n = n := Nat.mod_eq_of_lt h

theorem u64_of_lt (n : Nat) (h : n < 2 ^ 64) : u64 n = n := Nat.mod_eq_of_lt h

theorem dec32_of_pos (n : Nat) (hpos : 0 < n) (h : n ≤ 2 ^ 32) : dec32 n = n - 1 := by
  unfold dec32
  omega

/-- The conversion to `int` sees a 64-bit difference as the difference of the
    integers: `2 ^ 32` divides `2 ^ 64`. -/
theorem toInt32_sub64 (a b : Nat) :
    toInt32 (sub64 a b) = toInt32 ((a : Int) - b) := by
  unfold toInt32 sub64
  omega

/-- A value in the signed range is kept. -/
theorem toInt32_of_range (x : Int) (hlo : -2 ^ 31 ≤ x) (hhi : x < 2 ^ 31) : toInt32 x = x := by
  unfold toInt32
  omega

end MachineInt

end SipPerf
