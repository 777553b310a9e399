import Mathlib.Data.Nat.Log
import Mathlib.Algebra.Group.Nat.Defs

/-!
# Whole numbers seen through a double

An unsigned 64-bit value compared with a double is converted first, and the
conversion rounds: 53 bits of significand, to nearest, ties to even. The
values met here are whole numbers and stay whole after rounding, so the
conversion is a function on `Nat` and no fraction ever appears.

Below `2 ^ 53` the conversion is the identity. That is the one fact a caller
wants, because it says when a comparison made in doubles is the comparison of
the numbers themselves.
-/

namespace Daenet.Lib

/-- The double nearest to a natural number, itself a natural number. The
exponent is what the number has beyond 53 bits; the quotient is rounded to
nearest, and a tie goes to the even quotient. -/
def roundDouble (n : Nat) : Nat :=
  let e := Nat.log2 n - 52
  let q := n / 2 ^ e
  let r := n % 2 ^ e
  if 2 * r < 2 ^ e ∨ (2 * r = 2 ^ e ∧ q % 2 = 0) then q * 2 ^ e
  else (q + 1) * 2 ^ e

/-- The sum of two doubles is the double nearest to their sum. -/
def addDouble (a b : Nat) : Nat := roundDouble (a + b)

theorem roundDouble_of_lt {n : Nat} (h : n < 2 ^ 53) : roundDouble n = n := by
  have hlog : Nat.log2 n - 52 = 0 := by
    rcases Nat.eq_zero_or_pos n with rfl | hpos
    · simp
    · have := (Nat.log2_lt (by omega)).mpr h
      omega
  simp only [roundDouble, hlog, Nat.pow_zero, Nat.mod_one, Nat.div_one,
    Nat.mul_one]
  rw [if_pos (by omega)]

theorem addDouble_of_lt {a b : Nat} (h : a + b < 2 ^ 53) :
    addDouble a b = a + b := roundDouble_of_lt h

end Daenet.Lib
