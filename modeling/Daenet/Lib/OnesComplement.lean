import Mathlib.Data.Int.ModEq

/-!
# Sums with an end-around carry

Numbers from `0` to `M`, where `M` stands for a word of ones and is another zero. A sum
that is too large loses a multiple of `M`, so that what is known of it is its residue,
and whether it is zero: `carry M x` is the number from `0` to `M` with the residue of
`x` that is `0` only for `0`. Any way of adding that keeps the two comes to the same in
the end, in words of any length and in any order of the bytes (`carry_congr`).
-/

namespace Daenet.Lib

variable {M x y : Nat}

/-- What remains of `x`. -/
def carry (M x : Nat) : Nat := if x = 0 then 0 else (x - 1) % M + 1

/-- Adding two words. -/
def endAround (M x y : Nat) : Nat := if x + y ≤ M then x + y else x + y - M

theorem carry_eq_zero : carry M x = 0 ↔ x = 0 := by
  unfold carry
  split
  · next h => exact ⟨fun _ => h, fun _ => rfl⟩
  · next h => exact ⟨fun hz => absurd hz (Nat.succ_ne_zero _), fun hz => absurd hz h⟩

theorem carry_le (hM : 0 < M) (x : Nat) : carry M x ≤ M := by
  unfold carry
  split
  · exact Nat.zero_le M
  · exact Nat.mod_lt _ hM

theorem carry_modEq (M x : Nat) : carry M x ≡ x [MOD M] := by
  unfold carry
  split
  · next h => rw [h]
  · next h =>
      have hmod : (x - 1) % M + 1 ≡ x - 1 + 1 [MOD M] := (Nat.mod_modEq _ M).add_right 1
      rw [Nat.sub_add_cancel (Nat.pos_of_ne_zero h)] at hmod
      exact hmod

/-- The residue, and whether it is zero, is all that counts. -/
theorem carry_congr (hmod : x ≡ y [MOD M]) (hzero : x = 0 ↔ y = 0) :
    carry M x = carry M y := by
  unfold carry
  by_cases hx : x = 0
  · rw [if_pos hx, if_pos (hzero.mp hx)]
  · have hy : y ≠ 0 := fun h => hx (hzero.mpr h)
    rw [if_neg hx, if_neg hy]
    obtain ⟨x, rfl⟩ := Nat.exists_eq_succ_of_ne_zero hx
    obtain ⟨y, rfl⟩ := Nat.exists_eq_succ_of_ne_zero hy
    have hpred : x ≡ y [MOD M] := Nat.ModEq.add_right_cancel' 1 hmod
    rw [Nat.succ_sub_one, Nat.succ_sub_one, hpred]

theorem carry_of_le (hx : x ≤ M) : carry M x = x := by
  unfold carry
  split
  · next h => exact h.symm
  · next h => rw [Nat.mod_eq_of_lt (by omega), Nat.sub_add_cancel (by omega)]

theorem carry_carry_add (M x y : Nat) : carry M (carry M x + y) = carry M (x + y) := by
  refine carry_congr ((carry_modEq M x).add_right y) ?_
  rw [Nat.add_eq_zero_iff, Nat.add_eq_zero_iff, carry_eq_zero]

theorem endAround_eq (hx : x ≤ M) (hy : y ≤ M) : endAround M x y = carry M (x + y) := by
  unfold endAround
  split
  · next h => exact (carry_of_le h).symm
  · next h =>
      have hle : x + y - M ≤ M := by omega
      rw [← carry_of_le hle]
      refine carry_congr ?_ (by omega)
      calc x + y - M
          _ ≡ x + y - M + M [MOD M] := (Nat.add_modEq_right).symm
          _ = x + y := Nat.sub_add_cancel (by omega)

/-- A sum and its complement. -/
theorem carry_add_complement (hM : 0 < M) (x : Nat) :
    carry M (x + (M - carry M x)) = M := by
  have hle := carry_le hM x
  rw [← carry_carry_add, Nat.add_sub_cancel' hle, carry_of_le (Nat.le_refl M)]

/-! ## Folding

One turn of the loop that folds a sum: the part above the word is added to the word. -/

theorem fold_modEq {B : Nat} (hM : M ∣ B - 1) (hB : 0 < B) (x : Nat) :
    x / B + x % B ≡ x [MOD M] := by
  have hone : B ≡ 1 [MOD M] := ((Nat.modEq_iff_dvd' hB).mpr hM).symm
  have hmul : B * (x / B) ≡ 1 * (x / B) [MOD M] := hone.mul_right _
  rw [Nat.one_mul] at hmul
  have hsum := hmul.symm.add_right (x % B)
  rw [Nat.div_add_mod] at hsum
  exact hsum

theorem fold_eq_zero {B : Nat} (x : Nat) : x / B + x % B = 0 ↔ x = 0 := by
  constructor
  · intro h
    rw [← Nat.div_add_mod x B, Nat.eq_zero_of_add_eq_zero_right h,
      Nat.eq_zero_of_add_eq_zero_left h]
    rfl
  · intro h
    rw [h, Nat.zero_div, Nat.zero_mod]

theorem carry_fold {B : Nat} (hM : M ∣ B - 1) (hB : 0 < B) (x : Nat) :
    carry M (x / B + x % B) = carry M x :=
  carry_congr (fold_modEq hM hB x) (fold_eq_zero x)

theorem fold_lt {B : Nat} (hB : 1 < B) (hx : B ≤ x) : x / B + x % B < x := by
  have hpos : 0 < x / B := Nat.div_pos hx (by omega)
  have hdiv := Nat.div_add_mod x B
  have hmul : x / B * 2 ≤ x / B * B := Nat.mul_le_mul_left _ hB
  rw [Nat.mul_comm (x / B) B] at hmul
  omega

end Daenet.Lib
