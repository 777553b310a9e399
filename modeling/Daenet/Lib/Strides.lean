import Mathlib.Data.Nat.Log
import Mathlib.Algebra.Group.Nat.Defs

/-!
# Strides

A walk of length `d` in strides that are powers of two, each the longest one that
fits, but none longer than `2 ^ cap`. Long strides first, `d / 2 ^ cap` of them;
then every stride is shorter than the one before, so that `cap` more are enough.
-/

namespace Daenet.Lib

/-- The longest stride. -/
def stride (cap d : Nat) : Nat := 2 ^ min d.log2 cap

variable {cap d : Nat}

theorem stride_pos : 0 < stride cap d := Nat.two_pow_pos _

theorem stride_le (hd : d ≠ 0) : stride cap d ≤ d := by
  calc stride cap d
      _ ≤ 2 ^ d.log2 := Nat.pow_le_pow_right (by decide) (Nat.min_le_left ..)
      _ ≤ d := Nat.log2_self_le hd

theorem stride_of_ge (h : 2 ^ cap ≤ d) : stride cap d = 2 ^ cap := by
  have hd : d ≠ 0 := Nat.ne_of_gt (Nat.lt_of_lt_of_le (Nat.two_pow_pos cap) h)
  rw [stride, Nat.min_eq_right ((Nat.le_log2 hd).mpr h)]

theorem stride_of_lt {j : Nat} (hj : j ≤ cap) (hle : 2 ^ j ≤ d) (hlt : d < 2 ^ (j + 1)) :
    stride cap d = 2 ^ j := by
  have hd : d ≠ 0 := Nat.ne_of_gt (Nat.lt_of_lt_of_le (Nat.two_pow_pos j) hle)
  rw [stride, (Nat.log2_eq_iff hd).mpr ⟨hle, hlt⟩, Nat.min_eq_left hj]

section

variable {P : Nat → Nat → Prop}

/-- Strides that get shorter. -/
theorem strides_short (zero : P 0 0)
    (next : ∀ d k, d ≠ 0 → P (d - stride cap d) k → P d (k + 1)) {j : Nat} (hj : j ≤ cap)
    (hd : d < 2 ^ j) : ∃ k ≤ j, P d k := by
  induction j generalizing d with
  | zero =>
      obtain rfl : d = 0 := by omega
      exact ⟨0, Nat.le_refl 0, zero⟩
  | succ j ih =>
      rcases Nat.lt_or_ge d (2 ^ j) with hlt | hge
      · obtain ⟨k, hk, hP⟩ := ih (by omega) hlt
        exact ⟨k, by omega, hP⟩
      · have hpow : 2 ^ (j + 1) = 2 * 2 ^ j := Nat.pow_succ'
        have hpos := Nat.two_pow_pos j
        obtain ⟨k, hk, hP⟩ := ih (d := d - 2 ^ j) (by omega) (by omega)
        refine ⟨k + 1, by omega, next d k (by omega) ?_⟩
        rw [stride_of_lt (by omega) hge hd]
        exact hP

/-- The rule: `P d k` for a walk of length `d` in `k` strides, from the last one
back to the first. -/
theorem strides_induction (zero : P 0 0)
    (next : ∀ d k, d ≠ 0 → P (d - stride cap d) k → P d (k + 1)) (d : Nat) :
    ∃ k ≤ d / 2 ^ cap + cap, P d k := by
  have hpos := Nat.two_pow_pos cap
  induction hq : d / 2 ^ cap generalizing d with
  | zero =>
      obtain ⟨k, hk, hP⟩ := strides_short zero next (Nat.le_refl cap)
        ((Nat.div_eq_zero_iff_lt hpos).mp hq)
      exact ⟨k, by omega, hP⟩
  | succ q ih =>
      have hge : 2 ^ cap ≤ d := by
        by_contra hlt
        rw [Nat.div_eq_of_lt (by omega)] at hq
        omega
      have hrest : (d - 2 ^ cap) / 2 ^ cap = q := by
        rw [Nat.div_eq_sub_div hpos hge] at hq
        exact Nat.succ.inj hq
      obtain ⟨k, hk, hP⟩ := ih (d - 2 ^ cap) hrest
      refine ⟨k + 1, by omega, next d k (by omega) ?_⟩
      rw [stride_of_ge hge]
      exact hP

end

end Daenet.Lib
