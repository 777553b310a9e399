import Mathlib.Algebra.BigOperators.Group.Finset.Basic
import Mathlib.Data.Nat.ModEq
import Mathlib.Data.Nat.Prime.Basic
import Mathlib.Dynamics.FixedPoints.Basic
import Mathlib.Tactic.Ring

/-!
# Congruential generators modulo a power of two

`x ↦ a * x + c`, looked at modulo `2 ^ k`. If `a` is one modulo four and `c` is
odd, `2 ^ k` steps visit every residue once, from wherever they start.

The difference between a state and the one `n` steps later is `gain a n` times
an odd number, so that the walk is back after `n` steps exactly when `2 ^ k`
divides `gain a n`; and `gain a n` is as even as `n` is (`dvd_gain_iff`).
-/

namespace Daenet.Lib

/-- One step, not reduced. -/
def affine (a c x : Nat) : Nat := a * x + c

/-- `1 + a + ... + a ^ (n - 1)`. -/
def gain (a : Nat) : Nat → Nat
  | 0 => 0
  | n + 1 => a * gain a n + 1

variable {a c k n : Nat}

theorem iterate_affine (b c x n : Nat) :
    (affine (b + 1) c)^[n] x = x + gain (b + 1) n * (b * x + c) := by
  induction n with
  | zero => simp [gain]
  | succ n ih =>
      rw [Function.iterate_succ_apply', ih, affine, gain]
      ring

theorem iterate_affine_congr {N x y : Nat} (h : x ≡ y [MOD N]) (n : Nat) :
    (affine a c)^[n] x ≡ (affine a c)^[n] y [MOD N] := by
  induction n with
  | zero => exact h
  | succ n ih =>
      rw [Function.iterate_succ_apply', Function.iterate_succ_apply']
      exact (ih.mul_left a).add_right c

theorem gain_add (a n l : Nat) : gain a (n + l) = gain a n + a ^ n * gain a l := by
  induction n with
  | zero => simp [gain]
  | succ n ih =>
      rw [Nat.add_right_comm, gain, ih, gain]
      ring

theorem gain_double (a n : Nat) : gain a (2 * n) = (1 + a ^ n) * gain a n := by
  rw [Nat.two_mul, gain_add]
  ring

theorem pow_mod_four (ha : a % 4 = 1) (n : Nat) : a ^ n % 4 = 1 := by
  rw [Nat.pow_mod, ha, Nat.one_pow]

theorem two_pow_coprime (k : Nat) {r : Nat} (hr : r % 2 = 1) :
    Nat.Coprime (2 ^ k) r := by
  refine Nat.Coprime.pow_left k ?_
  rw [Nat.prime_two.coprime_iff_not_dvd]
  omega

/-- The sum has as many factors two as its number of terms. -/
theorem dvd_gain_iff (ha : a % 4 = 1) (k n : Nat) : 2 ^ k ∣ gain a n ↔ 2 ^ k ∣ n := by
  induction k generalizing n with
  | zero => simp
  | succ k ih =>
      have htwice : ∀ l, ∃ e, gain a (2 * l) = 2 * ((2 * e + 1) * gain a l) := by
        intro l
        have hmod := pow_mod_four ha l
        refine ⟨a ^ l / 4, ?_⟩
        rw [gain_double, ← Nat.mul_assoc]
        congr 1
        omega
      rcases Nat.even_or_odd' n with ⟨l, rfl | rfl⟩
      · obtain ⟨e, he⟩ := htwice l
        have hodd := two_pow_coprime k (show (2 * e + 1) % 2 = 1 by omega)
        rw [he, Nat.pow_succ', Nat.mul_dvd_mul_iff_left (by omega),
          Nat.mul_dvd_mul_iff_left (by omega), hodd.dvd_mul_left, ih]
      · -- Both are odd.
        obtain ⟨e, he⟩ := htwice l
        have hnot : ∀ r : Nat, r % 2 = 1 → ¬ 2 ^ (k + 1) ∣ r := by
          intro r hr hdvd
          have h2 : 2 ∣ r := Nat.dvd_trans ⟨2 ^ k, Nat.pow_succ' ..⟩ hdvd
          omega
        have hgain : gain a (2 * l + 1) % 2 = 1 := by
          rw [gain, he, Nat.mul_left_comm]
          omega
        exact iff_of_false (hnot _ hgain) (hnot _ (by omega))

/-- When a walk is back where it was. -/
theorem iterate_modEq_iff (ha : a % 4 = 1) (hc : c % 2 = 1) (x n : Nat) :
    (affine a c)^[n] x ≡ x [MOD 2 ^ k] ↔ 2 ^ k ∣ n := by
  obtain ⟨b, rfl⟩ : ∃ b, a = b + 1 := ⟨a - 1, by omega⟩
  have hb : b * x % 2 = 0 := by
    rw [Nat.mul_mod, show b % 2 = 0 by omega, Nat.zero_mul, Nat.zero_mod]
  have hodd := two_pow_coprime k (show (b * x + c) % 2 = 1 by omega)
  rw [iterate_affine, ← dvd_gain_iff ha k n, ← hodd.dvd_mul_right]
  exact Nat.add_modEq_left_iff

/-- `2 ^ k` steps do not meet a residue twice. -/
theorem iterate_injOn (ha : a % 4 = 1) (hc : c % 2 = 1) (x : Nat) :
    Set.InjOn (fun j => (affine a c)^[j] x % 2 ^ k) (Finset.range (2 ^ k)) := by
  have hle : ∀ i j, i ≤ j → j < 2 ^ k →
      (affine a c)^[i] x % 2 ^ k = (affine a c)^[j] x % 2 ^ k → i = j := by
    intro i j hij hj h
    obtain ⟨d, rfl⟩ := Nat.exists_eq_add_of_le hij
    rw [Nat.add_comm, Function.iterate_add_apply] at h
    have hdvd := (iterate_modEq_iff (k := k) ha hc _ d).mp h.symm
    have hd := Nat.eq_zero_of_dvd_of_lt hdvd (by omega)
    omega
  intro i hi j hj h
  simp only [Finset.coe_range, Set.mem_Iio] at hi hj
  rcases Nat.le_total i j with hij | hji
  · exact hle i j hij hj h
  · exact (hle j i hji hi h.symm).symm

/-- What holds of the residues is met as often as there are such residues. -/
theorem card_iterate (ha : a % 4 = 1) (hc : c % 2 = 1) (x : Nat) (P : Nat → Prop)
    [DecidablePred P] :
    ((Finset.range (2 ^ k)).filter fun j => P ((affine a c)^[j] x % 2 ^ k)).card =
      ((Finset.range (2 ^ k)).filter P).card := by
  have hinj := iterate_injOn (k := k) ha hc x
  have himage : (Finset.range (2 ^ k)).image (fun j => (affine a c)^[j] x % 2 ^ k) =
      Finset.range (2 ^ k) := by
    refine Finset.eq_of_subset_of_card_le ?_ ?_
    · intro r hr
      obtain ⟨j, _, rfl⟩ := Finset.mem_image.mp hr
      exact Finset.mem_range.mpr (Nat.mod_lt _ (Nat.two_pow_pos k))
    · rw [Finset.card_image_of_injOn hinj]
  conv_rhs => rw [← himage, Finset.filter_image]
  rw [Finset.card_image_of_injOn]
  exact hinj.mono (Finset.filter_subset _ _)

end Daenet.Lib
