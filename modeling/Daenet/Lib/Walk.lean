import Mathlib.Algebra.BigOperators.Group.Finset.Basic
import Mathlib.Dynamics.PeriodicPts.Lemmas

/-!
# Walks that climb until they come home

A map `f` on a set of places with a home `b` and a height above it. If a step
of `f` either goes home or goes up, and heights are bounded, then the picture
of `f` is forced: every walk comes home, the walk from home is one cycle on
which the heights increase, and there is no other cycle. With the length of a
step measured by the height it gains, and the last step by what is missing to
the bound, the cycle has exactly the length of the bound.

This is what "one ring, in order, once around" comes to for a successor map;
the map need not be injective, so off the cycle there may be trees.
-/

namespace Daenet.Lib

open Function

variable {ι : Type} {f : ι → ι} {J : Set ι} {b i : ι} {d : ι → Nat} {N : Nat}

/-- `f` keeps to `J`, and goes home to `b` or up. -/
structure Climbs (f : ι → ι) (J : Set ι) (b : ι) (d : ι → Nat) (N : Nat) :
    Prop where
  home : b ∈ J
  closed : ∀ i ∈ J, f i ∈ J
  low : d b = 0
  bound : ∀ i ∈ J, d i < N
  climb : ∀ i ∈ J, f i = b ∨ d i < d (f i)

namespace Climbs

theorem iterate_mem (h : Climbs f J b d N) (hi : i ∈ J) (k : Nat) : f^[k] i ∈ J := by
  induction k with
  | zero => exact hi
  | succ k ih =>
      rw [iterate_succ_apply']
      exact h.closed _ ih

/-- Every walk comes home. -/
theorem comes_home (h : Climbs f J b d N) :
    ∀ i ∈ J, ∃ k, 0 < k ∧ f^[k] i = b := by
  -- By induction on the height that is left.
  have hleft : ∀ r i, i ∈ J → N - d i ≤ r → ∃ k, 0 < k ∧ f^[k] i = b := by
    intro r
    induction r with
    | zero =>
        intro i hi hr
        have := h.bound i hi
        omega
    | succ r ih =>
        intro i hi hr
        rcases h.climb i hi with hb | hup
        · exact ⟨1, Nat.one_pos, hb⟩
        · have hlt := h.bound (f i) (h.closed i hi)
          obtain ⟨k, hk, hhome⟩ := ih (f i) (h.closed i hi) (by omega)
          refine ⟨k + 1, Nat.succ_pos k, ?_⟩
          rw [iterate_succ_apply]
          exact hhome
  exact fun i hi => hleft _ i hi (Nat.le_refl _)

/-- From anywhere but home, home is entered by a step from somewhere else. -/
theorem enters_home (h : Climbs f J b d N) (hi : i ∈ J) (hne : i ≠ b) :
    ∃ q, q ≠ b ∧ f q = b := by
  obtain ⟨k, hpos, hk⟩ := h.comes_home i hi
  clear hpos
  induction k generalizing i with
  | zero => exact absurd hk hne
  | succ k ih =>
      by_cases hfi : f i = b
      · exact ⟨i, hne, hfi⟩
      · rw [iterate_succ_apply] at hk
        exact ih (h.closed i hi) hfi hk

theorem period_pos (h : Climbs f J b d N) : 0 < minimalPeriod f b := by
  obtain ⟨k, hk, hhome⟩ := h.comes_home b h.home
  exact IsPeriodicPt.minimalPeriod_pos hk hhome

/-- Heights increase along the cycle. -/
theorem cycle_lt (h : Climbs f J b d N) {k l : Nat} (hkl : k < l)
    (hl : l < minimalPeriod f b) : d (f^[k] b) < d (f^[l] b) := by
  induction l with
  | zero => exact absurd hkl (Nat.not_lt_zero k)
  | succ l ih =>
      have hup : d (f^[l] b) < d (f^[l + 1] b) := by
        rw [iterate_succ_apply']
        rcases h.climb _ (h.iterate_mem h.home l) with hb | hup
        · -- The cycle would close too early.
          rw [← iterate_succ_apply' f] at hb
          exact absurd hb
            (not_isPeriodicPt_of_pos_of_lt_minimalPeriod (Nat.succ_ne_zero l) hl)
        · exact hup
      rcases Nat.lt_succ_iff_lt_or_eq.mp hkl with hlt | rfl
      · exact Nat.lt_trans (ih hlt (by omega)) hup
      · exact hup

/-- There is no other cycle. -/
theorem mem_cycle (h : Climbs f J b d N) (hi : i ∈ J) {k : Nat} (hk : 0 < k)
    (hper : IsPeriodicPt f k i) : ∃ l < minimalPeriod f b, f^[l] b = i := by
  obtain ⟨r, _, hr⟩ := h.comes_home i hi
  -- Going round often enough passes through home and ends where it began.
  have hle : r ≤ k * r := Nat.le_mul_of_pos_left r hk
  have hback : f^[k * r - r] b = i := by
    rw [← hr, ← iterate_add_apply, Nat.sub_add_cancel hle]
    exact hper.mul_const r
  refine ⟨(k * r - r) % minimalPeriod f b, Nat.mod_lt _ h.period_pos, ?_⟩
  rw [iterate_mod_minimalPeriod_eq]
  exact hback

/-- The steps of the cycle add up to the bound. -/
theorem sum_cycle (h : Climbs f J b d N) {w : ι → Nat}
    (hup : ∀ i ∈ J, f i ≠ b → d i + w i = d (f i))
    (hlast : ∀ i ∈ J, f i = b → d i + w i = N) :
    ∑ k ∈ Finset.range (minimalPeriod f b), w (f^[k] b) = N := by
  have hpart : ∀ l < minimalPeriod f b,
      ∑ k ∈ Finset.range l, w (f^[k] b) = d (f^[l] b) := by
    intro l
    induction l with
    | zero => intro _; simp [h.low]
    | succ l ih =>
        intro hl
        have hne : f (f^[l] b) ≠ b := by
          rw [← iterate_succ_apply' f]
          exact not_isPeriodicPt_of_pos_of_lt_minimalPeriod (Nat.succ_ne_zero l) hl
        rw [Finset.sum_range_succ, ih (by omega), iterate_succ_apply']
        exact hup _ (h.iterate_mem h.home l) hne
  obtain ⟨l, hl⟩ := Nat.exists_eq_succ_of_ne_zero (Nat.ne_of_gt h.period_pos)
  rw [hl, Finset.sum_range_succ, hpart l (by omega)]
  refine hlast _ (h.iterate_mem h.home l) ?_
  rw [← iterate_succ_apply' f, ← hl]
  exact iterate_minimalPeriod

end Climbs

end Daenet.Lib
