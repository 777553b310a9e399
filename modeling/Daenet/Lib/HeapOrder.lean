import Mathlib.Order.Basic

/-!
# Heap order on an array

The slots of an array as a binary tree: slot `i` has the children `2 i + 1` and
`2 i + 2`, and the array is ordered when no element is below its parent. A hole
that sinks keeps the rest in order (`Sinking`): each time it changes places with
its least child, as long as that is below the element that is to fill it.
-/

namespace Daenet.Lib

/-- The parent of a slot. -/
def parent (i : Nat) : Nat := (i - 1) / 2

theorem parent_lt {i : Nat} (hi : 0 < i) : parent i < i := by
  unfold parent
  omega

theorem parent_eq_iff {c i : Nat} (hc : 0 < c) :
    parent c = i ↔ c = i * 2 + 1 ∨ c = i * 2 + 2 := by
  unfold parent
  omega

variable {α : Type} [Preorder α] {a b : Nat → α} {n i c : Nat} {x : α}

/-- No element is below its parent. -/
def Ordered (a : Nat → α) (n : Nat) : Prop :=
  ∀ i, 0 < i → i < n → a (parent i) ≤ a i

theorem Ordered.root_le (h : Ordered a n) (hi : i < n) : a 0 ≤ a i := by
  induction i using Nat.strongRecOn with
  | ind i ih =>
      rcases Nat.eq_zero_or_pos i with rfl | hpos
      · exact le_refl _
      · have hlt := parent_lt hpos
        exact le_trans (ih _ hlt (Nat.lt_trans hlt hi)) (h i hpos hi)

/-- One more slot. It is enough that no slot got a bigger element, and each one
an element that is not below the old one in its parent. -/
theorem Ordered.extend (hle : ∀ k < n, b k ≤ a k)
    (hge : ∀ k, 0 < k → k ≤ n → a (parent k) ≤ b k) : Ordered b (n + 1) := by
  intro k hpos hk
  have hlt := parent_lt hpos
  exact le_trans (hle _ (by omega)) (hge k hpos (Nat.le_of_lt_succ hk))

/-- The array with a hole in slot `i`, on the way down, that `x` is to fill. What
the hole itself holds does not count. -/
structure Sinking (a : Nat → α) (n i : Nat) (x : α) : Prop where
  off : ∀ k, 0 < k → k < n → k ≠ i → parent k ≠ i → a (parent k) ≤ a k
  above : 0 < i → a (parent i) ≤ x
  grand : 0 < i → ∀ k, 0 < k → k < n → parent k = i → a (parent i) ≤ a k

theorem Ordered.sinking (h : Ordered a n) (hb : ∀ k, 0 < k → b k = a k) :
    Sinking b n 0 x := by
  refine ⟨?_, fun h0 => absurd h0 (Nat.lt_irrefl 0), fun h0 => absurd h0 (Nat.lt_irrefl 0)⟩
  intro k hpos hk _ hne
  rw [hb k hpos, hb _ (Nat.pos_of_ne_zero hne)]
  exact h k hpos hk

/-- The hole changes places with its least child. -/
theorem Sinking.move (h : Sinking a n i x) (hpos : 0 < c) (hc : c < n)
    (hp : parent c = i)
    (hmin : ∀ k, 0 < k → k < n → parent k = i → a c ≤ a k) (hx : a c ≤ x)
    (hi : b i = a c) (hrest : ∀ k, k ≠ i → k ≠ c → b k = a k) :
    Sinking b n c x := by
  have hlt : i < c := hp ▸ parent_lt hpos
  refine ⟨?_, ?_, ?_⟩
  · intro k hk hkn hkc hpk
    have hklt := parent_lt hk
    by_cases hki : k = i
    · subst hki
      rw [hi, hrest _ (Nat.ne_of_lt hklt) hpk]
      exact h.grand hk c hpos hc hp
    · rw [hrest k hki hkc]
      by_cases hpi : parent k = i
      · rw [hpi, hi]
        exact hmin k hk hkn hpi
      · rw [hrest _ hpi hpk]
        exact h.off k hk hkn hki hpi
  · intro _
    rw [hp, hi]
    exact hx
  · intro _ k hk hkn hpk
    have hklt := parent_lt hk
    have hki : k ≠ i := by omega
    rw [hp, hi, hrest k hki (by omega), ← hpk]
    exact h.off k hk hkn hki (by omega)

/-- The hole filled, when no child is below `x`. -/
theorem Sinking.fill (h : Sinking a n i x)
    (hx : ∀ k, 0 < k → k < n → parent k = i → x ≤ a k) (hi : b i = x)
    (hrest : ∀ k < n, k ≠ i → b k = a k) : Ordered b n := by
  intro k hk hkn
  have hklt := parent_lt hk
  by_cases hki : k = i
  · subst hki
    rw [hi, hrest _ (Nat.lt_trans hklt hkn) (Nat.ne_of_lt hklt)]
    exact h.above hk
  · rw [hrest k hkn hki]
    by_cases hpi : parent k = i
    · rw [hpi, hi]
      exact hx k hk hkn hpi
    · rw [hrest _ (Nat.lt_trans hklt hkn) hpi]
      exact h.off k hk hkn hki hpi

end Daenet.Lib
