import Daenet.Lib.Slots
import Mathlib.Order.Basic

/-!
# Sliding elements to make room

Two ways to put an element into an array whose slots are all taken. `opened`: the
elements from slot `p` on move up by one, up to slot `i`, whose element is gone.
`closed`: the elements up to slot `p` move down by one, and the first is gone.

What the slots then hold, and when the array is still increasing: if the new
element is between its two neighbours.
-/

namespace Daenet.Lib

variable {α : Type} {arr : Nat → α} {n p i m k : Nat} {t : α}

/-- `t` in slot `p`, and the elements of the slots `p` to `i - 1` moved up. -/
def opened (arr : Nat → α) (p i : Nat) (t : α) (k : Nat) : α :=
  if k < p then arr k else if k = p then t else if k ≤ i then arr (k - 1) else arr k

/-- `t` in slot `p`, and the elements of the slots `1` to `p` moved down. -/
def closed (arr : Nat → α) (p : Nat) (t : α) (k : Nat) : α :=
  if k < p then arr (k + 1) else if k = p then t else arr k

theorem opened_before (h : k < p) : opened arr p i t k = arr k := if_pos h

theorem opened_self (arr : Nat → α) (p i : Nat) (t : α) : opened arr p i t p = t := by
  simp only [opened, Nat.lt_irrefl, if_false, if_true]

theorem opened_after (h : p ≤ k) (hk : k < i) :
    opened arr p i t (k + 1) = arr k := by
  rw [opened, if_neg (by omega), if_neg (by omega), if_pos (by omega),
    Nat.add_sub_cancel]

theorem opened_beyond (hp : p ≤ i) (hk : i < k) : opened arr p i t k = arr k := by
  rw [opened, if_neg (by omega), if_neg (by omega), if_neg (by omega)]

/-- Nothing moves. -/
theorem opened_last (arr : Nat → α) (p : Nat) (t : α) :
    opened arr p p t = Function.update arr p t := by
  funext k
  rcases Nat.lt_trichotomy k p with hlt | rfl | hgt
  · rw [opened_before hlt, Function.update_of_ne (Nat.ne_of_lt hlt)]
  · rw [opened_self, Function.update_self]
  · rw [opened_beyond (Nat.le_refl p) hgt, Function.update_of_ne (Nat.ne_of_gt hgt)]

theorem closed_before (h : k < p) : closed arr p t k = arr (k + 1) := if_pos h

theorem closed_self (arr : Nat → α) (p : Nat) (t : α) : closed arr p t p = t := by
  simp only [closed, Nat.lt_irrefl, if_false, if_true]

theorem closed_after (h : p < k) : closed arr p t k = arr k := by
  rw [closed, if_neg (by omega), if_neg (by omega)]

theorem slots_succ (arr : Nat → α) (n : Nat) :
    slots arr (n + 1) = arr n ::ₘ slots arr n := by
  rw [slots_eq_cons (Nat.lt_succ_self n), others_last]

theorem slots_congr {b : Nat → α} (h : ∀ k < n, b k = arr k) : slots b n = slots arr n :=
  Multiset.map_congr rfl fun k hk => h k (Multiset.mem_range.mp hk)

theorem slots_opened (hp : p ≤ i) :
    slots (opened arr p i t) (i + 1) = t ::ₘ slots arr i := by
  induction i, hp using Nat.le_induction with
  | base =>
      rw [slots_succ, opened_self, slots_congr fun k hk => opened_before hk]
  | succ i hp ih =>
      have hsame : ∀ k < i + 1, opened arr p (i + 1) t k = opened arr p i t k := by
        intro k hk
        simp only [opened, if_pos (show k ≤ i + 1 by omega), if_pos (show k ≤ i by omega)]
      rw [slots_succ, opened_after hp (Nat.lt_succ_self i), slots_congr hsame, ih,
        Multiset.cons_swap, ← slots_succ]

theorem slots_closed (hp : p ≤ m) :
    slots (closed arr p t) (m + 1) = t ::ₘ slots (fun k => arr (k + 1)) m := by
  induction m, hp using Nat.le_induction with
  | base =>
      rw [slots_succ, closed_self, slots_congr fun k hk => closed_before hk]
  | succ m hp ih =>
      rw [slots_succ, closed_after (by omega), ih, Multiset.cons_swap, slots_succ]

/-! ## Increasing arrays -/

section Order

variable [Preorder α]

/-- The first `n` elements are strictly increasing. -/
def Increasing (arr : Nat → α) (n : Nat) : Prop := ∀ i, i + 1 < n → arr i < arr (i + 1)

theorem Increasing.lt (h : Increasing arr n) (hik : i < k) (hk : k < n) :
    arr i < arr k := by
  induction k, hik using Nat.le_induction with
  | base => exact h i hk
  | succ k hik ih => exact lt_trans (ih (by omega)) (h k hk)

theorem Increasing.le (h : Increasing arr n) (hik : i ≤ k) (hk : k < n) :
    arr i ≤ arr k := by
  rcases Nat.lt_or_eq_of_le hik with hlt | rfl
  · exact le_of_lt (h.lt hlt hk)
  · exact le_refl _

theorem Increasing.opened (h : Increasing arr i) (hp : p ≤ i)
    (hbefore : 0 < p → arr (p - 1) < t) (hafter : p < i → t < arr p) :
    Increasing (opened arr p i t) (i + 1) := by
  intro k hk
  rcases Nat.lt_trichotomy (k + 1) p with hlt | heq | hgt
  · rw [opened_before (by omega), opened_before hlt]
    exact h k (by omega)
  · subst heq
    rw [opened_before (Nat.lt_succ_self k), opened_self]
    exact hbefore (Nat.succ_pos k)
  · rw [opened_after (by omega) (by omega)]
    rcases Nat.lt_or_eq_of_le (Nat.le_of_lt_succ hgt) with hpk | rfl
    · obtain ⟨j, rfl⟩ : ∃ j, k = j + 1 := ⟨k - 1, by omega⟩
      rw [opened_after (by omega) (by omega)]
      exact h j (by omega)
    · rw [opened_self]
      exact hafter (by omega)

theorem Increasing.closed (h : Increasing arr (m + 1)) (hp : p ≤ m)
    (hbefore : 0 < p → arr p < t) (hafter : p < m → t < arr (p + 1)) :
    Increasing (closed arr p t) (m + 1) := by
  intro k hk
  rcases Nat.lt_trichotomy k p with hlt | rfl | hgt
  · rw [closed_before hlt]
    rcases Nat.lt_or_eq_of_le (Nat.succ_le_of_lt hlt) with hkp | hkp
    · rw [closed_before hkp]
      exact h (k + 1) (by omega)
    · subst hkp
      rw [closed_self]
      exact hbefore (Nat.succ_pos k)
  · rw [closed_self, closed_after (Nat.lt_succ_self k)]
    exact hafter (by omega)
  · rw [closed_after hgt, closed_after (by omega)]
    exact h k hk

end Order

end Daenet.Lib
