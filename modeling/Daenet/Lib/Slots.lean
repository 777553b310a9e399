import Mathlib.Data.Multiset.Range

/-!
# What the slots of an array hold

The first `n` slots of an array as a multiset, and the same with one slot left
out, the hole. Moving an element into the hole makes a hole where it came from
and changes nothing else: `others_move`. Whatever path a hole takes through the
array, the elements outside it are the same at the end.
-/

namespace Daenet.Lib

variable {α : Type} {arr : Nat → α} {n i j : Nat} {x : α}

/-- The elements in the first `n` slots. -/
def slots (arr : Nat → α) (n : Nat) : Multiset α := (Multiset.range n).map arr

/-- The elements in the first `n` slots other than slot `i`. -/
def others (arr : Nat → α) (n i : Nat) : Multiset α :=
  ((Multiset.range n).erase i).map arr

theorem mem_slots {y : α} : y ∈ slots arr n ↔ ∃ i < n, arr i = y := by
  unfold slots
  simp only [Multiset.mem_map, Multiset.mem_range]

theorem slots_eq_cons (hi : i < n) : slots arr n = arr i ::ₘ others arr n i := by
  unfold slots others
  rw [← Multiset.map_cons, Multiset.cons_erase (Multiset.mem_range.mpr hi)]

theorem others_last (arr : Nat → α) (n : Nat) : others arr (n + 1) n = slots arr n := by
  unfold slots others
  rw [Multiset.range_succ, Multiset.erase_cons_head]

theorem mem_others_ne {k : Nat} (hk : k ∈ (Multiset.range n).erase i) : k ≠ i :=
  ((Multiset.nodup_range n).mem_erase_iff.mp hk).1

/-- What the hole holds does not count. -/
theorem others_update (arr : Nat → α) (n i : Nat) (x : α) :
    others (Function.update arr i x) n i = others arr n i :=
  Multiset.map_congr rfl fun _ hk => Function.update_of_ne (mem_others_ne hk) ..

/-- The hole filled. -/
theorem slots_update (hi : i < n) :
    slots (Function.update arr i x) n = x ::ₘ others arr n i := by
  rw [slots_eq_cons hi, others_update, Function.update_self]

/-- An element moved into the hole. -/
theorem others_move (hi : i < n) (hj : j < n) (hij : i ≠ j) :
    others (Function.update arr i (arr j)) n j = others arr n i := by
  have hmemi : i ∈ (Multiset.range n).erase j :=
    (Multiset.mem_erase_of_ne hij).mpr (Multiset.mem_range.mpr hi)
  have hmemj : j ∈ (Multiset.range n).erase i :=
    (Multiset.mem_erase_of_ne hij.symm).mpr (Multiset.mem_range.mpr hj)
  have hrest : ∀ k ∈ ((Multiset.range n).erase j).erase i,
      Function.update arr i (arr j) k = arr k := by
    intro k hk
    have hne : k ≠ i :=
      (((Multiset.nodup_range n).erase j).mem_erase_iff.mp hk).1
    exact Function.update_of_ne hne ..
  unfold others
  calc ((Multiset.range n).erase j).map (Function.update arr i (arr j))
      _ = arr j ::ₘ (((Multiset.range n).erase j).erase i).map arr := by
          rw [← Multiset.cons_erase hmemi, Multiset.map_cons, Function.update_self,
            Multiset.erase_cons_head, Multiset.map_congr rfl hrest]
      _ = arr j ::ₘ (((Multiset.range n).erase i).erase j).map arr := by
          rw [Multiset.erase_comm]
      _ = ((Multiset.range n).erase i).map arr := by
          rw [← Multiset.map_cons, Multiset.cons_erase hmemj]

end Daenet.Lib
