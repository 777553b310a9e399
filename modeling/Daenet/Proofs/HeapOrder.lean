import Daenet.Lib.HeapOrder
import Daenet.Proofs.Heap

/-!
# When the heap is a priority queue

`pop_heap` walks down the tree in which slot `i` has the children `2 i + 1` and
`2 i + 2`, and keeps it in order. `insert` walks up by `index >> 1`, which is
another tree: the father of an even slot is not the slot whose child it is, but
the one beside it. What `insert` leaves is in the order `pop_heap` needs only if
each element it puts into a slot fits there, and for an odd slot it always does.

`Climbs` says that it fits all along the walk: the element is not below the one
in the slot's parent, nor above the one it replaces. In a run whose inserts all
climb so, the least element is always in the first slot.
-/

namespace Daenet.Proofs

open Daenet.Lib Daenet.Ref

variable {T : Type} [LinearOrder T] {moved : T → T} {a arr : Nat → T}
  {n index : Nat} {h : Heap T} {t x : T}

/-- `operator<` of an ordered type. -/
def less (x y : T) : Bool := decide (x < y)

theorem less_iff {x y : T} : less x y = true ↔ x < y := decide_eq_true_iff

/-! ## Going down -/

/-- A turn of the loop to a child that is least among the children. -/
theorem sinking_turn (moved : T → T) {c : Nat} (hs : Sinking arr n index (arr n)) (hc : c < n)
    (hp : c = index * 2 + 1 ∨ c = index * 2 + 2)
    (hmin : ∀ k, k < n → (k = index * 2 + 1 ∨ k = index * 2 + 2) → arr c ≤ arr k)
    (hx : arr c ≤ arr n) :
    let arr' := Heap.move moved arr index c
    Sinking arr' n c (arr' n) := by
  have hpos : 0 < c := by omega
  have hlast : Heap.move moved arr index c n = arr n :=
    move_rest moved arr (by omega) (by omega)
  dsimp only
  rw [hlast]
  refine hs.move hpos hc ((parent_eq_iff hpos).mpr hp) ?_ hx
    (move_dst moved arr (by omega)) fun k => move_rest moved arr
  intro k hk hkn hpk
  exact hmin k hkn ((parent_eq_iff hk).mp hpk)

/-- Where the loop ends no child is below the last element. -/
theorem down_sinks (moved : T → T) (fuel : Nat) (arr : Nat → T)
    (hs : Sinking arr n index (arr n)) (hlt : index < n) (hfuel : n ≤ index + fuel) :
    let r := Heap.down less moved n fuel arr index
    r.2 < n ∧ Sinking r.1 n r.2 (r.1 n) ∧
      ∀ k, 0 < k → k < n → parent k = r.2 → r.1 n ≤ r.1 k := by
  induction fuel generalizing arr index with
  | zero => omega
  | succ fuel ih =>
      simp only [Heap.down, less_iff, if_pos hlt]
      split
      · next hleft =>
          refine ih _ (sinking_turn moved hs hleft.1 (.inl rfl) ?_ (le_of_lt hleft.2.2))
            hleft.1 (by omega)
          intro k hkn hk
          rcases hk with rfl | rfl
          · exact le_refl _
          · exact hleft.2.1.elim (fun hge => absurd hkn (by omega)) le_of_lt
      · next hleft =>
          split
          · next hright =>
              refine ih _ (sinking_turn moved hs hright.1 (.inr rfl) ?_ (le_of_lt hright.2))
                hright.1 (by omega)
              intro k hkn hk
              rcases hk with rfl | rfl
              · by_contra hlow
                rw [not_le] at hlow
                exact hleft ⟨hkn, .inr hlow, lt_trans hlow hright.2⟩
              · exact le_refl _
          · next hright =>
              refine ⟨hlt, hs, ?_⟩
              intro k hk hkn hp
              by_contra hlow
              rw [not_le] at hlow
              rcases (parent_eq_iff hk).mp hp with rfl | rfl
              · -- The left child is below the last one: then so is the right one.
                refine hleft ⟨hkn, ?_, hlow⟩
                by_contra hboth
                rw [not_or, not_le, not_lt] at hboth
                exact hright ⟨hboth.1, lt_of_le_of_lt hboth.2 hlow⟩
              · exact hright ⟨hkn, hlow⟩

theorem popHeap_ordered (ho : Ordered h.arr h.n) :
    Ordered (h.popHeap less moved).2.arr (h.popHeap less moved).2.n := by
  rcases Nat.eq_zero_or_pos h.n with hzero | hn
  · intro k _ hk
    rw [popHeap_n, hzero] at hk
    exact absurd hk (Nat.not_lt_zero k)
  · obtain ⟨k, hk⟩ : ∃ k, h.n = k + 1 := ⟨h.n - 1, by omega⟩
    rw [popHeap_snd less moved hk]
    dsimp only
    rcases Nat.eq_zero_or_pos k with rfl | hpos
    · intro j _ hj
      exact absurd hj (Nat.not_lt_zero j)
    · have hord : Ordered h.arr k := fun i hi hik => ho i hi (by omega)
      have hsink := hord.sinking (x := Function.update h.arr 0 (moved (h.arr 0)) k)
        fun j hj => Function.update_of_ne (Nat.ne_of_gt hj) (moved (h.arr 0)) h.arr
      obtain ⟨hlt, hs, hleast⟩ := down_sinks moved k _ hsink hpos (by omega)
      exact hs.fill hleast (move_dst moved _ (Nat.ne_of_lt hlt))
        fun j hj hne => move_rest moved _ hne (Nat.ne_of_lt hj)

/-! ## Going up -/

/-- `x` fits into slot `i` of the heap: it is not below the element in the
slot's parent, and not above the one that stands there. -/
structure Placed (a : Nat → T) (n i : Nat) (x : T) : Prop where
  parent : 0 < i → a (parent i) ≤ x
  slot : i < n → x ≤ a i

/-- `insert` at slot `i` with `t` in hand. Every element that it puts into an even
slot, and `t` if the walk ends in one, fits there. -/
inductive Climbs (a : Nat → T) (n : Nat) (t : T) : Nat → Prop where
  | stop {i : Nat} (h : i = 0 ∨ ¬ t < a (i >>> 1))
      (hp : i % 2 = 0 → 0 < i → a (parent i) ≤ t) : Climbs a n t i
  | up {i : Nat} (hi : 0 < i) (h : t < a (i >>> 1))
      (hp : i % 2 = 0 → Placed a n i (a (i >>> 1)))
      (hup : Climbs a n t (i >>> 1)) : Climbs a n t i

/-- The father of an odd slot is its parent. -/
theorem father_odd {i : Nat} (hodd : i % 2 = 1) : i >>> 1 = parent i := by
  rw [Nat.shiftRight_eq_div_pow, parent]
  omega

theorem placed_self (ho : Ordered a n) {k : Nat} (hk : k < n) : Placed a n k (a k) :=
  ⟨fun hpos => ho k hpos hk, fun _ => le_refl _⟩

theorem placed_father (ho : Ordered a n) {i : Nat}
    (hp : i % 2 = 0 → Placed a n i (a (i >>> 1))) : Placed a n i (a (i >>> 1)) := by
  rcases Nat.mod_two_eq_zero_or_one i with heven | hodd
  · exact hp heven
  · rw [father_odd hodd]
    exact ⟨fun _ => le_refl _, ho i (by omega)⟩

theorem placed_stop {i : Nat} (h : i = 0 ∨ ¬ t < a (i >>> 1))
    (hp : i % 2 = 0 → 0 < i → a (parent i) ≤ t) (hbelow : i < n → t ≤ a i) :
    Placed a n i t := by
  refine ⟨fun hi => ?_, hbelow⟩
  rcases Nat.mod_two_eq_zero_or_one i with heven | hodd
  · exact hp heven hi
  · rw [← father_odd hodd]
    exact not_lt.mp (h.resolve_left (Nat.ne_of_gt hi))

theorem placed_fill {i : Nat} (hrest : ∀ k ≤ n, k ≠ i → Placed a n k (arr k))
    (hp : Placed a n i t) : ∀ k ≤ n, Placed a n k (Function.update arr i t k) := by
  intro k hk
  by_cases hki : k = i
  · subst hki
    rw [Function.update_self]
    exact hp
  · rw [Function.update_of_ne hki]
    exact hrest k hk hki

/-- Whatever the loop moved fits where it stands, and so does `t` at the end. -/
theorem up_placed (moved : T → T) (ho : Ordered a n) (fuel : Nat) (arr : Nat → T)
    (hclimb : Climbs a n t index) (hfuel : index ≤ fuel)
    (hbelow : index < n → t ≤ a index) (hsame : ∀ k < index, arr k = a k)
    (hrest : ∀ k ≤ n, k ≠ index → Placed a n k (arr k)) :
    let r := Heap.up less moved t fuel arr index
    ∀ k ≤ n, Placed a n k (Function.update r.1 r.2 t k) := by
  induction fuel generalizing arr index with
  | zero =>
      cases hclimb with
      | stop hstop hp => exact placed_fill hrest (placed_stop hstop hp hbelow)
      | up hi _ _ _ => omega
  | succ fuel ih =>
      simp only [Heap.up, less_iff]
      cases hclimb with
      | stop hstop hp =>
          have hdone := placed_fill hrest (placed_stop hstop hp hbelow)
          split
          · next hi =>
              rw [hsame _ (shiftRight_one_lt hi),
                if_neg (hstop.resolve_left (Nat.ne_of_gt hi))]
              exact hdone
          · exact hdone
      | up hi hlow hp hup =>
          have hlt := shiftRight_one_lt hi
          rw [if_pos hi, hsame _ hlt, if_pos hlow]
          refine ih _ hup (by omega) (fun _ => le_of_lt hlow) ?_ ?_
          · intro k hk
            rw [move_rest moved arr (by omega) (by omega)]
            exact hsame k (by omega)
          · intro k hk hne
            by_cases hki : k = index
            · subst hki
              rw [move_dst moved arr hne, hsame _ hlt]
              exact placed_father ho hp
            · rw [move_rest moved arr hki hne]
              exact hrest k hk hki

theorem insert_ordered (moved : T → T) (ho : Ordered h.arr h.n)
    (hclimb : Climbs h.arr h.n t h.n) :
    Ordered (h.insert less moved t).arr (h.insert less moved t).n := by
  have hplaced := up_placed moved ho h.n h.arr hclimb (Nat.le_refl _)
    (fun hlt => absurd hlt (Nat.lt_irrefl _)) (fun _ _ => rfl)
    fun k hk hne => placed_self ho (Nat.lt_of_le_of_ne hk hne)
  exact Ordered.extend (fun k hk => (hplaced k (Nat.le_of_lt hk)).slot hk)
    fun k hpos hk => (hplaced k hk).parent hpos

/-! ## Runs -/

/-- A call that the heap can take: there is room for another element, and it
climbs to a slot where `pop_heap` will find it. -/
def Climbing (h : Heap T) : HeapCall T → Prop
  | .insert t => h.n < h.maxSize ∧ Climbs h.arr h.n t h.n
  | .popHeap => True

/-- `pop_heap` on a heap with elements returns one that none is below. -/
def PopsLeast (moved : T → T) (h : Heap T) : HeapCall T → Prop
  | .insert _ => True
  | .popHeap => 0 < h.n → ∀ y ∈ present h, (h.popHeap less moved).1 ≤ y

instance (moved : T → T) (h : Heap T) : (c : HeapCall T) → Decidable (PopsLeast moved h c)
  | .insert _ => .isTrue trivial
  | .popHeap => inferInstanceAs
      (Decidable (0 < h.n → ∀ y ∈ present h, (h.popHeap less moved).1 ≤ y))

theorem call_ordered (moved : T → T) (h : Heap T) (c : HeapCall T)
    (ho : Ordered h.arr h.n) (hc : Climbing h c) :
    Ordered (h.call less moved c).arr (h.call less moved c).n := by
  cases c with
  | insert t => exact insert_ordered moved ho hc.2
  | popHeap => exact popHeap_ordered ho

theorem popsLeast_of_ordered (moved : T → T) (ho : Ordered h.arr h.n) (c : HeapCall T) :
    PopsLeast moved h c := by
  cases c with
  | insert t => trivial
  | popHeap =>
      intro _ y hy
      obtain ⟨i, hi, rfl⟩ := mem_slots.mp hy
      rw [popHeap_fst]
      exact ho.root_le hi

/-- The results of `k` calls of `pop_heap`. -/
def popped (moved : T → T) : Nat → Heap T → List T
  | 0, _ => []
  | k + 1, h => (h.popHeap less moved).1 :: popped moved k (h.popHeap less moved).2

theorem popped_sorted (moved : T → T) {k : Nat} (hk : h.n = k)
    (ho : Ordered h.arr h.n) :
    (popped moved k h).Pairwise (· ≤ ·) ∧ (popped moved k h : Multiset T) = present h := by
  induction k generalizing h with
  | zero =>
      refine ⟨.nil, ?_⟩
      rw [present, hk]
      rfl
  | succ k ih =>
      obtain ⟨hsorted, hall⟩ := ih (h := (h.popHeap less moved).2)
        (by rw [popHeap_n, hk, Nat.add_sub_cancel]) (popHeap_ordered ho)
      have hpresent := popHeap_present less moved (h := h) (by omega)
      refine ⟨.cons ?_ hsorted, ?_⟩
      · intro y hy
        refine popsLeast_of_ordered moved ho .popHeap (by omega) y ?_
        rw [← hpresent, ← hall]
        exact Multiset.mem_cons_of_mem hy
      · rw [← hpresent, ← hall, popped, ← Multiset.cons_coe, popHeap_fst]

/-- In a run whose inserts all climb to where they fit, every `pop_heap` returns a
least element, and popping everything at the end gives the elements in ascending
order. -/
theorem heap_pops_least (moved : T → T) (maxSize : Nat) (arr : Nat → T)
    (calls : List (HeapCall T))
    (hcalls : Always (Heap.call less moved) Climbing (Heap.new maxSize arr) calls) :
    Always (Heap.call less moved) (PopsLeast moved) (Heap.new maxSize arr) calls ∧
      let h := calls.foldl (Heap.call less moved) (Heap.new maxSize arr)
      (popped moved h.n h).Pairwise (· ≤ ·) ∧
        (popped moved h.n h : Multiset T) = present h := by
  have hnew : Ordered (Heap.new maxSize arr).arr (Heap.new maxSize arr).n :=
    fun i _ hi => absurd hi (Nat.not_lt_zero i)
  refine ⟨hcalls.of_inv (I := fun h => Ordered h.arr h.n) (call_ordered moved) ?_ hnew, ?_⟩
  · intro h c ho _
    exact popsLeast_of_ordered moved ho c
  · exact popped_sorted moved rfl (hcalls.foldl (I := fun h => Ordered h.arr h.n)
      (call_ordered moved) hnew)

/-- Three elements, the last of which climbs past an even slot to the top. -/
theorem heap_pops_least_three :
    let calls : List (HeapCall Nat) := [.insert 4, .insert 6, .insert 2, .popHeap]
    let h := calls.foldl (Heap.call less id) (Heap.new 3 fun _ => 0)
    popped id 2 h = [4, 6] ∧ (popped id h.n h).Pairwise (· ≤ ·) := by
  refine ⟨by decide, (heap_pops_least id 3 (fun _ => 0)
    [.insert 4, .insert 6, .insert 2, .popHeap] ⟨⟨by decide, ?_⟩, ⟨by decide, ?_⟩,
      ⟨by decide, ?_⟩, trivial, trivial⟩).2.1⟩
  · exact .stop (.inl rfl) (fun _ h => absurd h (by decide))
  · exact .stop (.inr (by decide)) (fun h => absurd h (by decide))
  · refine .up (by decide) (by decide) (fun _ => ⟨fun _ => by decide, fun h => absurd h
      (by decide)⟩) ?_
    refine .up (by decide) (by decide) (fun h => absurd h (by decide)) ?_
    exact .stop (.inl rfl) (fun _ h => absurd h (by decide))

/-- Ten inserts and four pops: slot 6 has the father 3 on the way up and the
parent 2 on the way down, and the fourth `pop_heap` returns 10 before 3. -/
theorem heap_pops_out_of_order :
    let calls : List (HeapCall Nat) := [.insert 0, .insert 1, .insert 10, .insert 2,
      .insert 11, .insert 12, .insert 3, .insert 20, .insert 21, .insert 22, .popHeap,
      .popHeap, .popHeap, .popHeap]
    Always (Heap.call less id) InBounds (Heap.new 16 fun _ => 0) calls ∧
      ¬ Always (Heap.call less id) (PopsLeast id) (Heap.new 16 fun _ => 0) calls := by
  decide

end Daenet.Proofs
