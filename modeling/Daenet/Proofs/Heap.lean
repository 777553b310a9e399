import Daenet.Lib.Runs
import Daenet.Lib.Slots
import Daenet.Ref.Heap

/-!
# The heap keeps its elements

Both loops walk a hole through the array. Which way it goes is for `operator<`
to say, and nothing here asks what it says: a turn moves one element into the
hole, the elements outside the hole stay the same (`up_others`, `down_others`),
and at the end the hole is filled, with the new element or with the last one. A
moved-from slot is always the hole or behind the last element, so that what a
move leaves behind never counts.
-/

namespace Daenet.Proofs

open Daenet.Lib Daenet.Ref

variable {T : Type} {lt : T → T → Bool} {moved : T → T} {arr : Nat → T}
  {n index : Nat} {h : Heap T} {t : T}

/-! ## The hole -/

theorem shiftRight_one_lt (h : 0 < index) : index >>> 1 < index := by
  rw [Nat.shiftRight_eq_div_pow]
  omega

theorem move_dst (moved : T → T) (arr : Nat → T) {dst src : Nat} (hne : dst ≠ src) :
    Heap.move moved arr dst src dst = arr src := by
  rw [Heap.move, Function.update_of_ne hne, Function.update_self]

theorem move_rest (moved : T → T) (arr : Nat → T) {dst src k : Nat} (hdst : k ≠ dst)
    (hsrc : k ≠ src) : Heap.move moved arr dst src k = arr k := by
  rw [Heap.move, Function.update_of_ne hsrc, Function.update_of_ne hdst]

theorem move_others (moved : T → T) (arr : Nat → T) {dst src : Nat} (hdst : dst < n)
    (hsrc : src < n) (hne : dst ≠ src) :
    others (Heap.move moved arr dst src) n src = others arr n dst := by
  simp only [Heap.move, others_update]
  exact others_move hdst hsrc hne

/-- The loop of `insert`: the hole stays in the array, and the elements outside
it are the same. -/
theorem up_others (lt : T → T → Bool) (moved : T → T) (t : T) (fuel : Nat)
    (arr : Nat → T) (hindex : index < n) :
    let r := Heap.up lt moved t fuel arr index
    r.2 < n ∧ others r.1 n r.2 = others arr n index := by
  induction fuel generalizing arr index with
  | zero => exact ⟨hindex, rfl⟩
  | succ fuel ih =>
      simp only [Heap.up]
      split
      · next hpos =>
          split
          · have hlt := shiftRight_one_lt hpos
            rw [← move_others moved arr hindex (Nat.lt_trans hlt hindex)
              (Nat.ne_of_gt hlt)]
            exact ih _ (Nat.lt_trans hlt hindex)
          · exact ⟨hindex, rfl⟩
      · exact ⟨hindex, rfl⟩

/-- The loop of `pop_heap`, over the slots and the last one behind them: the
hole stays before the last slot, or in it when there is no other. -/
theorem down_others (lt : T → T → Bool) (moved : T → T) (fuel : Nat)
    (arr : Nat → T) (hindex : index < n ∨ index = 0) :
    let r := Heap.down lt moved n fuel arr index
    (r.2 < n ∨ r.2 = 0) ∧ others r.1 (n + 1) r.2 = others arr (n + 1) index := by
  induction fuel generalizing arr index with
  | zero => exact ⟨hindex, rfl⟩
  | succ fuel ih =>
      simp only [Heap.down]
      split
      · next hlt =>
          split
          · next hleft =>
              rw [← move_others moved arr (Nat.lt_succ_of_lt hlt)
                (Nat.lt_succ_of_lt hleft.1) (show index ≠ index * 2 + 1 by omega)]
              exact ih _ (.inl hleft.1)
          · split
            · next hright =>
                rw [← move_others moved arr (Nat.lt_succ_of_lt hlt)
                  (Nat.lt_succ_of_lt hright.1) (show index ≠ index * 2 + 2 by omega)]
                exact ih _ (.inl hright.1)
            · exact ⟨hindex, rfl⟩
      · exact ⟨hindex, rfl⟩

/-! ## The operations -/

/-- The elements present. -/
def present (h : Heap T) : Multiset T := slots h.arr h.n

theorem insert_present (h : Heap T) (t : T) :
    present (h.insert lt moved t) = t ::ₘ present h := by
  obtain ⟨hlt, hothers⟩ := up_others lt moved t h.n h.arr (Nat.lt_succ_self h.n)
  simp only [present, Heap.insert]
  rw [slots_update hlt, hothers, others_last]

theorem popHeap_fst (h : Heap T) : (h.popHeap lt moved).1 = h.arr 0 := by
  simp only [Heap.popHeap]
  split
  · rfl
  · rfl

/-- A heap with an element: the loop, and then the last element in the hole. -/
theorem popHeap_snd (lt : T → T → Bool) (moved : T → T) {k : Nat} (hk : h.n = k + 1) :
    let r := Heap.down lt moved k k (Function.update h.arr 0 (moved (h.arr 0))) 0
    (h.popHeap lt moved).2 = { h with arr := Heap.move moved r.1 r.2 k, n := k } := by
  simp only [Heap.popHeap]
  rw [if_pos (by omega), hk, Nat.add_sub_cancel]

theorem popHeap_n (h : Heap T) : (h.popHeap lt moved).2.n = h.n - 1 := by
  simp only [Heap.popHeap]
  split
  · rfl
  · next hn => exact (by omega : h.n = h.n - 1)

theorem popHeap_present (lt : T → T → Bool) (moved : T → T) (hn : 0 < h.n) :
    h.arr 0 ::ₘ present (h.popHeap lt moved).2 = present h := by
  obtain ⟨k, hk⟩ : ∃ k, h.n = k + 1 := ⟨h.n - 1, by omega⟩
  have hheap : present (h.popHeap lt moved).2 = others h.arr (k + 1) 0 := by
    rw [present, popHeap_snd lt moved hk]
    dsimp only
    obtain ⟨hlt, hothers⟩ := down_others lt moved k
      (Function.update h.arr 0 (moved (h.arr 0))) (show 0 < k ∨ 0 = 0 from .inr rfl)
    rw [others_update] at hothers
    rw [← hothers]
    rcases Nat.eq_zero_or_pos k with hzero | hpos
    · subst hzero
      rfl
    · have hrlt := hlt.elim id fun h0 => h0.trans_lt hpos
      rw [← others_last, move_others moved _ (Nat.lt_succ_of_lt hrlt)
        (Nat.lt_succ_self k) (Nat.ne_of_lt hrlt)]
  rw [hheap, present, hk, slots_eq_cons (Nat.succ_pos k)]

/-! ## Runs -/

/-- The elements that the calls of a run put in. -/
def inserted : List (HeapCall T) → Multiset T
  | [] => 0
  | .insert t :: calls => t ::ₘ inserted calls
  | .popHeap :: calls => inserted calls

/-- The elements that the calls of a run returned. -/
def returned (lt : T → T → Bool) (moved : T → T) : Heap T → List (HeapCall T) →
    Multiset T
  | _, [] => 0
  | h, .insert t :: calls => returned lt moved (h.insert lt moved t) calls
  | h, .popHeap :: calls =>
      (h.popHeap lt moved).1 ::ₘ returned lt moved (h.popHeap lt moved).2 calls

/-- A call that keeps inside the array: `insert` when there is room, `pop_heap`
when there is an element. -/
def InBounds (h : Heap T) : HeapCall T → Prop
  | .insert _ => h.n < h.maxSize
  | .popHeap => 0 < h.n

instance (h : Heap T) : (c : HeapCall T) → Decidable (InBounds h c)
  | .insert _ => inferInstanceAs (Decidable (h.n < h.maxSize))
  | .popHeap => inferInstanceAs (Decidable (0 < h.n))

theorem run_present (calls : List (HeapCall T)) (h : Heap T)
    (hcalls : Always (Heap.call lt moved) InBounds h calls) :
    inserted calls + present h =
      returned lt moved h calls + present (calls.foldl (Heap.call lt moved) h) := by
  induction calls generalizing h with
  | nil => rfl
  | cons c calls ih =>
      have hih := ih _ hcalls.2
      cases c with
      | insert t =>
          change inserted calls + present (h.insert lt moved t) = _ at hih
          rw [insert_present] at hih
          change t ::ₘ inserted calls + present h = _
          rw [Multiset.cons_add, ← Multiset.add_cons]
          exact hih
      | popHeap =>
          change inserted calls + present (h.popHeap lt moved).2 = _ at hih
          change inserted calls + present h =
            (h.popHeap lt moved).1 ::ₘ returned lt moved (h.popHeap lt moved).2 calls + _
          rw [← popHeap_present lt moved hcalls.1, popHeap_fst,
            Multiset.add_cons, Multiset.cons_add]
          exact congrArg _ hih

/-- Whatever `operator<` answers: `insert` adds its element to those present,
`pop_heap` takes out the one in the first slot, and over a run from an empty heap
the elements put in are those returned and those still present. -/
theorem heap_keeps_elements (lt : T → T → Bool) (moved : T → T) :
    (∀ (h : Heap T) (t : T), h.n < h.maxSize →
      (h.insert lt moved t).n = h.n + 1 ∧
        present (h.insert lt moved t) = t ::ₘ present h) ∧
    (∀ h : Heap T, 0 < h.n →
      (h.popHeap lt moved).1 = h.arr 0 ∧ (h.popHeap lt moved).2.n = h.n - 1 ∧
        h.arr 0 ::ₘ present (h.popHeap lt moved).2 = present h) ∧
    ∀ (maxSize : Nat) (arr : Nat → T) (calls : List (HeapCall T)),
      Always (Heap.call lt moved) InBounds (Heap.new maxSize arr) calls →
        inserted calls = returned lt moved (Heap.new maxSize arr) calls +
          present (calls.foldl (Heap.call lt moved) (Heap.new maxSize arr)) := by
  refine ⟨fun h t _ => ⟨rfl, insert_present h t⟩, fun h hn => ?_, ?_⟩
  · exact ⟨popHeap_fst h, popHeap_n h, popHeap_present lt moved hn⟩
  · intro maxSize arr calls hcalls
    have hrun := run_present calls (Heap.new maxSize arr) hcalls
    have hnew : present (Heap.new maxSize arr) = 0 := rfl
    rw [hnew, Multiset.add_zero] at hrun
    exact hrun

/-- A comparison that always says yes, and slots that moves wipe. -/
theorem heap_keeps_elements_wiped :
    let calls : List (HeapCall Nat) := [.insert 5, .insert 7, .popHeap, .insert 5]
    let h := Heap.new 2 fun _ => 0
    inserted calls = returned (fun _ _ => true) (fun _ => 0) h calls +
      present (calls.foldl (Heap.call (fun _ _ => true) fun _ => 0) h) :=
  (heap_keeps_elements (fun _ _ => true) (fun _ => 0)).2.2 2 (fun _ => 0)
    [.insert 5, .insert 7, .popHeap, .insert 5] (by decide)

end Daenet.Proofs
