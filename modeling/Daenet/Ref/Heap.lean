import Mathlib.Logic.Function.Basic

/-!
# The heap

`Heap<T>` and `ConcurrentHeap<T>`: an array filled from the front, kept in order
by walking a hole up on `insert` and down on `pop_heap`. The array is a function
of the index; what stands at and after `n` is whatever the memory held, and
`insert` makes no test against `max_size`.

Elements are moved, not copied. `moved x` is what a move leaves in the slot that
held `x`: `x` itself for an `int`, a null pointer for a `std::unique_ptr`. It is a
parameter, as `operator<` is, and no theorem asks anything of it.

Indices are natural numbers. An `int` holds `index * 2 + 2` for every heap of
fewer than `2 ^ 30` elements.
-/

namespace Daenet.Ref

/-- `Heap<T>`. -/
structure Heap (T : Type) where
  arr : Nat → T
  n : Nat := 0
  maxSize : Nat := 8192

namespace Heap

variable {T : Type}

/-- The constructor: an array that holds anything, and no element. -/
def new (maxSize : Nat) (arr : Nat → T) : Heap T where
  arr := arr
  maxSize := maxSize

/-- `arr[dst] = std::move(arr[src])`. -/
def move (moved : T → T) (arr : Nat → T) (dst src : Nat) : Nat → T :=
  Function.update (Function.update arr dst (arr src)) src (moved (arr src))

section Operators

variable (lt : T → T → Bool) (moved : T → T)

/-- The loop of `insert`: the array and the index at which it ends. The index is
halved in every turn, so that it is a bound on the number of turns. -/
def up (t : T) : Nat → (Nat → T) → Nat → (Nat → T) × Nat
  | 0, arr, index => (arr, index)
  | fuel + 1, arr, index =>
      if index > 0 then
        let father := index >>> 1
        if lt t (arr father) then
          up t fuel (move moved arr index father) (index >>> 1)
        else (arr, index)
      else (arr, index)

/-- `insert`. -/
def insert (h : Heap T) (t : T) : Heap T :=
  let r := up lt moved t h.n h.arr h.n
  { h with arr := Function.update r.1 r.2 t, n := h.n + 1 }

/-- The loop of `pop_heap` over the `n` slots that remain; `last` refers to slot
`n`, behind them. The index grows in every turn. -/
def down (n : Nat) : Nat → (Nat → T) → Nat → (Nat → T) × Nat
  | 0, arr, index => (arr, index)
  | fuel + 1, arr, index =>
      if index < n then
        let left := index * 2 + 1
        let right := index * 2 + 2
        if left < n ∧ (right ≥ n ∨ lt (arr left) (arr right)) ∧
            lt (arr left) (arr n) then
          down n fuel (move moved arr index left) left
        else if right < n ∧ lt (arr right) (arr n) then
          down n fuel (move moved arr index right) right
        else (arr, index)
      else (arr, index)

/-- `pop_heap`. An empty heap gives what stands in the first slot. -/
def popHeap (h : Heap T) : T × Heap T :=
  let t := h.arr 0
  let arr := Function.update h.arr 0 (moved t)
  if h.n > 0 then
    let last := h.n - 1
    let r := down lt moved last last arr 0
    (t, { h with arr := move moved r.1 r.2 last, n := last })
  else (t, { h with arr := arr })

end Operators

end Heap

/-- `ConcurrentHeap<T>`: the same members and, each under the lock for all of its
body, the same operations. What several threads do is a sequence of operations. -/
abbrev ConcurrentHeap := Heap

/-- A call from outside. -/
inductive HeapCall (T : Type) where
  | insert (t : T)
  | popHeap
  deriving DecidableEq, Repr

/-- The heap after a call. -/
def Heap.call {T : Type} (lt : T → T → Bool) (moved : T → T) (h : Heap T) :
    HeapCall T → Heap T
  | .insert t => h.insert lt moved t
  | .popHeap => (h.popHeap lt moved).2

end Daenet.Ref
