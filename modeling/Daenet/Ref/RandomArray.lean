import Daenet.Ref.Heap
import Daenet.Ref.RandomQueue

/-!
# The random queue and its memory

`ConcurrentRandomQueue<T>` as it is in memory: an array of a fixed capacity and the
number `n` of elements at its front. `T` is a pointer, any type with a `nullptr`.
Every operation says which slots it accesses, in order; a slot that is not below
the capacity is outside the array. As in `Heap`, `moved x` is what a move leaves
where `x` was.

A null pointer is an element like any other for `push`, but as a result it also
stands for nothing.
-/

namespace Daenet.Ref

/-- `ConcurrentRandomQueue<T>`. -/
structure RandomArray (T : Type) where
  capacity : Nat := 10240
  arr : Nat → T
  n : Nat := 0

namespace RandomArray

variable {T : Type}

/-- The constructor: an array that holds anything, and no element. -/
def new (capacity : Nat) (arr : Nat → T) : RandomArray T where
  capacity := capacity
  arr := arr

/-- What a call leaves: its result, if it has one, the queue, and the slots that it
accessed. -/
structure Returned (T : Type) where
  result : Option T := none
  queue : RandomArray T
  accessed : List Nat := []

section Pointers

variable (nullptr : T) (moved : T → T) (q : RandomArray T)

/-- `push`, which makes no test. -/
def push (t : T) : Returned T where
  queue := { q with arr := Function.update q.arr q.n t, n := q.n + 1 }
  accessed := [q.n]

/-- `pop_front`, which takes the last element. -/
def popFront : Returned T :=
  if q.n = 0 then { result := some nullptr, queue := q }
  else
    let t := q.arr (q.n - 1)
    { result := some t
      queue := { q with arr := Function.update q.arr (q.n - 1) (moved t), n := q.n - 1 }
      accessed := [q.n - 1] }

/-- `pop_random`, with what `randombytes_random` returns. -/
def popRandom (minPool : Nat) (idxS : UInt32) : Returned T :=
  if minPool = 0 then
    if q.n = 0 then { result := some nullptr, queue := q }
    else
      let idx := idxS.toNat % q.n
      let t := q.arr idx
      let arr := Function.update q.arr idx (moved t)
      if idx ≠ q.n - 1 then
        { result := some t
          queue := { q with
            arr := Function.update (Heap.move moved arr idx (q.n - 1)) (q.n - 1) nullptr
            n := q.n - 1 }
          accessed := [idx, q.n - 1, idx, q.n - 1] }
      else
        { result := some t
          queue := { q with arr := arr, n := q.n - 1 }
          accessed := [idx] }
  else
    let poolMax := max q.n minPool
    let idx := idxS.toNat % poolMax
    if idx ≥ q.n then { result := some nullptr, queue := q }
    else
      let t := q.arr idx
      let arr := Function.update q.arr idx (moved t)
      if idx ≠ q.n - 1 then
        { result := some t
          queue := { q with arr := Heap.move moved arr idx (q.n - 1), n := q.n - 1 }
          accessed := [idx, q.n - 1, idx] }
      else
        { result := some t
          queue := { q with arr := arr, n := q.n - 1 }
          accessed := [idx] }

/-- `pop_with_P`; `accept r` is `r <= p * RAND_MAX`. -/
def popWithP (accept : Nat → Bool) (r : Nat) (idxS : UInt32) : Returned T :=
  if accept r then q.popRandom nullptr moved 0 idxS
  else { result := some nullptr, queue := q }

end Pointers

/-- The calls, with their random draws. -/
inductive Call (T : Type) where
  | push (t : T)
  | popFront
  | popRandom (minPool : Nat) (idxS : UInt32)
  | popWithP (accept : Nat → Bool) (r : Nat) (idxS : UInt32)

/-- One call. -/
def call (nullptr : T) (moved : T → T) (q : RandomArray T) : Call T → Returned T
  | .push t => q.push t
  | .popFront => q.popFront nullptr moved
  | .popRandom minPool idxS => q.popRandom nullptr moved minPool idxS
  | .popWithP accept r idxS => q.popWithP nullptr moved accept r idxS

end RandomArray

end Daenet.Ref
