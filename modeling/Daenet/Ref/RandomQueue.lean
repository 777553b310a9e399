/-!
# The random queue

`ConcurrentRandomQueue`: an array filled from the front, from which a random
slot is taken and its hole filled with the last element. The list is the live
prefix `arr[0..n)`, so `n` is its length; the cells behind it are never read.

The random draws are arguments, one value per call of the generator, and
every theorem quantifies over them. `r <= p * RAND_MAX` is a comparison of the
draw with a fixed threshold: `accept` is its outcome as a function of the draw.
-/

namespace Daenet.Ref

/-- `ConcurrentRandomQueue<T>`. `push` makes no test against the capacity: past
it the source writes outside its array, while the list here just grows. -/
structure ConcurrentRandomQueue (T : Type) where
  capacity : Nat := 10240
  arr : List T := []

namespace ConcurrentRandomQueue

variable {T : Type}

/-- `n`. -/
def size (q : ConcurrentRandomQueue T) : Nat := q.arr.length

/-- `push`. -/
def push (q : ConcurrentRandomQueue T) (t : T) : ConcurrentRandomQueue T :=
  { q with arr := q.arr ++ [t] }

/-- `pop_front`, which takes the last element. -/
def popFront (q : ConcurrentRandomQueue T) :
    Option T × ConcurrentRandomQueue T :=
  (q.arr.getLast?, { q with arr := q.arr.dropLast })

/-- Taking slot `idx` out: the last element moves into the hole. -/
def takeSlot (q : ConcurrentRandomQueue T) (idx : Nat) :
    Option T × ConcurrentRandomQueue T :=
  match q.arr[idx]?, q.arr.getLast? with
  | some t, some last =>
      (some t, { q with arr := (q.arr.set idx last).dropLast })
  | _, _ => (none, q)

/-- `pop_random`. -/
def popRandom (q : ConcurrentRandomQueue T) (minPool idxS : Nat) :
    Option T × ConcurrentRandomQueue T :=
  if minPool = 0 then
    if q.size = 0 then (none, q) else q.takeSlot (idxS % q.size)
  else
    let poolMax := max q.size minPool
    let idx := idxS % poolMax
    if idx ≥ q.size then (none, q) else q.takeSlot idx

/-- `pop_with_P`. -/
def popWithP (q : ConcurrentRandomQueue T) (accept : Nat → Bool)
    (r idxS : Nat) : Option T × ConcurrentRandomQueue T :=
  if accept r then q.popRandom 0 idxS else (none, q)

end ConcurrentRandomQueue

end Daenet.Ref
