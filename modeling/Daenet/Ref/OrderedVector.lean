import Mathlib.Data.Finset.Basic
import Mathlib.Order.Defs.LinearOrder

/-!
# Ordered arrays of bounded size

`OrderedVector<T>`, and `NeighbouringSet`, which is the same class written out
for `host_port_t`, with a set of the ids beside the array. An array of at most
`max_num` elements is kept in order by sliding the elements after, or before, the
place of a new one. Once it is full an element goes for each that comes: the last
one or the first one, so that about as many stay below `mid` as above.

The two differ in their comparison operators and in what the set holds, which are
the parameters here. Each class then applies the definitions to its own.
-/

namespace Daenet.Ref

/-- `operator<` and its family on `T`, and what of an element goes into the
set. -/
structure Operators (T K : Type) where
  lt : T → T → Bool
  gt : T → T → Bool
  le : T → T → Bool
  ge : T → T → Bool
  key : T → K

/-- `OrderedVector<T>`, with `set` a set of `K`. The array is a function of the
index; what stands at and after `n` is whatever the memory held. -/
structure OrderedVector (T K : Type) where
  arr : Nat → T
  n : Nat := 0
  maxNum : Nat
  cLess : Int := 0
  cLarge : Int := 0
  mid : T
  set : Finset K := ∅

namespace OrderedVector

variable {T K : Type}

/-- The constructor: an array that holds anything, and no element. -/
def new (max : Nat) (mid : T) (arr : Nat → T) : OrderedVector T K where
  arr := arr
  maxNum := max
  mid := mid

/-- A loop that goes down from slot `i`: `t` is put into the first slot for which
`found` holds of the two elements before and in it, and the elements of the slots
above have moved up by one. The result says whether there was such a slot. -/
def slideRight (found : Nat → T → T → Bool) (t : T) :
    Nat → (Nat → T) → (Nat → T) × Bool
  | 0, arr => (arr, false)
  | i + 1, arr =>
      if found (i + 1) (arr i) (arr (i + 1)) then
        (Function.update arr (i + 1) t, true)
      else slideRight found t i (Function.update arr (i + 1) (arr i))

/-- The loop of `k` turns that goes up from slot `i`, and moves the elements
down. -/
def slideLeft (found : Nat → T → T → Bool) (t : T) :
    Nat → Nat → (Nat → T) → (Nat → T) × Bool
  | 0, _, arr => (arr, false)
  | k + 1, i, arr =>
      if found i (arr i) (arr (i + 1)) then (Function.update arr i t, true)
      else slideLeft found t k (i + 1) (Function.update arr i (arr (i + 1)))

section Insert

variable [DecidableEq K] (ops : Operators T K) (v : OrderedVector T K) (t : T)

/-- `insert` into a full array, when the last element is to go. -/
def evictLast (cLess cLarge : Int) : OrderedVector T K :=
  let set := Insert.insert (ops.key t) v.set
  let r := slideRight (fun _ x y => ops.gt t x && ops.lt t y) t (v.maxNum - 1) v.arr
  if r.2 then
    { v with arr := r.1, set := set.erase (ops.key t), cLess := cLess
             cLarge := cLarge - 1 }
  else
    { v with arr := Function.update r.1 0 t, set := set.erase (ops.key (r.1 0))
             cLess := cLess, cLarge := cLarge - 1 }

/-- `insert` into a full array, when the first element is to go. -/
def evictFirst (cLess cLarge : Int) : OrderedVector T K :=
  let set := Insert.insert (ops.key t) v.set
  let r := slideLeft (fun _ x y => ops.gt t x && ops.lt t y) t (v.maxNum - 1) 0 v.arr
  if r.2 then
    { v with arr := r.1, set := set.erase (ops.key t), cLess := cLess - 1
             cLarge := cLarge }
  else
    { v with arr := Function.update r.1 (v.maxNum - 1) t
             set := set.erase (ops.key (r.1 (v.maxNum - 1))), cLess := cLess - 1
             cLarge := cLarge }

/-- `insert` into a full array, after its two early returns: the counter of the
new element's side is raised, and then the two are compared. -/
def insertFull : OrderedVector T K :=
  let cLarge := if ops.gt t v.mid then v.cLarge + 1 else v.cLarge
  let cLess := if ops.gt t v.mid then v.cLess else v.cLess + 1
  if cLarge > cLess then v.evictLast ops t cLess cLarge
  else v.evictFirst ops t cLess cLarge

/-- `insert` when there is room. -/
def insertRoom : OrderedVector T K :=
  let r := slideRight (fun i x y => ops.gt t x && (ops.lt t y || decide (i ≥ v.n))) t
    v.n v.arr
  { v with arr := if r.2 then r.1 else Function.update r.1 0 t
           cLarge := if ops.gt t v.mid then v.cLarge + 1 else v.cLarge
           cLess := if ops.gt t v.mid then v.cLess
             else if ops.lt t v.mid then v.cLess + 1 else v.cLess
           n := v.n + 1 }

/-- `insert`. -/
def insertWith : OrderedVector T K :=
  if v.n ≥ v.maxNum then
    if v.cLarge ≥ v.cLess ∧ ops.gt t (v.arr (v.maxNum - 1)) then v
    else if v.cLess ≥ v.cLarge ∧ ops.lt t (v.arr 0) then v
    else v.insertFull ops t
  else v.insertRoom ops t

end Insert

/-- `near_neighbour`: where in the array the answer starts, and its size. -/
def nearNeighbourWith (ops : Operators T K) (v : OrderedVector T K) (t : T)
    (size : Int) : Int × Int :=
  if ops.le t (v.arr 0) then (0, if size > v.n then v.n else size)
  else if ops.ge t (v.arr (v.n - 1)) then
    let size := if size > v.n then (v.n : Int) else size
    (v.n - size, size)
  else
    let found : Nat := (List.range (v.n - 1)).foldl (fun found i =>
      if ops.gt t (v.arr i) && ops.lt t (v.arr (i + 1)) then i else found) 0
    if found + 1 + size.tdiv 2 > v.n then
      let size := if size > v.n then (v.n : Int) else size
      (v.n - size, size)
    else if found + 1 - size.tdiv 2 < 0 then (0, if size > v.n then v.n else size)
    else (found + 1 - size.tdiv 2, size)

section Linear

variable [LinearOrder T]

/-- The operators of an ordered type. -/
def operators : Operators T T where
  lt x y := decide (x < y)
  gt x y := decide (y < x)
  le x y := decide (x ≤ y)
  ge x y := decide (y ≤ x)
  key := id

/-- `OrderedVector<T>::insert`. -/
def insert (v : OrderedVector T T) (t : T) : OrderedVector T T :=
  v.insertWith operators t

/-- `OrderedVector<T>::near_neighbour`. -/
def nearNeighbour (v : OrderedVector T T) (t : T) (size : Int) : Int × Int :=
  v.nearNeighbourWith operators t size

end Linear

end OrderedVector

/-- `host_port_t`. Of `sock`, the address; its port is `port` once more. -/
structure HostPort where
  host : String
  port : Int
  relayId : Nat
  sAddr : Nat := 0
  deriving DecidableEq, Repr

namespace HostPort

/-- The comparison operators of `host_port_t`. `operator>` and `operator>=` have
the bodies of `operator<` and `operator<=`. -/
def operators : Operators HostPort Nat where
  lt a b := decide (a.relayId < b.relayId)
  gt a b := decide (a.relayId < b.relayId)
  le a b := decide (a.relayId ≤ b.relayId)
  ge a b := decide (a.relayId ≤ b.relayId)
  key := relayId

end HostPort

/-- `NeighbouringSet`: the ids are in the set. -/
abbrev NeighbouringSet := OrderedVector HostPort Nat

namespace NeighbouringSet

/-- `MAX_SET`. -/
def maxSet : Nat := 20

/-- `init` of a new object. -/
def init (relayHost : HostPort) (arr : Nat → HostPort) : NeighbouringSet :=
  .new maxSet relayHost arr

/-- `contain`. -/
def contain (s : NeighbouringSet) (id : Nat) : Bool := decide (id ∈ s.set)

/-- `add_neighbor(host_port_t &)`. -/
def addNeighbor (s : NeighbouringSet) (host : HostPort) : NeighbouringSet :=
  if host.relayId ∈ s.set then s
  else
    let s' := s.insertWith HostPort.operators host
    { s' with set := Insert.insert host.relayId s'.set }

/-- The two ways to call `add_neighbor`. -/
inductive Call where
  | host (h : HostPort)
  | address (ip : Nat) (port : Int) (relayId : Nat)
  deriving DecidableEq, Repr

/-- What is inserted. The overload with an address fills in a host of its own,
and its body is then the same. -/
def Call.neighbor : Call → HostPort
  | .host h => h
  | .address ip port relayId => { host := "...", port, relayId, sAddr := ip }

/-- `add_neighbor`, both of them. -/
def call (s : NeighbouringSet) (c : Call) : NeighbouringSet := s.addNeighbor c.neighbor

/-- `near_neighbour`. -/
def nearNeighbour (s : NeighbouringSet) (t : HostPort) (size : Int) : Int × Int :=
  s.nearNeighbourWith HostPort.operators t size

end NeighbouringSet

end Daenet.Ref
