import Daenet.Ref.Heap
import Daenet.Ref.Packet

/-!
# The pool with deadlines

`PoissionPool`: a heap of packets with deadlines. One thread adds dummies, `send`
puts a packet in the place of a random dummy, and one thread takes packets out when
the deadline of the first one is reached (`sync_fetch`).

All that is done under `pool_mutex` is one step. `sync_fetch` gives the lock up
between its looks at the pool, while it waits and before the last `pop_heap`, so that
it is several steps, and anything can come in between. The last `pop_heap` takes no
lock. It is taken as atomic all the same: a run of these steps is an interleaving in
which `send` and the dummy thread do not touch the heap while `pop_heap` is at work. The
clock and the random draws are arguments. When a wait ends is left open: at its
timeout, when it is notified, or for no reason.

The elements of the array are created with a null pointer, but neither with a deadline
nor with a value of `is_dummy`.
-/

namespace Daenet.Ref

/-- `struct timeval`. -/
structure Timeval where
  tvSec : Int
  tvUsec : Int
  deriving DecidableEq, Repr

/-- `compute_delay`. -/
def computeDelay (a : Timeval) : Int := a.tvSec * 1000000 + a.tvUsec

/-- `PoolPacket`. -/
structure PoolPacket where
  delay : Timeval
  isDummy : Bool
  packet : Option AnonymousPacket

namespace PoolPacket

/-- `operator<`. -/
def lt (a b : PoolPacket) : Bool := decide (computeDelay a.delay < computeDelay b.delay)

/-- What a move leaves: the pointer is taken, the rest is copied. -/
def moved (a : PoolPacket) : PoolPacket := { a with packet := none }

end PoolPacket

/-- Where `sync_fetch` is: at the top of its loop, or in one of the two waits with the
`delay` it has computed before, or behind the loop. -/
inductive Fetching where
  | looking
  | waiting (delay : Int)
  | popping
  deriving DecidableEq, Repr

/-- `PoissionPool`, and where the thread that sends is. -/
structure PoissionPool where
  lambda : Int := 10
  poolQueue : Heap PoolPacket
  fetching : Fetching := .looking

namespace PoissionPool

/-- The constructor, with what the memory of the array holds apart from the pointers. -/
def new (delay : Nat → Timeval) (isDummy : Nat → Bool) : PoissionPool where
  poolQueue := Heap.new 1024 fun i => ⟨delay i, isDummy i, none⟩

/-- The deadline of a dummy. A sum of exactly one second stays in `tv_usec`. -/
def deadline (lambda : Int) (now : Timeval) (random : UInt32) : Timeval :=
  let t : Int := random.toNat % 1000
  let delay := t * lambda
  let tvUsec := now.tvUsec + delay
  if tvUsec > 1000000 then ⟨now.tvSec + 1, tvUsec - 1000000⟩ else ⟨now.tvSec, tvUsec⟩

/-- `generate_dummy`. -/
def generateDummy (pool : PoissionPool) (now : Timeval) (random : UInt32) : PoissionPool :=
  let packet : PoolPacket := ⟨deadline pool.lambda now random, true, none⟩
  if pool.poolQueue.n ≥ 1024 then pool
  else { pool with poolQueue := pool.poolQueue.insert PoolPacket.lt PoolPacket.moved packet }

/-- The slot that a turn of `send` looks at. The draw is an `int`, and so is the
remainder, which has the sign of the draw. -/
def drawSlot (n : Nat) (random : UInt32) : Int := Int.tmod random.toInt32.toInt n

/-- What one turn of the loop of `send` does: it goes around again, or puts the packet
into the pool, or accesses a slot outside the array. -/
inductive Turn where
  | again
  | placed (pool : PoissionPool)
  | outside (index : Int)

/-- One turn of the loop of `send`. -/
def sendTurn (pool : PoissionPool) (random : UInt32) (packet : AnonymousPacket) : Turn :=
  let s := pool.poolQueue.n
  if s = 0 then .again
  else
    let index := drawSlot s random
    if index < 0 then .outside index
    else
      let slot := pool.poolQueue.arr index.toNat
      if slot.isDummy then
        .placed { pool with
          poolQueue := { pool.poolQueue with
            arr := Function.update pool.poolQueue.arr index.toNat
              { slot with isDummy := false, packet := some packet } } }
      else .again

/-- A look of `sync_fetch` at the pool, with the clock. The first slot is read before
the test whether there is an element. -/
def look (pool : PoissionPool) (now : Timeval) : PoissionPool :=
  let delay := computeDelay now - computeDelay (pool.poolQueue.arr 0).delay
  if pool.poolQueue.n = 0 then { pool with fetching := .waiting delay }
  else if delay < 0 then { pool with fetching := .waiting delay }
  else { pool with fetching := .popping }

/-- The end of a wait, and the test of the loop. -/
def wake (pool : PoissionPool) (delay : Int) : PoissionPool :=
  if delay < 0 then { pool with fetching := .looking }
  else { pool with fetching := .popping }

/-- The `pop_heap` at the end, without the lock but undisturbed, and the element that
`sync_fetch` returns the packet of. -/
def pop (pool : PoissionPool) : PoolPacket × PoissionPool :=
  let r := pool.poolQueue.popHeap PoolPacket.lt PoolPacket.moved
  (r.1, { pool with poolQueue := r.2, fetching := .looking })

/-- What the threads do. `fetch` is the next step of `sync_fetch`, wherever it is. -/
inductive Act where
  | generateDummy (now : Timeval) (random : UInt32)
  | send (packet : AnonymousPacket) (random : UInt32)
  | fetch (now : Timeval)

/-- What a step leaves: the pool, the element if one was taken out, and the packet if
one was put in. -/
structure Stepped where
  pool : PoissionPool
  fetched : Option PoolPacket := none
  placed : Option AnonymousPacket := none

/-- One step, the unlocked `pop_heap` being one; none is an access outside the
array. -/
def step (pool : PoissionPool) : Act → Option Stepped
  | .generateDummy now random => some { pool := pool.generateDummy now random }
  | .send packet random =>
      match pool.sendTurn random packet with
      | .again => some { pool := pool }
      | .placed pool' => some { pool := pool', placed := some packet }
      | .outside _ => none
  | .fetch now =>
      match pool.fetching with
      | .looking => some { pool := pool.look now }
      | .waiting delay => some { pool := pool.wake delay }
      | .popping => some { pool := pool.pop.2, fetched := some pool.pop.1 }

end PoissionPool

end Daenet.Ref
