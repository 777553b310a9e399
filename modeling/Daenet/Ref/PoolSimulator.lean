import Mathlib.Algebra.Group.Nat.Defs

/-!
# The simulator of the pools

`PoolSimulator` and `PoolUser`: users on a circle who pass messages to one another. A user
makes a message now and then, takes in what it has received, and then sends one of the
messages in its pool, or a new one to a random user. A message goes to its destination if
this is near, and else to a random user on the way. A message that is sent may be marked
to be dropped, by a probability that is computed in floating point and is a parameter
here.

An array has a thousand entries for the pool; none is a write beyond its end, or the
remainder of a division by zero. The simulator keeps no record of what becomes of the
messages; here it does, in `log`.
-/

namespace Daenet.Ref

/-- An entry of the pools: from, dest and count. -/
structure PoolMsg where
  origin : Nat
  dest : Nat
  cnt : Nat
  deriving DecidableEq, Repr

/-- `PoolUser`: the first `cnt_send` entries of `sent_pool`, and `recv_pool`. -/
structure PoolUser where
  sentPool : List PoolMsg := []
  recvPool : List (PoolMsg × Bool) := []
  deriving DecidableEq, Repr

/-- What becomes of a message. -/
inductive PoolEvent where
  | made (msg : PoolMsg)
  | arrived (msg : PoolMsg)
  | dropped (msg : PoolMsg)
  deriving DecidableEq, Repr

/-- `PoolSimulator`. -/
structure PoolSimulator where
  cntUsers : Nat
  range : Nat
  users : Nat → PoolUser := fun _ => {}
  log : List PoolEvent := []

/-- The random numbers of one `run`, in the order of the source. -/
structure PoolDraws where
  p : UInt32
  k : UInt32
  dest : UInt32
  step : UInt32
  flip : UInt32
  deriving DecidableEq, Repr

namespace PoolSimulator

/-- A method of user `i`. -/
def modify (s : PoolSimulator) (i : Nat) (f : PoolUser → PoolUser) : PoolSimulator :=
  { s with users := fun j => if j = i then f (s.users i) else s.users j }

def note (s : PoolSimulator) (e : PoolEvent) : PoolSimulator := { s with log := e :: s.log }

/-- `sent_pool[cnt_send++] = ..`. -/
def push (s : PoolSimulator) (i : Nat) (msg : PoolMsg) : Option PoolSimulator :=
  if (s.users i).sentPool.length < 1000 then
    some (s.modify i fun u => { u with sentPool := u.sentPool ++ [msg] })
  else none

/-- `handle_send_msg` of the receiver. -/
def handleSendMsg (s : PoolSimulator) (receiver : Nat) (msg : PoolMsg) (drop : Bool) :
    PoolSimulator :=
  if msg.dest = receiver then s.note (.arrived msg)
  else s.modify receiver fun u => { u with recvPool := u.recvPool ++ [(msg, drop)] }

/-- `recv_msg`. -/
def recvMsg (i : Nat) (s : PoolSimulator) (head : PoolMsg × Bool) : Option PoolSimulator :=
  if head.2 then some (s.note (.dropped head.1))
  else s.push i { head.1 with cnt := head.1.cnt + 1 }

/-- The loop that empties `recv_pool`. -/
def drain (s : PoolSimulator) (i : Nat) : Option PoolSimulator :=
  (s.users i).recvPool.foldlM (recvMsg i) (s.modify i fun u => { u with recvPool := [] })

/-- A message of the user itself. -/
def generate (s : PoolSimulator) (i : Nat) (p : UInt32) : Option PoolSimulator :=
  let dest := (i + 40) % s.cntUsers
  if p.toNat % 10 > 8 ∧ dest ≠ i then
    let msg : PoolMsg := ⟨i, dest, 0⟩
    (s.note (.made msg)).push i msg
  else some s

/-- The `receiver` that `send_dummy` and `send_msg` choose. The random step makes the
arithmetic unsigned. -/
def receiver (s : PoolSimulator) (i dest : Nat) (step : UInt32) : Option Nat :=
  let d : Int := dest - i
  let half := s.cntUsers / 2
  let realD : Int := if d.natAbs > half then s.cntUsers - d.natAbs else d.natAbs
  if realD < ((s.range / 2 : Nat) : Int) then some dest
  else if s.range / 2 = 0 then none
  else if (i : Int) - dest > half ∨ d > 0 ∧ d < half then
    some ((i + step.toNat % (s.range / 2)) % 2 ^ 32 % s.cntUsers)
  else
    some ((i + 2 ^ 32 - step.toNat % (s.range / 2) + s.cntUsers) % 2 ^ 32 % s.cntUsers)

/-- `send_dummy`. -/
def sendDummy (s : PoolSimulator) (i : Nat) (draws : PoolDraws) : Option PoolSimulator :=
  let dest := draws.dest.toNat % s.cntUsers
  if dest = i then some s
  else
    let msg : PoolMsg := ⟨i, dest, 0⟩
    (s.receiver i dest draws.step).map fun r => (s.note (.made msg)).handleSendMsg r msg false

/-- `send_msg(k)`: the entry changes places with the last one, which is cut off.
`percent` is the probability that a message is dropped, for the size of the pool and the
message's count. -/
def sendMsg (percent : Nat → Nat → Int) (s : PoolSimulator) (i k : Nat) (draws : PoolDraws) :
    Option PoolSimulator :=
  let pool := (s.users i).sentPool
  match pool[k]?, pool.getLast? with
  | some msg, some last =>
      let drop := decide (((draws.flip.toNat % 100 : Nat) : Int) ≤ percent pool.length msg.cnt)
      (s.receiver i msg.dest draws.step).map fun r =>
        (s.modify i fun u => { u with sentPool := (u.sentPool.set k last).dropLast }).handleSendMsg
          r msg drop
  | _, _ => none

/-- `run` of user `i`. -/
def run (percent : Nat → Nat → Int) (s : PoolSimulator) (i : Nat) (draws : PoolDraws) :
    Option PoolSimulator := do
  let s ← s.generate i draws.p
  let s ← s.drain i
  let cntSend := (s.users i).sentPool.length
  let k := draws.k.toNat % max 200 cntSend
  if k ≥ cntSend then s.sendDummy i draws else s.sendMsg percent i k draws

/-- `start`, with the users' turns in any order. -/
def start (percent : Nat → Nat → Int) (cntUsers range : Nat) (turns : List (Nat × PoolDraws)) :
    Option PoolSimulator :=
  turns.foldlM (fun s turn => s.run percent turn.1 turn.2)
    { cntUsers := cntUsers, range := range }

end PoolSimulator

end Daenet.Ref
