import Daenet.Ref.Node
import Daenet.Ref.RandomQueue

/-!
# The shuffle pool

`ShufflePool`: one queue per finger. `send` files a packet under the first
finger with the packet's destination address; `send_batch` visits the slots in
order and lets each emit one datagram, a random packet of its queue or, when
the draw or the queue yields none, a dummy to the slot's finger.

The pool shares the finger table with its node, so every call reads the table
of that moment. `DAE_direct_send` overwrites the address it is given with the
one in the packet's header: what is emitted is the packet, and the header says
where it goes.
-/

namespace Daenet.Ref

/-- Where a datagram goes: `DAE_direct_send` reads the packet's header. -/
def AnonymousPacket.dest (p : AnonymousPacket) : String × Int :=
  (p.header.relayDestIp, p.header.relayDestPort)

/-- The address a finger holds. -/
def ChordFinger.addr (f : ChordFinger) : String × Int := (f.ip, f.port)

/-- The traffic counters of the node. -/
structure Counters where
  dummyCnt : UInt64 := 0
  appCnt : UInt64 := 0
  p2pCnt : UInt64 := 0
  deriving DecidableEq, Repr

/-- `DAE_direct_send` counts the maintenance messages. -/
def Counters.directSend (c : Counters) (p : AnonymousPacket) : Counters :=
  if p.isInternalMsg ∧ p.header.id ≠ .dummyMessage then
    { c with p2pCnt := c.p2pCnt + 1 }
  else c

/-- The queues of the pool, `m` of them. -/
abbrev PackagePool := List (ConcurrentRandomQueue AnonymousPacket)

namespace ShufflePool

/-- The constructor's pool: a vector of `m` empty queues. -/
def new (m : Nat) : PackagePool := List.replicate m {}

/-- The first slot, counting from `i`, whose finger has the address. -/
def slotFor (fingerTable : Int → ChordFinger) (dest : String × Int) :
    Nat → Nat → Option Nat
  | _, 0 => none
  | i, k + 1 =>
      if dest = (fingerTable i).addr then some i
      else slotFor fingerTable dest (i + 1) k

/-- What `send` did with a packet. -/
inductive Sent where
  | queued (pool : PackagePool)
  | direct
  | dropped

/-- `send`: the first finger with the packet's address, else this node's own
address, else an error is logged and the packet is gone. -/
def send (pool : PackagePool) (fingerTable : Int → ChordFinger) (m : Nat)
    (host : String) (port : Int) (packet : AnonymousPacket) : Sent :=
  match slotFor fingerTable packet.dest 0 m with
  | some i => .queued (pool.modify i fun q => q.push packet)
  | none => if packet.dest = (host, port) then .direct else .dropped

/-- A slot's random draws in one batch: `rand()` and `randombytes_random()`. -/
structure Draw where
  r : Nat
  idxS : Nat

/-- The dummy for a slot. The fields that `send_batch` does not fill are left
uninitialised in the source. -/
def dummy (f : ChordFinger) : AnonymousPacket where
  header :=
    { id := .dummyMessage
      size := 132
      relayId := 0
      relayIp := ""
      relayDestId := f.successor
      relayDestIp := f.ip
      relayDestPort := f.port
      relayReplyId := 0
      relayReplyIp := ""
      relayReplyPort := 0
      keyId := 0
      keyIp := ""
      keyPort := 0
      index := 0
      msgType := true
      isDest := false
      sessionId := 0 }
  payload := List.replicate 132 0

/-- What a batch leaves: the queues, the datagrams emitted in order, the
counters, and the three numbers of the report if one was printed. -/
structure Batch where
  pool : PackagePool := []
  out : List AnonymousPacket := []
  counters : Counters
  report : Option (UInt64 × UInt64 × UInt64) := none

/-- The loop of `send_batch`, from slot `cur` on. -/
def sendSlots (fingerTable : Int → ChordFinger) (accept : Nat → Bool)
    (draws : Nat → Draw) (sendDummy : Bool) :
    Nat → PackagePool → Counters → Batch
  | _, [], c => { counters := c }
  | cur, queue :: rest, c =>
      match queue.popWithP accept (draws cur).r (draws cur).idxS with
      | (none, queue') =>
          if sendDummy then
            let d := dummy (fingerTable cur)
            let b := sendSlots fingerTable accept draws sendDummy (cur + 1) rest
              ({ c with dummyCnt := c.dummyCnt + 1 }.directSend d)
            { b with pool := queue' :: b.pool, out := d :: b.out }
          else
            let b := sendSlots fingerTable accept draws sendDummy (cur + 1) rest c
            { b with pool := queue' :: b.pool }
      | (some pkg, queue') =>
          let b := sendSlots fingerTable accept draws sendDummy (cur + 1) rest
            ({ c with appCnt := c.appCnt + 1 }.directSend pkg)
          { b with pool := queue' :: b.pool, out := pkg :: b.out }

/-- The `(dummy:app:p2p)` line. -/
def reportLine (c : Counters) : UInt64 × UInt64 × UInt64 :=
  (c.dummyCnt, c.appCnt, c.p2pCnt - c.dummyCnt)

/-- `send_batch`. `due` says whether `cnt_interval` has passed since the last
report; a report is printed under `debug` and clears the counters either
way. -/
def sendBatch (pool : PackagePool) (fingerTable : Int → ChordFinger)
    (accept : Nat → Bool) (draws : Nat → Draw) (sendDummy debug due : Bool)
    (c : Counters) : Batch :=
  let b := sendSlots fingerTable accept draws sendDummy 0 pool c
  if due then
    { b with counters := {}
             report := if debug then some (reportLine b.counters) else none }
  else b

end ShufflePool

end Daenet.Ref
