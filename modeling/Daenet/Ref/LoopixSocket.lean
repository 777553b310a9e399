import Mathlib.Logic.Function.Basic
import Daenet.Ref.Packet

/-!
# Loopix sockets

The sockets an application gets when the messages go through Loopix: a relay
keeps one UDP socket to its Loopix client, a thread that sorts what comes in by
the sender's index, and one queue per socket. There is no handshake. A peer
announces itself with a datagram whose first byte is 1, twice; whatever comes
from a sender that has no queue is put up for `accept`, and the queue is made
when `accept` builds the socket.

The receive thread looks a sender up and then pushes, and `accept` pops and then
registers; other threads may run in between, so these are four steps here and
not two. Everything done under one lock is one step. A call that would block
changes nothing.
-/

namespace Daenet.Ref

/-- `loopix_packet_t`: the `size` bytes that `recvfrom` wrote. The buffer is
zeroed, and so are the bytes after them. -/
structure LoopixPacket where
  buf : List UInt8
  deriving DecidableEq, Repr

namespace LoopixPacket

/-- `header_len`. -/
def headerLen : Nat := 5

def byte (p : LoopixPacket) (k : Nat) : UInt8 := p.buf.getD k 0

/-- `packet->buf[connection_bit] == 1`. -/
def isConnection (p : LoopixPacket) : Bool := p.byte 0 == 1

/-- The sender's index. -/
def src (p : LoopixPacket) : Nat := ((p.byte 1).toNat <<< 8) + (p.byte 2).toNat

/-- What `recv` copies out. -/
def payload (p : LoopixPacket) : List UInt8 := p.buf.drop headerLen

/-- The header that `connect` and `send` write: each index in two bytes. -/
def header (connection : Bool) (src dest : Nat) : List UInt8 :=
  [if connection then 1 else 0, .ofNat (src >>> 8), .ofNat (src % 256),
    .ofNat (dest >>> 8), .ofNat (dest % 256)]

end LoopixPacket

/-- A `LoopixSocket`. Queues are named by the order in which they were made. -/
structure LoopixSocket where
  loopixDestIdx : Nat
  queue : Nat
  isActive : Bool := true
  deriving DecidableEq, Repr

/-- What `recv` returns: -1 on a closed socket, the copied bytes, or nothing at
all, when the packet is shorter than its header and the size to be copied
negative. -/
inductive LoopixSocket.Received where
  | closed
  | data (payload : List UInt8)
  | fault
  deriving DecidableEq, Repr

/-- `LoopixSocket::send`: the datagram for the peer, if it fits the buffer it is
put together in. -/
def LoopixSocket.send (s : LoopixSocket) (relayIdx : Nat) (buf : List UInt8) :
    Option (List UInt8) :=
  if LoopixPacket.headerLen + buf.length ≤ maxMtu then
    some (LoopixPacket.header false relayIdx s.loopixDestIdx ++ buf)
  else none

/-- `RelayMetadata`: the queues, which of them belongs to which peer, and what
waits for `accept`. -/
structure RelayMetadata where
  acceptQueue : List LoopixPacket := []
  queues : List (List LoopixPacket) := []
  socketQueue : Nat → Option Nat := fun _ => none

namespace RelayMetadata

/-- `get_queue`; a peer that is not in the map has a null pointer there. -/
def getQueue (m : RelayMetadata) (idx : Nat) : Option Nat := m.socketQueue idx

/-- `register_queue`: a new queue, whether or not there was one. -/
def registerQueue (m : RelayMetadata) (idx : Nat) : RelayMetadata × Nat :=
  ({ m with queues := m.queues ++ [[]]
            socketQueue := Function.update m.socketQueue idx (some m.queues.length) },
    m.queues.length)

/-- `push` on one of the queues. -/
def push (m : RelayMetadata) (q : Nat) (p : LoopixPacket) : RelayMetadata :=
  { m with queues := m.queues.modify q (· ++ [p]) }

end RelayMetadata

/-- The relay: what its receive thread has in hand, with the queue it found, the
packets of `accept` calls that have popped and not yet registered, and the
sockets made so far. -/
structure LoopixRelay where
  metadata : RelayMetadata := {}
  receiving : Bool := true
  inHand : Option (LoopixPacket × Option Nat) := none
  accepting : List LoopixPacket := []
  sockets : List LoopixSocket := []

/-- What the threads can do. -/
inductive LoopixAct where
  | lookUp (buf : List UInt8)
  | put
  | acceptPop
  | acceptRegister (k : Nat)
  | connect (dest : Nat)
  | recv (j : Nat)
  | close (j : Nat)
  deriving DecidableEq, Repr

/-- What can be seen of it: a datagram the receive thread has taken up, and what
`recv` on the `j`-th socket returned. -/
inductive LoopixEvent where
  | handled (p : LoopixPacket)
  | received (j : Nat) (r : LoopixSocket.Received)
  deriving DecidableEq, Repr

namespace LoopixRelay

/-- The two datagrams that `connect` sends, before it waits and makes its own
socket. -/
def connect (relayIdx dest : Nat) : List (List UInt8) :=
  List.replicate 2 (LoopixPacket.header true relayIdx dest)

/-- The receive thread takes up a datagram and looks for its sender's queue. It
ends at the first empty one. -/
def lookUp (r : LoopixRelay) (buf : List UInt8) :
    LoopixRelay × Option LoopixEvent :=
  if r.receiving = false ∨ r.inHand.isSome then (r, none)
  else if buf = [] then ({ r with receiving := false }, none)
  else
    let packet : LoopixPacket := ⟨buf.take maxMtu⟩
    ({ r with inHand := some (packet, r.metadata.getQueue packet.src) },
      some (.handled packet))

/-- And puts it where it belongs: up for `accept`, nowhere, or on the queue. -/
def put (r : LoopixRelay) : LoopixRelay :=
  match r.inHand with
  | none => r
  | some (packet, none) =>
      { r with inHand := none
               metadata := { r.metadata with
                 acceptQueue := r.metadata.acceptQueue ++ [packet] } }
  | some (packet, some q) =>
      if packet.isConnection then { r with inHand := none }
      else { r with inHand := none, metadata := r.metadata.push q packet }

/-- The constructor of `LoopixSocket`. -/
def newSocket (r : LoopixRelay) (dest : Nat) : LoopixRelay :=
  let a := r.metadata.registerQueue dest
  { r with metadata := a.1, sockets := r.sockets ++ [⟨dest, a.2, true⟩] }

/-- `accept`, up to the packet it takes. -/
def acceptPop (r : LoopixRelay) : LoopixRelay :=
  match r.metadata.acceptQueue with
  | [] => r
  | packet :: rest =>
      { r with metadata := { r.metadata with acceptQueue := rest }
               accepting := r.accepting ++ [packet] }

/-- The rest of an `accept` call: only the packet's sender is used. -/
def acceptRegister (r : LoopixRelay) (k : Nat) : LoopixRelay :=
  match r.accepting[k]? with
  | none => r
  | some packet =>
      newSocket { r with accepting := r.accepting.eraseIdx k } packet.src

/-- `recv` on the `j`-th socket. -/
def recv (r : LoopixRelay) (j : Nat) : LoopixRelay × Option LoopixEvent :=
  match r.sockets[j]? with
  | none => (r, none)
  | some s =>
      match r.metadata.queues.getD s.queue [] with
      | [] => (r, none)
      | packet :: _ =>
          ({ r with metadata := { r.metadata with
              queues := r.metadata.queues.modify s.queue List.tail } },
            some (.received j
              (if s.isActive = false then .closed
              else if packet.buf.length < LoopixPacket.headerLen then .fault
              else .data packet.payload)))

/-- `close` on the `j`-th socket: an empty packet wakes up whoever waits. -/
def close (r : LoopixRelay) (j : Nat) : LoopixRelay :=
  match r.sockets[j]? with
  | none => r
  | some s =>
      { r with metadata := r.metadata.push s.queue ⟨[]⟩
               sockets := r.sockets.set j { s with isActive := false } }

/-- One step. -/
def step (r : LoopixRelay) : LoopixAct → LoopixRelay × Option LoopixEvent
  | .lookUp buf => r.lookUp buf
  | .put => (r.put, none)
  | .acceptPop => (r.acceptPop, none)
  | .acceptRegister k => (r.acceptRegister k, none)
  | .connect dest => (r.newSocket dest, none)
  | .recv j => r.recv j
  | .close j => (r.close j, none)

end LoopixRelay

end Daenet.Ref
