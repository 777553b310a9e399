import Daenet.Lib.Bytes
import Daenet.Ref.Handler

/-!
# Datagrams

The receive loop reads a datagram into the buffer of a fresh `AnonymousPacket`,
casts the buffer to `anonymous_header_t` and dispatches on what it finds there.
Nothing is checked on the way: not how much of the buffer was received, nor
whether an index is in the table, an address ends inside its field, or a size
inside the datagram.

Here is the layout of the header, and the dispatch once more with each of these
accesses checked. A `Fault` is the first one that goes astray; what the source
does after it is undefined. `DLOG` output, which the build compiles out with
`NDEBUG`, is no access.
-/

namespace Daenet.Ref

open Daenet.Lib

/-- The buffer of an `AnonymousPacket` when `recvfrom` has returned `size`.
Behind the datagram it holds what the memory held before. -/
structure Datagram where
  buf : List UInt8
  size : Nat
  length : buf.length = maxMtu
  pos : 0 < size
  le : size ≤ maxMtu

/-- An access that goes astray: an index outside `finger_table`, a payload
outside the datagram, an address that does not end in its field, a packet that
does not fit its buffer. -/
inductive Fault where
  | finger (index : Int)
  | payload (size : Int)
  | address (offset : Nat)
  | packet (size : Int)
  deriving DecidableEq, Repr

/-- The values of `message.hpp`. -/
def messages : List (Nat × Message) :=
  [(0xfff1, .dummyMessage),
    (0xfff2, .internalJoinFindSuccessor),
    (0xfff3, .internalReplyFindSuccessor),
    (0xfff4, .internalFindPredecessor),
    (0xfff5, .internalReplyGetPredecessor),
    (0xfff6, .internalNotifyPredecessorJoin),
    (0xfff7, .internalFetchSuccessorList),
    (0xfff8, .internalReplySuccessorList),
    (0xfff9, .internalCheckPredecessorExistence),
    (0xfffa, .internalReplyPredecessorExistence),
    (0xfffb, .internalCheckSuccessorExistence),
    (0xfffc, .internalReplySuccessorExistence),
    (0xfffd, .externalPingpongService),
    (0xfffe, .externalReplyPingpongService),
    (0xffff, .externalDeaddropMessaging),
    (0x10000, .externalReplyDeaddropMessaging)]

/-- The offsets of the address fields the handlers read, of 20 bytes each. -/
def relayIpOffset : Nat := 24
def relayReplyIpOffset : Nat := 88
def keyIpOffset : Nat := 120
def sizeofIp : Nat := 20

namespace Datagram

/-- An unsigned field. -/
def nat (d : Datagram) (offset len : Nat) : Nat :=
  leNat ((d.buf.drop offset).take len)

/-- An `int`. -/
def int (d : Datagram) (offset : Nat) : Int := Int.bmod (d.nat offset 4) (2 ^ 32)

/-- A `bool`. -/
def bool (d : Datagram) (offset : Nat) : Bool := d.nat offset 1 != 0

/-- A `char*`: the bytes up to the first zero, wherever that is. -/
def string (d : Datagram) (offset : Nat) : String :=
  String.ofList (((d.buf.drop offset).takeWhile (· ≠ 0)).map
    fun b => Char.ofNat b.toNat)

/-- `header()`. -/
def header (d : Datagram) : AnonymousHeader where
  id := (messages.lookup (d.nat 0 8)).getD (.other (d.nat 0 8))
  size := d.int 8
  relayId := d.nat 16 8
  relayIp := d.string relayIpOffset
  relayDestId := d.nat 48 8
  relayDestIp := d.string 56
  relayDestPort := d.int 76
  relayReplyId := d.nat 80 8
  relayReplyIp := d.string relayReplyIpOffset
  relayReplyPort := d.int 108
  keyId := d.nat 112 8
  keyIp := d.string keyIpOffset
  keyPort := d.int 140
  index := d.int 144
  msgType := d.bool 148
  isDest := d.bool 149
  sessionId := d.int 152

/-- The packet that the handlers take the datagram for. -/
def packet (d : Datagram) : AnonymousPacket where
  header := d.header
  payload := (d.buf.drop sizeofHeader).take d.header.size.toNat

/-! ## Accesses -/

/-- An address field read as a string. -/
def address (d : Datagram) (offset : Nat) : Except Fault String :=
  if 0 ∈ (d.buf.drop offset).take sizeofIp then .ok (d.string offset)
  else .error (.address offset)

/-- `memcpy` of `header()->size` bytes from `payload()`. A negative size is a
huge one. -/
def readPayload (d : Datagram) : Except Fault (List UInt8) :=
  if d.header.size = 0 ∨
      (0 < d.header.size ∧ sizeofHeader + d.header.size ≤ d.size) then
    .ok d.packet.payload
  else .error (.payload d.header.size)

end Datagram

/-- `finger_table[index]`. -/
def fingerAccess (m : Nat) (index : Int) : Except Fault Unit :=
  if 0 ≤ index ∧ index < m then .ok () else .error (.finger index)

/-- What the two lookups read of the finger table: nothing for the node's own
id; otherwise the first finger, and then those the scan goes through, from
`m - 1` down to `0`. -/
def lookupAccess (n : DAENode) (destId : Nat) : Except Fault Unit :=
  if n.id = destId then .ok () else fingerAccess n.m 0

/-- `handle_external_messaging` with the payload of `d`: the lookup, and the
packet for the next hop. -/
def routePayload (n : DAENode) (x : DAENode.ExternalMsg) (d : Datagram) :
    Except Fault Effect := do
  lookupAccess n x.destId
  let bytes ← d.readPayload
  if sizeofHeader + x.size ≤ maxMtu then
    .ok (n.handleExternalMessaging { x with ctPackage := bytes })
  else .error (.packet x.size)

/-- A node, with the datagrams it has stored. -/
structure Receiver where
  node : DAENode
  recvListDeaddrop : Int × Int → Option Datagram
  recvListUser : List Datagram

namespace Receiver

/-- The node with the packets it takes them for. -/
def view (r : Receiver) : DAENode :=
  { r.node with
    recvListDeaddrop := fun msg => (r.recvListDeaddrop msg).map Datagram.packet
    recvListUser := r.recvListUser.map Datagram.packet }

/-- The `is_dest` half of the `external_deaddrop_messaging` case. -/
def dispatchDeaddrop (r : Receiver) (d : Datagram) :
    Except Fault (Receiver × List Effect) :=
  let msg := (d.header.sessionId, d.header.index)
  match r.recvListDeaddrop msg with
  | some pre => do
      let first ← routePayload r.node
        (DAENode.swapReply d.packet pre.packet d.header.relayReplyId) pre
      let second ← routePayload r.node
        (DAENode.swapReply d.packet d.packet pre.header.relayReplyId) d
      .ok ({ r with recvListDeaddrop := Function.update r.recvListDeaddrop msg none },
        [first, second])
  | none =>
      .ok ({ r with recvListDeaddrop :=
          Function.update r.recvListDeaddrop msg (some d) }, [])

/-- `DAE_process_internal_message`, as the receive loop calls it. -/
def dispatch (r : Receiver) (d : Datagram) :
    Except Fault (Receiver × List Effect) :=
  let n := r.node
  let h := d.header
  match h.msgType, h.id with
  | true, .internalJoinFindSuccessor => do
      let ip ← d.address relayReplyIpOffset
      lookupAccess n h.keyId
      .ok (r, [n.handleFindSuccessor ip h.relayReplyPort h.index h.keyId])
  | true, .internalReplyFindSuccessor => do
      fingerAccess n.m h.index
      let ip ← d.address keyIpOffset
      .ok ({ r with node := ((n.updatesuccessor h.index h.keyId).updatesuccessorIp
        h.index ip).updatesuccessorPort h.index h.keyPort }, [])
  | true, .internalFindPredecessor => do
      let ip ← d.address relayReplyIpOffset
      .ok (r, [n.handleGetPredecessor ip h.relayReplyPort])
  | true, .internalReplyGetPredecessor => do
      let ip ← d.address keyIpOffset
      .ok ({ r with node := n.setPredecessorOfSuccessor h.keyId ip h.keyPort }, [])
  | true, .internalNotifyPredecessorJoin =>
      if n.predecessor = noId ∨ n.isInRange n.predecessor n.id h.keyId then do
        let ip ← d.address relayIpOffset
        .ok ({ r with node := n.setpredecessor h.keyId ip h.keyPort }, [])
      else .ok (r, [])
  | true, .internalFetchSuccessorList => do
      fingerAccess n.m 0
      let ip ← d.address relayReplyIpOffset
      .ok (r, n.handleFetchSuccessorList h.index ip h.relayReplyPort)
  | true, .internalReplySuccessorList =>
      if h.keyId ≠ n.id then do
        let ip ← d.address keyIpOffset
        .ok ({ r with node :=
          n.handleReplySuccessorList h.keyId ip h.keyPort h.index }, [])
      else .ok (r, [])
  | true, .internalCheckPredecessorExistence => do
      let ip ← d.address relayReplyIpOffset
      .ok (r, [DAEService.replyPredecessorExistence n n.id ip h.relayReplyPort])
  | true, .internalReplyPredecessorExistence =>
      .ok (if h.keyId = n.predecessor then
        { r with node := { n with predecessorStatus := true } } else r, [])
  | true, .internalCheckSuccessorExistence => do
      let ip ← d.address relayReplyIpOffset
      .ok (r, [DAEService.replySuccessorExistence n n.id ip h.relayReplyPort])
  | true, .internalReplySuccessorExistence => do
      fingerAccess n.m 0
      .ok (if h.keyId = n.successor ∧ h.keyId ≠ n.id then
        { r with node := { n with successorStatus := true } } else r, [])
  | false, .externalPingpongService | false, .externalReplyPingpongService => do
      let e ← routePayload n (DAENode.passOn d.packet) d
      .ok (r, [e])
  | false, .externalDeaddropMessaging =>
      if h.isDest then r.dispatchDeaddrop d
      else do
        let e ← routePayload n (DAENode.passOn d.packet) d
        .ok (r, [e])
  | false, .externalReplyDeaddropMessaging =>
      if h.isDest then .ok ({ r with recvListUser := r.recvListUser ++ [d] }, [])
      else do
        let e ← routePayload n (DAENode.passOn d.packet) d
        .ok (r, [e])
  | _, _ => .ok (r, [])

end Receiver

end Daenet.Ref
