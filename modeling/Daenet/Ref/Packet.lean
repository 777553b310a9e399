import Mathlib.Algebra.Group.Nat.Defs

/-!
# Packets

The wire format: `message.hpp`'s service ids, `anonymous_header_t`, and the
two constructors of `AnonymousPacket` the node uses, one for the maintenance
messages of the ring and one for application messages with a payload.

The constructors take a dozen positional arguments each — sender, receiver,
who should reply, the key — and the receivers read back different subsets of
the fields they fill. They are kept positional here, in the source's order,
because the argument order is part of what is being verified.

C's `int` is `Int`, `uint64_t` and with it `ring_id_t` is `Nat`, and the
`char[20]` address fields, always copied with
`strncpy(dst, src, strlen(src) + 1)`, are strings.
-/

namespace Daenet.Ref

/-- `-1` stored in a `ring_id_t`: no node. -/
def noId : Nat := 2 ^ 64 - 1

/-- `MAX_MTU`. -/
def maxMtu : Nat := 1024

/-- `sizeof(anonymous_header_t)`: 156 bytes of fields and alignment gaps,
rounded up to the eight-byte alignment of its `uint64_t`s. -/
def sizeofHeader : Nat := 160

/-- The service ids of `message.hpp`; `other` is any value the enumeration
does not name, which the receive loop logs and drops. -/
inductive Message where
  | dummyMessage
  | internalJoinFindSuccessor
  | internalReplyFindSuccessor
  | internalFindPredecessor
  | internalReplyGetPredecessor
  | internalNotifyPredecessorJoin
  | internalFetchSuccessorList
  | internalReplySuccessorList
  | internalCheckPredecessorExistence
  | internalReplyPredecessorExistence
  | internalCheckSuccessorExistence
  | internalReplySuccessorExistence
  | externalPingpongService
  | externalReplyPingpongService
  | externalDeaddropMessaging
  | externalReplyDeaddropMessaging
  | other (code : Nat)
  deriving DecidableEq, Repr

/-- `anonymous_header_t`. -/
structure AnonymousHeader where
  id : Message
  size : Int
  relayId : Nat
  relayIp : String
  relayDestId : Nat
  relayDestIp : String
  relayDestPort : Int
  relayReplyId : Nat
  relayReplyIp : String
  relayReplyPort : Int
  keyId : Nat
  keyIp : String
  keyPort : Int
  index : Int
  msgType : Bool
  isDest : Bool
  sessionId : Int
  deriving DecidableEq, Repr

/-- `AnonymousPacket`: the header and the payload bytes behind it. -/
structure AnonymousPacket where
  header : AnonymousHeader
  payload : List UInt8
  deriving DecidableEq, Repr

namespace AnonymousPacket

/-- The constructor of the maintenance messages. It leaves `is_dest` and
`session_id` uninitialised; no handler of a maintenance message reads them. -/
def internal (id : Message) (sIp : String) (sId : Nat)
    (rIp : String) (rId : Nat) (rPort : Int)
    (replyIp : String) (replyId : Nat) (replyPort : Int)
    (kIp : String) (kId : Nat) (kPort : Int)
    (index : Int) (isInternalMsg : Bool) : AnonymousPacket where
  header :=
    { id := id
      relayId := sId
      relayIp := sIp
      relayDestId := rId
      relayDestIp := rIp
      relayDestPort := rPort
      relayReplyId := replyId
      relayReplyIp := replyIp
      relayReplyPort := replyPort
      keyId := kId
      keyIp := kIp
      keyPort := kPort
      index := index
      size := 0
      msgType := isInternalMsg
      isDest := false
      sessionId := 0 }
  payload := []

/-- The constructor of the application messages; `memcpy` takes the first
`size` bytes of the package. -/
def external (id : Message) (sIp : String) (sId : Nat)
    (rIp : String) (rId : Nat) (rPort : Int)
    (replyIp : String) (replyId : Nat) (replyPort : Int)
    (kIp : String) (kId : Nat) (kPort : Int)
    (index : Int) (isInternalMsg : Bool)
    (package : List UInt8) (size : Int)
    (isDest : Bool) (session : Int) : AnonymousPacket where
  header :=
    { id := id
      relayId := sId
      relayIp := sIp
      relayDestId := rId
      relayDestIp := rIp
      relayDestPort := rPort
      relayReplyId := replyId
      relayReplyIp := replyIp
      relayReplyPort := replyPort
      keyId := kId
      keyIp := kIp
      keyPort := kPort
      index := index
      size := size
      msgType := isInternalMsg
      isDest := isDest
      sessionId := session }
  payload := package.take size.toNat

/-- `payload_size()`. -/
def payloadSize (p : AnonymousPacket) : Int := p.header.size

/-- `total_size()`. -/
def totalSize (p : AnonymousPacket) : Int := sizeofHeader + p.payloadSize

/-- `is_internal_msg()`. -/
def isInternalMsg (p : AnonymousPacket) : Bool := p.header.msgType

end AnonymousPacket

end Daenet.Ref
