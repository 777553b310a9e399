import Daenet.Lib.Bytes
import Daenet.Ref.Handler

/-!
# The application socket

`DAESocket`: every message goes to a dead drop drawn from a generator that the
two ends of a session seed alike, under a sequence number both count from
zero. What comes back is copied into a buffer of the caller's, and it is in
that buffer that `recv` looks for the end of the session.
-/

namespace Daenet.Ref

open Daenet.Lib

/-- `RandomGenerator`, its `unsigned long` state. -/
structure RandomGenerator where
  seed : Nat
  deriving DecidableEq, Repr

/-- `RandomGenerator::rand`. -/
def RandomGenerator.rand (g : RandomGenerator) : Nat × RandomGenerator :=
  let seed := (g.seed * 214013 + 2531011) % 2 ^ 64
  ((seed >>> 16) &&& 0x7fffffff, ⟨seed⟩)

/-- `DAESocket`, the fields `send` uses. -/
structure DAESocket where
  random : RandomGenerator
  serviceType : Message
  myKey : Nat
  maxId : Nat
  sessionId : Int
  seq : Int
  deriving DecidableEq, Repr

namespace DAESocket

/-- The constructor, as `connect` and `accept` call it: the service is the dead
drop, the key is the id of the node. The seed, an `int64_t`, becomes the
generator's `unsigned long`. -/
def new (n : DAENode) (session seed : Int) : DAESocket where
  random := ⟨(seed % 2 ^ 64).toNat⟩
  serviceType := .externalDeaddropMessaging
  myKey := n.id
  maxId := intShl n.m
  sessionId := session
  seq := 0

/-- `send`: the call that reaches `handle_external_messaging` through
`MsgDescriptor` and `send_content_package`, and the socket after it. -/
def send (s : DAESocket) (buf : List UInt8) : DAESocket × DAENode.ExternalMsg :=
  let draw := s.random.rand
  ({ s with random := draw.2, seq := s.seq + 1 },
    { isDeaddrop := false
      session := s.sessionId
      seq := s.seq
      msgType := s.serviceType
      destId := draw.1 % s.maxId
      clientKey := s.myKey
      ctPackage := buf
      size := buf.length })

/-- `strncmp(a, b, n) == 0`; `none` is a read past the end of either. -/
def strncmp : Nat → List UInt8 → List UInt8 → Option Bool
  | 0, _, _ => some true
  | n + 1, a :: as, b :: bs =>
      if a ≠ b then some false
      else if a = 0 then some true
      else strncmp n as bs
  | _ + 1, _, _ => none

/-- The literal `"fin"`, with its terminator. -/
def fin : List UInt8 := [102, 105, 110, 0]

/-- What a call of `recv` comes to: it waits for a packet, it leaves one of the
buffers, or it returns. -/
inductive RecvOutcome where
  | blocked
  | fault
  | returned (value : Int) (node : DAENode) (buf : List UInt8)

/-- `recv(buf, size)`, on a socket that `close` has set inactive or not. The
`memcpy` takes as many bytes as the header says, and `size` is not read. -/
def recv (isActive : Bool) (n : DAENode) (buf : List UInt8) : RecvOutcome :=
  match n.recvListUser with
  | [] => .blocked
  | packet :: rest =>
      let n' := { n with recvListUser := rest }
      let size := (packet.header.size % 2 ^ 64).toNat
      match (slice packet.payload 0 size).bind (blit buf 0) with
      | none => .fault
      | some buf' =>
          if isActive = false then .returned (-1) n' buf'
          else
            match strncmp 3 fin buf' with
            | none => .fault
            | some true => .returned 8888 n' buf'
            | some false => .returned packet.header.size n' buf'

end DAESocket

end Daenet.Ref
