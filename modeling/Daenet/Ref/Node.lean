import Daenet.Lib.Double
import Daenet.Ref.Packet
import Mathlib.Logic.Function.Basic
import Mathlib.Algebra.Group.Int.Defs

/-!
# The node: state, ring tests and outgoing messages

`DAENode` with the fields its handlers read and write, the interval tests and
the finger scan of `DAENode.hpp`, and the message constructors of
`DAEService.hpp`. `DAEService` builds its node with its own id, address and
port, so its `node_id`, `node_ip` and `node_port` are read off the node here.

A handler does not send: it answers a list of `Effect`s, in the order the
source makes the calls. Maintenance messages leave through `DAE_direct_send`,
application messages through `safe_send` and the pool behind it, and what
`EventTask` is asked to run later is scheduled. `is_find`, an out-parameter no
caller reads, is not modelled.
-/

namespace Daenet.Ref

open Daenet.Lib

/-- `PeerPair`; `check_usage` is only ever printed. -/
structure PeerPair where
  ip : String
  port : Int
  relayId : Nat
  deriving DecidableEq, Repr

/-- The part of `RelayConfig` the node and its socket read. -/
structure RelayConfig where
  relayIp : String
  relayPort : Int
  relayId : Nat
  ringBits : Nat
  initPeers : PeerPair
  recheck : Nat := 10
  shuffle : Bool := true
  sendDummy : Bool := false
  debugShuffle : Bool := false

/-- `1 << k` converted to `uint64_t`. The literal is an `int`, so the shift
happens in 32 bits — shift counts taken modulo 32, as the hardware does — and
the conversion extends the sign. -/
def intShl (k : Nat) : Nat := (Int.bmod (2 ^ (k % 32)) (2 ^ 32) % 2 ^ 64).toNat

/-- Up to 30 bits the shift is what it looks like. -/
theorem intShl_eq : ∀ k ≤ 30, intShl k = 2 ^ k := by decide

/-- `max_relay_id`, as both ways to read a configuration leave it: they make no test
of `ring_bits`. -/
def RelayConfig.maxRelayId (cfg : RelayConfig) : Nat := intShl cfg.ringBits

/-- `ChordFinger`; its `to` is never read. -/
structure ChordFinger where
  start : Nat
  successor : Nat
  ip : String
  port : Int
  deriving DecidableEq, Repr

/-- What the node leaves with `EventTask` to run later. -/
inductive Task where
  | joinRetry
  | checkPredecessorExistence
  | predecessorTimeout
  | checkSuccessorExistence
  | successorTimeout
  deriving DecidableEq, Repr

/-- What a handler asks of the world outside the node. -/
inductive Effect where
  | directSend (packet : AnonymousPacket)
  | safeSend (packet : AnonymousPacket)
  | schedule (task : Task)
  deriving DecidableEq, Repr

/-- `DAENode`. The finger table is the array `new ChordFinger[m]`, a cell for
every `int` index; the loops below stay inside `[0, m)`, and that the indices
taken from packets do is a theorem. The two `recv_list`s are the dead-drop
table keyed by `(session, seq)` and the queue of delivered packets. -/
structure DAENode where
  m : Nat
  id : Nat
  nodeIp : String
  port : Int
  successorStatus : Bool
  successorOnchecking : Bool
  predecessor : Nat
  predecessorIp : String
  predecessorPort : Int
  predecessorStatus : Bool
  predecessorOnchecking : Bool
  predecessorOfSuccessor : Nat
  predecessorOfSuccessorIp : String
  predecessorOfSuccessorPort : Int
  successorList : List PeerPair
  recheck : Nat
  fingerTable : Int → ChordFinger
  recvListDeaddrop : Int × Int → Option AnonymousPacket
  recvListUser : List AnonymousPacket

namespace DAENode

/-- The constructor. `predecessor_of_successor_ip` and `_port` start
uninitialised; they are not read while the id beside them is `-1`. -/
def new (cfg : RelayConfig) : DAENode where
  m := cfg.ringBits
  id := cfg.relayId
  nodeIp := cfg.relayIp
  port := cfg.relayPort
  successorStatus := false
  successorOnchecking := false
  predecessor := noId
  predecessorIp := cfg.relayIp
  predecessorPort := cfg.relayPort
  predecessorStatus := false
  predecessorOnchecking := false
  predecessorOfSuccessor := noId
  predecessorOfSuccessorIp := ""
  predecessorOfSuccessorPort := 0
  successorList := []
  recheck := cfg.recheck
  fingerTable := fun i =>
    { start := (cfg.relayId + intShl i.toNat) % 2 ^ 64 % intShl cfg.ringBits
      successor := cfg.relayId
      ip := cfg.relayIp
      port := cfg.relayPort }
  recvListDeaddrop := fun _ => none
  recvListUser := []

/-- `is_in_range`. The middle branch compares in doubles: `pow` returns one,
so both sides are converted first. -/
def isInRange (n : DAENode) (currentId destiId successorId : Nat) : Bool :=
  if currentId < destiId then
    currentId < successorId && successorId < destiId
  else if successorId > currentId then
    roundDouble successorId < addDouble (roundDouble destiId) (2 ^ n.m)
  else successorId < destiId

/-- `is_right_tight_in_range`. -/
def isRightTightInRange (n : DAENode) (left right val : Nat) : Bool :=
  if right = val then true else n.isInRange left val right

/-- `successor()`. -/
def successor (n : DAENode) : Nat := (n.fingerTable 0).successor

/-- The scan the three `find_closest_preceding_node*` share: fingers from the
highest index down, the first one strictly between this node and the key. -/
def closestFinger (n : DAENode) (destId : Nat) : Nat → Option ChordFinger
  | 0 => none
  | i + 1 =>
      if n.isInRange n.id destId (n.fingerTable i).successor then
        some (n.fingerTable i)
      else n.closestFinger destId i

/-- `find_closest_preceding_node`. -/
def findClosestPrecedingNode (n : DAENode) (destId : Nat) : Nat :=
  ((n.closestFinger destId n.m).map ChordFinger.successor).getD n.id

/-- `find_closest_preceding_node_ip`. -/
def findClosestPrecedingNodeIp (n : DAENode) (destId : Nat) : String :=
  ((n.closestFinger destId n.m).map ChordFinger.ip).getD n.nodeIp

/-- `find_closest_preceding_node_port`. -/
def findClosestPrecedingNodePort (n : DAENode) (destId : Nat) : Int :=
  ((n.closestFinger destId n.m).map ChordFinger.port).getD n.port

/-- A write to one cell of the finger table. -/
def modifyFinger (n : DAENode) (k : Int) (f : ChordFinger → ChordFinger) :
    DAENode :=
  { n with fingerTable := Function.update n.fingerTable k (f (n.fingerTable k)) }

/-- `updatesuccessor`. -/
def updatesuccessor (n : DAENode) (k : Int) (su : Nat) : DAENode :=
  n.modifyFinger k fun f => { f with successor := su }

/-- `updatesuccessor_ip`. -/
def updatesuccessorIp (n : DAENode) (k : Int) (ip : String) : DAENode :=
  n.modifyFinger k fun f => { f with ip := ip }

/-- `updatesuccessor_port`. -/
def updatesuccessorPort (n : DAENode) (k : Int) (port : Int) : DAENode :=
  n.modifyFinger k fun f => { f with port := port }

/-- The three writes every handler makes to a finger, as one. -/
def setFinger (n : DAENode) (k : Int) (p : PeerPair) : DAENode :=
  n.modifyFinger k fun f =>
    { f with successor := p.relayId, ip := p.ip, port := p.port }

theorem update_eq_setFinger (n : DAENode) (k : Int) (su : Nat) (ip : String)
    (port : Int) :
    ((n.updatesuccessor k su).updatesuccessorIp k ip).updatesuccessorPort k port
      = n.setFinger k ⟨ip, port, su⟩ := by
  simp only [updatesuccessor, updatesuccessorIp, updatesuccessorPort,
    modifyFinger, setFinger, Function.update_self, Function.update_idem]

/-- Writing what is already there. -/
theorem setFinger_self (n : DAENode) (k : Int) :
    n.setFinger k ⟨(n.fingerTable k).ip, (n.fingerTable k).port,
      (n.fingerTable k).successor⟩ = n := by
  simp [setFinger, modifyFinger]

theorem setFinger_of_ne (n : DAENode) {j k : Int} (p : PeerPair) (h : j ≠ k) :
    (n.setFinger k p).fingerTable j = n.fingerTable j :=
  Function.update_of_ne h ..

@[simp] theorem setFinger_start (n : DAENode) (j k : Int) (p : PeerPair) :
    ((n.setFinger k p).fingerTable j).start = (n.fingerTable j).start := by
  by_cases h : j = k
  · subst h
    simp [setFinger, modifyFinger]
  · rw [setFinger_of_ne n p h]

/-- `setpredecessor`, `setpredecessor_ip` and `setpredecessor_port`. -/
def setpredecessor (n : DAENode) (id : Nat) (ip : String) (port : Int) :
    DAENode :=
  { n with predecessor := id, predecessorIp := ip, predecessorPort := port }

/-- `set_predecessor_of_successor` and its `_ip` and `_port`. -/
def setPredecessorOfSuccessor (n : DAENode) (id : Nat) (ip : String)
    (port : Int) : DAENode :=
  { n with predecessorOfSuccessor := id
           predecessorOfSuccessorIp := ip
           predecessorOfSuccessorPort := port }

/-- `add_to_successor_list`. -/
def addToSuccessorList (n : DAENode) (peer : PeerPair) : DAENode :=
  { n with successorList := n.successorList ++ [peer] }

end DAENode

/-! ## The messages of `DAEService` -/

namespace DAEService

/-- `get_dae_node_id`, with what `randombytes_random` returns. The remainder, a
`uint64_t`, goes through an `int` on its way. -/
def getDaeNodeId (cfg : RelayConfig) (debug : Bool) (random : UInt32) : Nat :=
  if debug then cfg.relayId
  else
    let randomRelayId := Int.bmod (Int.ofNat (random.toNat % cfg.maxRelayId)) (2 ^ 32)
    (randomRelayId % 2 ^ 64).toNat

/-- `send`: the payload size is cleared, the packet leaves at once. -/
def send (pkg : AnonymousPacket) : Effect :=
  .directSend { pkg with header := { pkg.header with size := 0 } }

/-- `join_find_successor`. -/
def joinFindSuccessor (closestPrecedingNodeAddr : String) (finder : Nat)
    (finderPort : Int) (srcIp : String) (sourceId : Nat) (sourcePort : Int)
    (index : Int) (destId : Nat) : Effect :=
  send <| .internal .internalJoinFindSuccessor
    srcIp sourceId
    closestPrecedingNodeAddr finder finderPort
    srcIp sourceId sourcePort
    srcIp destId sourcePort
    index true

/-- `reply_find_successor`. -/
def replyFindSuccessor (n : DAENode) (addr : String) (srcPort : Int)
    (destId : Nat) (index : Int) (successor : Nat) (keyIp : String)
    (keyPort : Int) : Effect :=
  send <| .internal .internalReplyFindSuccessor
    n.nodeIp n.id
    addr destId srcPort
    addr noId keyPort
    keyIp successor keyPort
    index true

/-- `find_predecessor`. -/
def findPredecessor (addr : String) (suPort : Int) (source : Nat)
    (srcAddr : String) (srcPort : Int) (id : Nat) : Effect :=
  send <| .internal .internalFindPredecessor
    srcAddr source
    addr id suPort
    srcAddr source srcPort
    addr noId srcPort
    (-1) true

/-- `reply_get_predecessor`. -/
def replyGetPredecessor (n : DAENode) (srcAddr : String) (srcPort : Int)
    (predecessor : Nat) (predecessorIp : String) (predecessorPort : Int) :
    Effect :=
  send <| .internal .internalReplyGetPredecessor
    n.nodeIp n.id
    srcAddr noId srcPort
    srcAddr noId srcPort
    predecessorIp predecessor predecessorPort
    (-1) true

/-- `notify_predecessor_join`. -/
def notifyPredecessorJoin (n : DAENode) (addr : String) (successor : Nat)
    (successorPort : Int) (id : Nat) : Effect :=
  send <| .internal .internalNotifyPredecessorJoin
    n.nodeIp n.id
    addr successor successorPort
    addr noId successorPort
    addr id n.port
    (-1) true

/-- `fetch_backup_successor`. -/
def fetchBackupSuccessor (n : DAENode) (totalNum : Int) (suAddr : String)
    (suPort : Int) (srcId : Nat) (srcAddr : String) (srcPort : Int) :
    Effect :=
  send <| .internal .internalFetchSuccessorList
    n.nodeIp n.id
    suAddr noId suPort
    srcAddr srcId srcPort
    srcAddr srcId srcPort
    totalNum true

/-- `reply_backup_successor`. -/
def replyBackupSuccessor (n : DAENode) (counter : Int) (srcAddr : String)
    (srcPort : Int) (suId : Nat) (suIp : String) (suPort : Int) : Effect :=
  send <| .internal .internalReplySuccessorList
    n.nodeIp n.id
    srcAddr noId srcPort
    srcAddr noId srcPort
    suIp suId suPort
    counter true

/-- The four existence messages: a question to a neighbour, or the answer to
one, which differ in the service id and in the id they carry. -/
def existence (n : DAENode) (id : Message) (destAddr : String) (destPort : Int)
    (replyAddr : String) (replyPort : Int) (key : Nat) : Effect :=
  send <| .internal id
    n.nodeIp n.id
    destAddr noId destPort
    replyAddr noId replyPort
    replyAddr key replyPort
    (-1) true

/-- `check_predecessor_existence`. -/
def checkPredecessorExistence (n : DAENode) (preAddr : String) (prePort : Int)
    (srcAddr : String) (srcPort : Int) : Effect :=
  existence n .internalCheckPredecessorExistence preAddr prePort srcAddr
    srcPort noId

/-- `reply_predecessor_existence`. -/
def replyPredecessorExistence (n : DAENode) (myId : Nat) (srcAddr : String)
    (srcPort : Int) : Effect :=
  existence n .internalReplyPredecessorExistence srcAddr srcPort srcAddr
    srcPort myId

/-- `check_successor_existence`. -/
def checkSuccessorExistence (n : DAENode) (suAddr : String) (suPort : Int)
    (srcAddr : String) (srcPort : Int) : Effect :=
  existence n .internalCheckSuccessorExistence suAddr suPort srcAddr srcPort
    noId

/-- `reply_successor_existence`. -/
def replySuccessorExistence (n : DAENode) (myId : Nat) (srcAddr : String)
    (srcPort : Int) : Effect :=
  existence n .internalReplySuccessorExistence srcAddr srcPort srcAddr srcPort
    myId

/-- `external_messaging`. -/
def externalMessaging (n : DAENode) (isDest : Bool) (session seq : Int)
    (nextId : Nat) (nextIp : String) (nextPort : Int) (type : Message)
    (destId clientKey : Nat) (ctPackage : List UInt8) (size : Int) :
    Effect :=
  .safeSend <| .external type
    n.nodeIp n.id
    nextIp nextId nextPort
    nextIp clientKey nextPort
    nextIp destId nextPort
    seq false
    ctPackage size
    isDest session

end DAEService

end Daenet.Ref
