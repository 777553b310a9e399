import Daenet.Ref.Node

/-!
# The handlers

What a node does when a timer fires or a datagram arrives: `DAENode.cpp` and
the dispatch of `RandomSocket.cpp`. Each function answers the node it leaves
behind and the effects it asked for, in call order. The functions that do not
touch the node answer their effects only.

The two lookups, `handle_find_successor` and `handle_external_messaging`, are
written out separately, as they are in the source. So is the order inside
`stabilize`: the question goes to the successor of before, the comparison uses
the answer of an earlier round, and the notification goes to the successor of
after.
-/

namespace Daenet.Ref

namespace DAENode

/-- `handle_find_successor`, which is also the body of `find_successor`. -/
def handleFindSuccessor (n : DAENode) (srcIp : String) (srcPort : Int)
    (index : Int) (destId : Nat) : Effect :=
  if n.id = destId then
    DAEService.replyFindSuccessor n srcIp srcPort destId index n.id n.nodeIp
      n.port
  else if n.isRightTightInRange n.id destId n.successor then
    DAEService.replyFindSuccessor n srcIp srcPort destId index n.successor
      (n.fingerTable 0).ip (n.fingerTable 0).port
  else if n.findClosestPrecedingNode destId = n.id then
    DAEService.replyFindSuccessor n srcIp srcPort destId index
      (n.fingerTable 0).successor (n.fingerTable 0).ip (n.fingerTable 0).port
  else
    DAEService.joinFindSuccessor (n.findClosestPrecedingNodeIp destId)
      (n.findClosestPrecedingNode destId)
      (n.findClosestPrecedingNodePort destId) srcIp noId srcPort index destId

/-- The arguments of a `handle_external_messaging` call. -/
structure ExternalMsg where
  isDeaddrop : Bool
  session : Int
  seq : Int
  msgType : Message
  destId : Nat
  clientKey : Nat
  ctPackage : List UInt8
  size : Int
  deriving DecidableEq, Repr

/-- `handle_external_messaging`. -/
def handleExternalMessaging (n : DAENode) (x : ExternalMsg) : Effect :=
  if n.id = x.destId then
    DAEService.externalMessaging n true x.session x.seq n.id n.nodeIp n.port
      x.msgType x.destId x.clientKey x.ctPackage x.size
  else if n.isRightTightInRange n.id x.destId n.successor then
    DAEService.externalMessaging n true x.session x.seq n.successor
      (n.fingerTable 0).ip (n.fingerTable 0).port
      x.msgType x.destId x.clientKey x.ctPackage x.size
  else if n.findClosestPrecedingNode x.destId = n.id then
    DAEService.externalMessaging n true x.session x.seq n.successor
      (n.fingerTable 0).ip (n.fingerTable 0).port
      x.msgType x.destId x.clientKey x.ctPackage x.size
  else
    DAEService.externalMessaging n false x.session x.seq
      (n.findClosestPrecedingNode x.destId)
      (n.findClosestPrecedingNodeIp x.destId)
      (n.findClosestPrecedingNodePort x.destId)
      x.msgType x.destId x.clientKey x.ctPackage x.size

/-- `handle_get_predecessor`. -/
def handleGetPredecessor (n : DAENode) (srcIp : String) (srcPort : Int) :
    Effect :=
  DAEService.replyGetPredecessor n srcIp srcPort n.predecessor n.predecessorIp
    n.predecessorPort

/-- `stabilize`. -/
def stabilize (n : DAENode) : DAENode × List Effect :=
  let ask := DAEService.findPredecessor (n.fingerTable 0).ip
    (n.fingerTable 0).port n.id n.nodeIp n.port n.successor
  let n' :=
    if n.isInRange n.id n.successor n.predecessorOfSuccessor then
      ((n.updatesuccessor 0 n.predecessorOfSuccessor).updatesuccessorIp 0
        n.predecessorOfSuccessorIp).updatesuccessorPort 0
        n.predecessorOfSuccessorPort
    else n
  let tell :=
    if n'.successor ≠ n'.id then
      [DAEService.notifyPredecessorJoin n' (n'.fingerTable 0).ip n'.successor
        (n'.fingerTable 0).port n'.id]
    else []
  (n', ask :: tell)

/-- `notify`. -/
def notify (n : DAENode) (possiblePredecessor : Nat)
    (possiblePredecessorIp : String) (possiblePredecessorPort : Int) :
    DAENode :=
  if n.predecessor = noId ∨
      n.isInRange n.predecessor n.id possiblePredecessor then
    n.setpredecessor possiblePredecessor possiblePredecessorIp
      possiblePredecessorPort
  else n

/-- One turn of the loop of `fix_fingers`: copy finger `i` to finger `i + 1`
when it already covers that start, look the start up otherwise. -/
def fixFinger (acc : DAENode × List Effect) (i : Nat) :
    DAENode × List Effect :=
  let n := acc.1
  if n.isInRange n.id (n.fingerTable i).successor
      (n.fingerTable (i + 1)).start then
    (((n.updatesuccessor (i + 1) (n.fingerTable i).successor).updatesuccessorIp
        (i + 1) (n.fingerTable i).ip).updatesuccessorPort (i + 1)
        (n.fingerTable i).port, acc.2)
  else
    (n, acc.2 ++ [n.handleFindSuccessor n.nodeIp n.port (i + 1)
      (n.fingerTable (i + 1)).start])

/-- `fix_fingers`. -/
def fixFingers (n : DAENode) : DAENode × List Effect :=
  (List.range (n.m - 1)).foldl fixFinger
    (n, [n.handleFindSuccessor n.nodeIp n.port 0 (n.fingerTable 0).start])

/-- `fetch_successor_list`, which asks for `backup_num = 6` of them. -/
def fetchSuccessorList (n : DAENode) : List Effect :=
  [DAEService.fetchBackupSuccessor n (6 - 1) (n.fingerTable 0).ip
    (n.fingerTable 0).port n.id n.nodeIp n.port]

/-- `handle_fetch_successor_list`. -/
def handleFetchSuccessorList (n : DAENode) (counter : Int) (srcIp : String)
    (srcPort : Int) : List Effect :=
  DAEService.replyBackupSuccessor n counter srcIp srcPort
      (n.fingerTable 0).successor (n.fingerTable 0).ip (n.fingerTable 0).port ::
    if counter > 0 then
      [DAEService.fetchBackupSuccessor n (counter - 1) (n.fingerTable 0).ip
        (n.fingerTable 0).port noId srcIp srcPort]
    else []

/-- `join_with_help`: the request, and a timer that asks again while the node
is still its own successor. -/
def joinWithHelp (n : DAENode) (joinerNode : PeerPair) : List Effect :=
  [DAEService.joinFindSuccessor joinerNode.ip joinerNode.relayId
      joinerNode.port n.nodeIp n.id n.port 0 n.id,
    .schedule .joinRetry]

/-- `join`. The periodic tasks it leaves behind — `stabilize`, `fix_fingers`,
the failure checks, `fetch_successor_list` — are steps of the system, taken
at any time. -/
def join (n : DAENode) (joinerNode : PeerPair) : DAENode × List Effect :=
  let help :=
    if n.nodeIp ≠ joinerNode.ip ∨ n.port ≠ joinerNode.port then
      n.joinWithHelp joinerNode
    else []
  let s := n.stabilize
  let f := s.1.fixFingers
  (f.1, help ++ s.2 ++ f.2 ++ f.1.fetchSuccessorList)

/-- `check_predecessor_failure`: `recheck` questions and one verdict, all
later. -/
def checkPredecessorFailure (n : DAENode) : DAENode × List Effect :=
  if n.predecessorOnchecking = false ∧ n.predecessor ≠ noId then
    ({ n with predecessorOnchecking := true, predecessorStatus := false },
      List.replicate n.recheck (.schedule .checkPredecessorExistence) ++
        [.schedule .predecessorTimeout])
  else (n, [])

/-- `check_successor_failure`. -/
def checkSuccessorFailure (n : DAENode) : DAENode × List Effect :=
  if n.successorOnchecking = false ∧ (n.fingerTable 0).successor ≠ n.id then
    ({ n with successorOnchecking := true, successorStatus := false },
      List.replicate n.recheck (.schedule .checkSuccessorExistence) ++
        [.schedule .successorTimeout])
  else (n, [])

/-- The verdict of `check_predecessor_failure`. -/
def predecessorTimeout (n : DAENode) : DAENode :=
  if n.predecessorStatus = false then
    { n with predecessor := noId, predecessorOnchecking := false }
  else { n with predecessorOnchecking := false }

/-- The verdict of `check_successor_failure`: the head of the backup list
replaces the successor, after a head equal to it has been dropped. -/
def successorTimeout (n : DAENode) : DAENode :=
  if n.successorStatus = false then
    let rest :=
      match n.successorList with
      | [] => []
      | head :: tail =>
          if head.relayId = (n.fingerTable 0).successor then tail
          else head :: tail
    match rest with
    | [] => { n with successorList := rest, successorOnchecking := false }
    | su :: _ =>
        { ((n.updatesuccessor 0 su.relayId).updatesuccessorIp 0
            su.ip).updatesuccessorPort 0 su.port with
          successorList := rest, successorOnchecking := false }
  else { n with successorOnchecking := false }

/-- A task that `EventTask` runs. -/
def runTask (n : DAENode) (joiner : PeerPair) : Task → DAENode × List Effect
  | .joinRetry =>
      (n, if (n.fingerTable 0).successor = n.id then n.joinWithHelp joiner
        else [])
  | .checkPredecessorExistence =>
      (n, [DAEService.checkPredecessorExistence n n.predecessorIp
        n.predecessorPort n.nodeIp n.port])
  | .predecessorTimeout => (n.predecessorTimeout, [])
  | .checkSuccessorExistence =>
      (n, [DAEService.checkSuccessorExistence n (n.fingerTable 0).ip
        (n.fingerTable 0).port n.nodeIp n.port])
  | .successorTimeout => (n.successorTimeout, [])

/-! ## `RandomSocket::DAE_process_internal_message` -/

/-- The message a relay passes on as it is: the forwarding call of the four
application cases. -/
def passOn (packet : AnonymousPacket) : ExternalMsg where
  isDeaddrop := false
  session := packet.header.sessionId
  seq := packet.header.index
  msgType := packet.header.id
  destId := packet.header.keyId
  clientKey := packet.header.relayReplyId
  ctPackage := packet.payload
  size := packet.payloadSize

/-- The reply to `receiver` that carries the payload of `carried`, made while
`packet` is being processed. -/
def swapReply (packet carried : AnonymousPacket) (receiver : Nat) :
    ExternalMsg where
  isDeaddrop := false
  session := packet.header.sessionId
  seq := packet.header.index
  msgType := .externalReplyDeaddropMessaging
  destId := receiver
  clientKey := packet.header.keyId
  ctPackage := carried.payload
  size := carried.payloadSize

/-- The `is_dest` half of the `external_deaddrop_messaging` case: the second
packet of a `(session, seq)` takes the first one out of the table and is
swapped with it, a first one waits. `check_existence` and the look-up after it
are one match. The calls are those made to `handle_external_messaging`, in
order. -/
def handleDeaddrop (n : DAENode) (packet : AnonymousPacket) :
    DAENode × List ExternalMsg :=
  let msg := (packet.header.sessionId, packet.header.index)
  match n.recvListDeaddrop msg with
  | some prePacket =>
      ({ n with recvListDeaddrop := Function.update n.recvListDeaddrop msg none },
        [swapReply packet prePacket packet.header.relayReplyId,
          swapReply packet packet prePacket.header.relayReplyId])
  | none =>
      ({ n with recvListDeaddrop :=
          Function.update n.recvListDeaddrop msg (some packet) }, [])

/-- The `internal_reply_successor_list` case. The bound `6 - counter` is
compared as a `size_t`. -/
def handleReplySuccessorList (n : DAENode) (suId : Nat) (suIp : String)
    (suPort : Int) (counter : Int) : DAENode :=
  if suId ≠ n.id then
    let n' := n.addToSuccessorList ⟨suIp, suPort, suId⟩
    let bound := ((6 - counter) % 2 ^ 64).toNat
    { n' with successorList :=
        n'.successorList.drop (n'.successorList.length - bound) }
  else n

/-- `DAE_process_internal_message`. -/
def processMessage (n : DAENode) (packet : AnonymousPacket) :
    DAENode × List Effect :=
  let h := packet.header
  match h.id with
  | .internalJoinFindSuccessor =>
      (n, [n.handleFindSuccessor h.relayReplyIp h.relayReplyPort h.index
        h.keyId])
  | .internalReplyFindSuccessor =>
      (((n.updatesuccessor h.index h.keyId).updatesuccessorIp h.index
        h.keyIp).updatesuccessorPort h.index h.keyPort, [])
  | .internalFindPredecessor =>
      (n, [n.handleGetPredecessor h.relayReplyIp h.relayReplyPort])
  | .internalReplyGetPredecessor =>
      (n.setPredecessorOfSuccessor h.keyId h.keyIp h.keyPort, [])
  | .internalNotifyPredecessorJoin =>
      (n.notify h.keyId h.relayIp h.keyPort, [])
  | .internalFetchSuccessorList =>
      (n, n.handleFetchSuccessorList h.index h.relayReplyIp h.relayReplyPort)
  | .internalReplySuccessorList =>
      (n.handleReplySuccessorList h.keyId h.keyIp h.keyPort h.index, [])
  | .internalCheckPredecessorExistence =>
      (n, [DAEService.replyPredecessorExistence n n.id h.relayReplyIp
        h.relayReplyPort])
  | .internalReplyPredecessorExistence =>
      (if h.keyId = n.predecessor then { n with predecessorStatus := true }
        else n, [])
  | .internalCheckSuccessorExistence =>
      (n, [DAEService.replySuccessorExistence n n.id h.relayReplyIp
        h.relayReplyPort])
  | .internalReplySuccessorExistence =>
      (if h.keyId = n.successor ∧ h.keyId ≠ n.id then
        { n with successorStatus := true } else n, [])
  | .externalPingpongService | .externalReplyPingpongService =>
      (n, [n.handleExternalMessaging (passOn packet)])
  | .externalDeaddropMessaging =>
      if h.isDest then
        let d := n.handleDeaddrop packet
        (d.1, d.2.map d.1.handleExternalMessaging)
      else (n, [n.handleExternalMessaging (passOn packet)])
  | .externalReplyDeaddropMessaging =>
      if h.isDest then ({ n with recvListUser := n.recvListUser ++ [packet] }, [])
      else (n, [n.handleExternalMessaging (passOn packet)])
  | .dummyMessage | .other _ => (n, [])

/-- The switch of the receive loop: a service id is processed only under the
message type it belongs to, anything else is logged and dropped. -/
def receive (n : DAENode) (packet : AnonymousPacket) : DAENode × List Effect :=
  match packet.isInternalMsg, packet.header.id with
  | true, .externalPingpongService | true, .externalReplyPingpongService
  | true, .externalDeaddropMessaging | true, .externalReplyDeaddropMessaging
  | true, .other _ => (n, [])
  | true, _ => n.processMessage packet
  | false, .externalPingpongService | false, .externalReplyPingpongService
  | false, .externalDeaddropMessaging | false, .externalReplyDeaddropMessaging =>
      n.processMessage packet
  | false, _ => (n, [])

end DAENode

end Daenet.Ref
