import Daenet.Spec.Ring

/-!
# The handlers, whole fingers at a time

The source writes a finger in three assignments and reads a packet field by
field. Here each handler is restated with a finger or a packet's key as one
triple: `stabilize` adopts or keeps, a turn of `fix_fingers` copies or asks,
and a received packet of each kind does one thing. What follows is proved
from these equations.
-/

namespace Daenet.Proofs

open Daenet.Ref Daenet.Spec

variable {n : DAENode} {p : AnonymousPacket}

/-- The first half of `stabilize`: the predecessor of the successor becomes the
successor when it lies between. -/
def adopt (n : DAENode) : DAENode :=
  if n.isInRange n.id n.successor n.predecessorOfSuccessor then
    n.setFinger 0 n.ofSuccessorPeer
  else n

/-- The question of `stabilize`, to the successor of before. -/
def askPredecessor (n : DAENode) : Effect :=
  DAEService.findPredecessor (n.fingerTable 0).ip (n.fingerTable 0).port n.id
    n.nodeIp n.port n.successor

/-- The notification of `stabilize`, to the successor of after. -/
def tellSuccessor (n : DAENode) : Effect :=
  DAEService.notifyPredecessorJoin n (n.fingerTable 0).ip n.successor
    (n.fingerTable 0).port n.id

theorem stabilize_eq (n : DAENode) :
    n.stabilize = (adopt n, askPredecessor n ::
      if (adopt n).successor ≠ (adopt n).id then [tellSuccessor (adopt n)]
      else []) := by
  unfold DAENode.stabilize adopt
  rw [DAENode.update_eq_setFinger]
  rfl

/-- The lookup a node makes for one of its own fingers. -/
def lookUp (n : DAENode) (t : Nat) : Effect :=
  n.handleFindSuccessor n.nodeIp n.port t (n.fingerTable t).start

theorem fixFinger_eq (n : DAENode) (es : List Effect) (t : Nat) :
    DAENode.fixFinger (n, es) t =
      if n.isInRange n.id (n.fingerTable t).successor
          (n.fingerTable (t + 1 : Nat)).start then
        (n.setFinger (t + 1 : Nat) (n.fingerTable t).peer, es)
      else (n, es ++ [lookUp n (t + 1)]) := by
  simp only [DAENode.fixFinger, DAENode.update_eq_setFinger]
  rfl

/-- The loop of `fix_fingers`, with what holds after so many turns. -/
theorem fixFingers_loop {P : Nat → DAENode → List Effect → Prop}
    (hfirst : P 0 n [lookUp n 0])
    (hcopy : ∀ n' es t, t + 1 < n.m → P t n' es →
      n'.isInRange n'.id (n'.fingerTable t).successor
        (n'.fingerTable (t + 1 : Nat)).start = true →
      P (t + 1) (n'.setFinger (t + 1 : Nat) (n'.fingerTable t).peer) es)
    (hask : ∀ n' es t, t + 1 < n.m → P t n' es →
      n'.isInRange n'.id (n'.fingerTable t).successor
        (n'.fingerTable (t + 1 : Nat)).start = false →
      P (t + 1) n' (es ++ [lookUp n' (t + 1)])) :
    P (n.m - 1) n.fixFingers.1 n.fixFingers.2 := by
  have hloop : ∀ k ≤ n.m - 1,
      P k ((List.range k).foldl DAENode.fixFinger (n, [lookUp n 0])).1
        ((List.range k).foldl DAENode.fixFinger (n, [lookUp n 0])).2 := by
    intro k
    induction k with
    | zero => exact fun _ => hfirst
    | succ k ih =>
        intro hk
        have hP := ih (by omega)
        rw [List.range_succ, List.foldl_append, List.foldl_cons, List.foldl_nil,
          fixFinger_eq]
        split
        · next hin => exact hcopy _ _ k (by omega) hP hin
        · next hin => exact hask _ _ k (by omega) hP (by simpa using hin)
  exact hloop (n.m - 1) (Nat.le_refl _)

/-- It keeps what one of its turns keeps. -/
theorem fixFingers_induct {P : DAENode → List Effect → Prop}
    (hfirst : P n [lookUp n 0])
    (hcopy : ∀ n' es t, t + 1 < n.m → P n' es →
      n'.isInRange n'.id (n'.fingerTable t).successor
        (n'.fingerTable (t + 1 : Nat)).start = true →
      P (n'.setFinger (t + 1 : Nat) (n'.fingerTable t).peer) es)
    (hask : ∀ n' es t, t + 1 < n.m → P n' es →
      n'.isInRange n'.id (n'.fingerTable t).successor
        (n'.fingerTable (t + 1 : Nat)).start = false →
      P n' (es ++ [lookUp n' (t + 1)])) :
    P n.fixFingers.1 n.fixFingers.2 :=
  fixFingers_loop (P := fun _ => P) hfirst hcopy hask

/-- All that `handle_fetch_successor_list` does is send: a reply, and perhaps the
question. -/
theorem handleFetchSuccessorList_sends {counter : Int} {ip : String} {port : Int}
    {e : Effect} (he : e ∈ n.handleFetchSuccessorList counter ip port) :
    ∃ q, e = .directSend q ∧ (q.header.id = .internalReplySuccessorList ∨
      q.header.id = .internalFetchSuccessorList) := by
  rcases List.mem_cons.mp he with rfl | he
  · exact ⟨_, rfl, .inl rfl⟩
  · split at he
    · rw [List.mem_singleton.mp he]
      exact ⟨_, rfl, .inr rfl⟩
    · cases he

/-- What the receive loop does with an upkeep packet, one case per service. -/
inductive Receives (n : DAENode) (p : AnonymousPacket) :
    DAENode × List Effect → Prop where
  | lookup (h : p.header.id = .internalJoinFindSuccessor) :
      Receives n p (n, [n.handleFindSuccessor p.replyTo.1 p.replyTo.2
        p.header.index p.header.keyId])
  | found (h : p.header.id = .internalReplyFindSuccessor) :
      Receives n p (n.setFinger p.header.index p.keyPeer, [])
  | asked (h : p.header.id = .internalFindPredecessor) :
      Receives n p (n, [n.handleGetPredecessor p.replyTo.1 p.replyTo.2])
  | told (h : p.header.id = .internalReplyGetPredecessor) :
      Receives n p (n.setPredecessorOfSuccessor p.header.keyId p.header.keyIp
        p.header.keyPort, [])
  | notified (h : p.header.id = .internalNotifyPredecessorJoin) :
      Receives n p (n.notify p.header.keyId p.header.relayIp p.header.keyPort, [])
  | fetch (h : p.header.id = .internalFetchSuccessorList) :
      Receives n p (n, n.handleFetchSuccessorList p.header.index p.replyTo.1
        p.replyTo.2)
  | backup (h : p.header.id = .internalReplySuccessorList) :
      Receives n p (n.handleReplySuccessorList p.header.keyId p.header.keyIp
        p.header.keyPort p.header.index, [])
  | checked (id : Message) (h : id = .internalReplyPredecessorExistence ∨
        id = .internalReplySuccessorExistence) :
      Receives n p (n, [DAEService.existence n id p.replyTo.1 p.replyTo.2
        p.replyTo.1 p.replyTo.2 n.id])
  | alive (predecessorStatus successorStatus : Bool) :
      Receives n p ({ n with predecessorStatus := predecessorStatus
                             successorStatus := successorStatus }, [])

theorem receives (hint : p.header.msgType = true) : Receives n p (n.receive p) := by
  have hidle : Receives n p (n, []) := .alive n.predecessorStatus n.successorStatus
  cases hid : p.header.id <;>
    simp only [DAENode.receive, AnonymousPacket.isInternalMsg, hint, hid,
      DAENode.processMessage, DAENode.update_eq_setFinger]
  case internalJoinFindSuccessor => exact .lookup hid
  case internalReplyFindSuccessor => exact .found hid
  case internalFindPredecessor => exact .asked hid
  case internalReplyGetPredecessor => exact .told hid
  case internalNotifyPredecessorJoin => exact .notified hid
  case internalFetchSuccessorList => exact .fetch hid
  case internalReplySuccessorList => exact .backup hid
  case internalCheckPredecessorExistence => exact .checked _ (Or.inl rfl)
  case internalCheckSuccessorExistence => exact .checked _ (Or.inr rfl)
  case internalReplyPredecessorExistence =>
    split
    · exact .alive true n.successorStatus
    · exact hidle
  case internalReplySuccessorExistence =>
    split
    · exact .alive n.predecessorStatus true
    · exact hidle
  all_goals exact hidle

/-! ## Packets that write no finger -/

/-- A packet that writes no finger: an application's, or a dummy. -/
def Harmless (p : AnonymousPacket) : Prop :=
  p.header.msgType = false ∨ p.header.id = .dummyMessage

/-- What a node does with a harmless packet: the node after, and the messages
it routes from there. -/
inductive Receipt (n : DAENode) (p : AnonymousPacket) :
    DAENode × List DAENode.ExternalMsg → Prop where
  | ignored (hdrop : p.header.id ≠ .externalDeaddropMessaging)
      (hrep : p.header.id ≠ .externalReplyDeaddropMessaging) : Receipt n p (n, [])
  | passed (h : (p.header.id ≠ .externalDeaddropMessaging ∧
        p.header.id ≠ .externalReplyDeaddropMessaging) ∨ p.header.isDest = false) :
      Receipt n p (n, [DAENode.passOn p])
  | dropped (hid : p.header.id = .externalDeaddropMessaging)
      (hd : p.header.isDest = true) : Receipt n p (n.handleDeaddrop p)
  | taken (hid : p.header.id = .externalReplyDeaddropMessaging)
      (hd : p.header.isDest = true) :
      Receipt n p ({ n with recvListUser := n.recvListUser ++ [p] }, [])

theorem receipt (h : Harmless p) :
    ∃ r, Receipt n p r ∧
      n.receive p = (r.1, r.2.map r.1.handleExternalMessaging) := by
  rcases h with hext | hdummy
  · have hidle (hdrop : p.header.id ≠ .externalDeaddropMessaging)
        (hrep : p.header.id ≠ .externalReplyDeaddropMessaging) :
        ∃ r, Receipt n p r ∧
          (n, []) = (r.1, r.2.map r.1.handleExternalMessaging) :=
      ⟨(n, []), .ignored hdrop hrep, rfl⟩
    cases hid : p.header.id <;>
      simp only [DAENode.receive, AnonymousPacket.isInternalMsg, hext, hid,
        DAENode.processMessage]
    case externalPingpongService =>
      exact ⟨_, .passed (Or.inl (by simp [hid])), rfl⟩
    case externalReplyPingpongService =>
      exact ⟨_, .passed (Or.inl (by simp [hid])), rfl⟩
    case externalDeaddropMessaging =>
      split
      · next hd => exact ⟨_, .dropped hid hd, rfl⟩
      · next hd => exact ⟨_, .passed (Or.inr (by simpa using hd)), rfl⟩
    case externalReplyDeaddropMessaging =>
      split
      · next hd => exact ⟨_, .taken hid hd, rfl⟩
      · next hd => exact ⟨_, .passed (Or.inr (by simpa using hd)), rfl⟩
    all_goals exact hidle (by simp [hid]) (by simp [hid])
  · refine ⟨(n, []), .ignored (by simp [hdummy]) (by simp [hdummy]), ?_⟩
    cases hint : p.header.msgType <;>
      simp only [DAENode.receive, AnonymousPacket.isInternalMsg, hint, hdummy,
        DAENode.processMessage, List.map_nil]

/-! ## The receive lists -/

/-- Nothing of the node has changed but what it has for its applications. -/
def SameTables (n n' : DAENode) : Prop :=
  ∃ drops user, n' = { n with recvListDeaddrop := drops, recvListUser := user }

theorem sameTables_refl (n : DAENode) : SameTables n n := ⟨_, _, rfl⟩

variable {n' : DAENode}

theorem SameTables.closestFinger (h : SameTables n n') (destId i : Nat) :
    n'.closestFinger destId i = n.closestFinger destId i := by
  obtain ⟨drops, user, rfl⟩ := h
  induction i with
  | zero => rfl
  | succ i ih =>
      rw [DAENode.closestFinger, DAENode.closestFinger, ih]
      rfl

/-- The lookups do not look at them. -/
theorem SameTables.handleFindSuccessor (h : SameTables n n') (ip : String)
    (port index : Int) (destId : Nat) :
    n'.handleFindSuccessor ip port index destId =
      n.handleFindSuccessor ip port index destId := by
  have hscan := h.closestFinger destId
  obtain ⟨drops, user, rfl⟩ := h
  simp only [DAENode.handleFindSuccessor, DAENode.findClosestPrecedingNode,
    DAENode.findClosestPrecedingNodeIp, DAENode.findClosestPrecedingNodePort, hscan]
  rfl

theorem SameTables.handleExternalMessaging (h : SameTables n n')
    (x : DAENode.ExternalMsg) :
    n'.handleExternalMessaging x = n.handleExternalMessaging x := by
  have hscan := h.closestFinger x.destId
  obtain ⟨drops, user, rfl⟩ := h
  simp only [DAENode.handleExternalMessaging, DAENode.findClosestPrecedingNode,
    DAENode.findClosestPrecedingNodeIp, DAENode.findClosestPrecedingNodePort, hscan]
  rfl

end Daenet.Proofs
