import Daenet.Proofs.Handlers
import Daenet.Proofs.InRange
import Daenet.Proofs.Maintenance

/-!
# Ids and addresses stay together

Ids, addresses and ports travel in separate fields and are copied by separate
setters. That they never come apart is an invariant of two halves: what a node
holds is the triple of some node, and what a packet carries in the fields its
receiver will read is one too. Which fields those are depends on the service —
a notification puts the sender's address where every other message puts the
key's — so `PacketOk` is a case per service.

Nothing here depends on the ring being in any order, on the keys that are
looked up or on who fails: the invariant survives the failure checks, losses
and duplicates.
-/

namespace Daenet.Proofs

open Daenet.Ref Daenet.Spec

variable {ι : Type} {R : Roster ι} {i : ι} {n : DAENode}

/-- What a node holds belongs together. The two predecessor fields start out as
`-1`, which is no node's id. -/
structure NodeOk (R : Roster ι) (i : ι) (n : DAENode) : Prop extends
    R.Owns i n where
  live : R.Live n
  backups : ∀ t ∈ n.successorList, R.Real t
  predecessor : n.predecessor ≠ noId → R.Real n.predecessorPeer
  ofSuccessor : n.predecessorOfSuccessor ≠ noId → R.Real n.ofSuccessorPeer

/-- What a packet carries belongs together, in the fields its receiver reads. -/
def PacketOk (R : Roster ι) (p : AnonymousPacket) : Prop :=
  p.header.msgType = true ∧
  match p.header.id with
  | .internalJoinFindSuccessor => 0 ≤ p.header.index ∧ p.header.index < R.m
  | .internalReplyFindSuccessor =>
      R.Real p.keyPeer ∧ 0 ≤ p.header.index ∧ p.header.index < R.m
  | .internalReplyGetPredecessor => p.header.keyId ≠ noId → R.Real p.keyPeer
  | .internalNotifyPredecessorJoin => R.Real p.notifier
  | .internalReplySuccessorList => R.Real p.keyPeer
  | _ => True

/-! ## Writes -/

theorem nodeOk_new (i : ι) : NodeOk R i (DAENode.new (R.cfg i)) where
  toOwns := R.owns_new i
  live := R.live_new i
  backups := fun t ht => by cases ht
  predecessor := fun h => absurd rfl h
  ofSuccessor := fun h => absurd rfl h

theorem live_setFinger (h : R.Live n) {k : Int} {t : PeerPair} (ht : R.Real t) :
    R.Live (n.setFinger k t) := by
  intro u hu
  by_cases huk : (u : Int) = k
  · subst huk
    rw [DAENode.setFinger_peer]
    exact ht
  · rw [DAENode.setFinger_of_ne n t huk]
    exact h u hu

theorem nodeOk_setFinger (h : NodeOk R i n) {k : Int} {t : PeerPair}
    (ht : R.Real t) : NodeOk R i (n.setFinger k t) :=
  { h with
    toOwns := ⟨h.m, h.id, h.ip, h.port⟩
    live := live_setFinger h.live ht }

theorem NodeOk.real_self (h : NodeOk R i n) : R.Real ⟨n.nodeIp, n.port, n.id⟩ := by
  refine ⟨i, ?_⟩
  rw [h.ip, h.port, h.id]
  rfl

theorem NodeOk.real_finger (h : NodeOk R i n) : R.Real (n.fingerTable 0).peer :=
  h.live 0 R.bits_pos

theorem NodeOk.successor_lt (h : NodeOk R i n) : n.successor < 2 ^ n.m := by
  obtain ⟨j, hj⟩ := h.real_finger
  rw [h.m, DAENode.successor,
    show (n.fingerTable 0).successor = R.id j from
      (congrArg PeerPair.relayId hj).symm]
  exact R.id_lt j

theorem index_zero_lt : (0 : Int) < R.m := by exact_mod_cast R.bits_pos

/-! ## Handlers -/

/-- A lookup is answered with this node or its successor, or passed on under
its index; whatever the key. -/
theorem tame_lookup (h : NodeOk R i n) {index : Int} (hlo : 0 ≤ index)
    (hhi : index < R.m) (ip : String) (port : Int) (k : Nat) :
    Tame (PacketOk R) (anyTask i) (n.handleFindSuccessor ip port index k) := by
  unfold DAENode.handleFindSuccessor
  split_ifs
  · exact ⟨rfl, h.real_self, hlo, hhi⟩
  · exact ⟨rfl, h.real_finger, hlo, hhi⟩
  · exact ⟨rfl, h.real_finger, hlo, hhi⟩
  · exact ⟨rfl, hlo, hhi⟩

theorem adopt_ok (h : NodeOk R i n) : NodeOk R i (adopt n) := by
  unfold adopt
  split
  · next hin =>
      -- The sentinel is in no range, so what is adopted is a node.
      have hne : n.predecessorOfSuccessor ≠ noId := by
        intro hno
        have hid : n.id < 2 ^ n.m := by rw [h.m, h.id]; exact R.id_lt i
        rw [hno, isInRange_noId (h.m ▸ R.bits_le) hid h.successor_lt] at hin
        cases hin
      exact nodeOk_setFinger h (h.ofSuccessor hne)
  · exact h

theorem stabilize_ok (h : NodeOk R i n) :
    Keeps (NodeOk R) (PacketOk R) anyTask i n.stabilize := by
  rw [stabilize_eq]
  refine ⟨adopt_ok h, ?_⟩
  intro e he
  rcases List.mem_cons.mp he with rfl | he
  · exact ⟨rfl, trivial⟩
  · split at he
    · rw [List.mem_singleton.mp he]
      exact ⟨rfl, (adopt_ok h).real_self⟩
    · cases he

theorem fixFingers_ok (h : NodeOk R i n) :
    Keeps (NodeOk R) (PacketOk R) anyTask i n.fixFingers := by
  refine fixFingers_induct
    (P := fun n' es => NodeOk R i n' ∧ ∀ e ∈ es, Tame (PacketOk R) (anyTask i) e)
    ⟨h, ?_⟩ ?_ ?_
  · intro e he
    rw [List.mem_singleton.mp he]
    exact tame_lookup h (Int.le_refl 0) index_zero_lt _ _ _
  · intro n' es t ht hP _
    rw [h.m] at ht
    exact ⟨nodeOk_setFinger hP.1 (hP.1.live t (by omega)), hP.2⟩
  · intro n' es t ht hP _
    rw [h.m] at ht
    refine ⟨hP.1, ?_⟩
    intro e he
    rcases List.mem_append.mp he with he | he
    · exact hP.2 e he
    · rw [List.mem_singleton.mp he]
      exact tame_lookup hP.1 (by omega) (by exact_mod_cast ht) _ _ _

theorem fetchSuccessorList_ok (h : NodeOk R i n) :
    Keeps (NodeOk R) (PacketOk R) anyTask i (n, n.fetchSuccessorList) := by
  refine ⟨h, ?_⟩
  intro e he
  rw [List.mem_singleton.mp he]
  exact ⟨rfl, trivial⟩

theorem joinWithHelp_tame (peer : PeerPair) :
    ∀ e ∈ n.joinWithHelp peer, Tame (PacketOk R) (anyTask i) e := by
  intro e he
  rcases List.mem_cons.mp he with rfl | he
  · exact ⟨rfl, Int.le_refl 0, index_zero_lt⟩
  · rw [List.mem_singleton.mp he]
    trivial

theorem join_ok (h : NodeOk R i n) (peer : PeerPair) :
    Keeps (NodeOk R) (PacketOk R) anyTask i (n.join peer) := by
  have hs := stabilize_ok h
  have hf := fixFingers_ok hs.1
  refine ⟨hf.1, ?_⟩
  intro e he
  rcases List.mem_append.mp he with he | he
  · rcases List.mem_append.mp he with he | he
    · rcases List.mem_append.mp he with he | he
      · split at he
        · exact joinWithHelp_tame peer e he
        · cases he
      · exact hs.2 e he
    · exact hf.2 e he
  · exact (fetchSuccessorList_ok hf.1).2 e he

theorem schedules_tame {k : Nat} {t u : Task} :
    ∀ e ∈ List.replicate k (Effect.schedule t) ++ [.schedule u],
      Tame (PacketOk R) (anyTask i) e := by
  intro e he
  rcases List.mem_append.mp he with he | he
  · rw [List.eq_of_mem_replicate he]
    trivial
  · rw [List.mem_singleton.mp he]
    trivial

theorem checkPredecessorFailure_ok (h : NodeOk R i n) :
    Keeps (NodeOk R) (PacketOk R) anyTask i n.checkPredecessorFailure := by
  unfold DAENode.checkPredecessorFailure
  split
  · exact ⟨{ h with toOwns := ⟨h.m, h.id, h.ip, h.port⟩ }, schedules_tame⟩
  · exact ⟨h, fun e he => by cases he⟩

theorem checkSuccessorFailure_ok (h : NodeOk R i n) :
    Keeps (NodeOk R) (PacketOk R) anyTask i n.checkSuccessorFailure := by
  unfold DAENode.checkSuccessorFailure
  split
  · exact ⟨{ h with toOwns := ⟨h.m, h.id, h.ip, h.port⟩ }, schedules_tame⟩
  · exact ⟨h, fun e he => by cases he⟩

theorem predecessorTimeout_ok (h : NodeOk R i n) : NodeOk R i n.predecessorTimeout := by
  unfold DAENode.predecessorTimeout
  split
  · exact { h with
      toOwns := ⟨h.m, h.id, h.ip, h.port⟩
      predecessor := fun hne => absurd rfl hne }
  · exact { h with toOwns := ⟨h.m, h.id, h.ip, h.port⟩ }

theorem successorTimeout_ok (h : NodeOk R i n) : NodeOk R i n.successorTimeout := by
  unfold DAENode.successorTimeout
  split
  · extract_lets rest
    have hrest : ∀ t ∈ rest, R.Real t := by
      intro t ht
      unfold rest at ht
      split at ht
      · cases ht
      · next head tail hlist =>
          have hmem : t ∈ n.successorList := by
            rw [hlist]
            split at ht
            · exact List.mem_cons_of_mem _ ht
            · exact ht
          exact h.backups t hmem
    cases hcase : rest with
    | nil =>
        exact { h with
          toOwns := ⟨h.m, h.id, h.ip, h.port⟩
          backups := fun t ht => by cases ht }
    | cons su tail =>
        simp only [DAENode.update_eq_setFinger]
        have hsu : R.Real su := hrest su (by rw [hcase]; simp)
        exact { nodeOk_setFinger h hsu with
          toOwns := ⟨h.m, h.id, h.ip, h.port⟩
          backups := fun t ht => hrest t (by rw [hcase]; exact ht) }
  · exact { h with toOwns := ⟨h.m, h.id, h.ip, h.port⟩ }

theorem runTask_ok (h : NodeOk R i n) (peer : PeerPair) (t : Task) :
    Keeps (NodeOk R) (PacketOk R) anyTask i (n.runTask peer t) := by
  cases t with
  | joinRetry =>
      refine ⟨h, ?_⟩
      intro e he
      simp only [DAENode.runTask] at he
      split at he
      · exact joinWithHelp_tame peer e he
      · cases he
  | checkPredecessorExistence =>
      refine ⟨h, ?_⟩
      intro e he
      rw [List.mem_singleton.mp he]
      exact ⟨rfl, trivial⟩
  | predecessorTimeout => exact ⟨predecessorTimeout_ok h, fun e he => by cases he⟩
  | checkSuccessorExistence =>
      refine ⟨h, ?_⟩
      intro e he
      rw [List.mem_singleton.mp he]
      exact ⟨rfl, trivial⟩
  | successorTimeout => exact ⟨successorTimeout_ok h, fun e he => by cases he⟩

theorem notify_ok (h : NodeOk R i n) {id : Nat} {ip : String} {port : Int}
    (hreal : R.Real ⟨ip, port, id⟩) : NodeOk R i (n.notify id ip port) := by
  unfold DAENode.notify
  split
  · exact { h with
      toOwns := ⟨h.m, h.id, h.ip, h.port⟩
      predecessor := fun _ => hreal }
  · exact h

theorem handleReplySuccessorList_ok (h : NodeOk R i n) {id : Nat} {ip : String}
    {port : Int} (hreal : R.Real ⟨ip, port, id⟩) (counter : Int) :
    NodeOk R i (n.handleReplySuccessorList id ip port counter) := by
  unfold DAENode.handleReplySuccessorList
  split
  · refine { h with
      toOwns := ⟨h.m, h.id, h.ip, h.port⟩
      backups := ?_ }
    intro t ht
    rcases List.mem_append.mp (List.mem_of_mem_drop ht) with hold | hnew
    · exact h.backups t hold
    · rw [List.mem_singleton.mp hnew]
      exact hreal
  · exact h

theorem handleFetchSuccessorList_tame (h : NodeOk R i n) (counter : Int)
    (ip : String) (port : Int) :
    ∀ e ∈ n.handleFetchSuccessorList counter ip port,
      Tame (PacketOk R) (anyTask i) e := by
  intro e he
  rcases List.mem_cons.mp he with rfl | he
  · exact ⟨rfl, h.real_finger⟩
  · split at he
    · rw [List.mem_singleton.mp he]
      exact ⟨rfl, trivial⟩
    · cases he

theorem receive_ok (h : NodeOk R i n) {p : AnonymousPacket} (hp : PacketOk R p) :
    Keeps (NodeOk R) (PacketOk R) anyTask i (n.receive p) := by
  obtain ⟨hint, hp⟩ := hp
  have hrecv := receives (n := n) hint
  generalize n.receive p = r at hrecv
  cases hrecv with
  | lookup hid =>
      rw [hid] at hp
      refine ⟨h, ?_⟩
      intro e he
      rw [List.mem_singleton.mp he]
      exact tame_lookup h hp.1 hp.2 _ _ _
  | found hid =>
      rw [hid] at hp
      exact ⟨nodeOk_setFinger h hp.1, fun e he => by cases he⟩
  | asked hid =>
      refine ⟨h, ?_⟩
      intro e he
      rw [List.mem_singleton.mp he]
      exact ⟨rfl, h.predecessor⟩
  | told hid =>
      rw [hid] at hp
      refine ⟨{ h with
        toOwns := ⟨h.m, h.id, h.ip, h.port⟩
        ofSuccessor := hp }, fun e he => by cases he⟩
  | notified hid =>
      rw [hid] at hp
      exact ⟨notify_ok h hp, fun e he => by cases he⟩
  | fetch hid => exact ⟨h, handleFetchSuccessorList_tame h _ _ _⟩
  | backup hid =>
      rw [hid] at hp
      exact ⟨handleReplySuccessorList_ok h hp _, fun e he => by cases he⟩
  | checked id hid =>
      refine ⟨h, ?_⟩
      intro e he
      rw [List.mem_singleton.mp he]
      rcases hid with rfl | rfl <;> exact ⟨rfl, trivial⟩
  | alive _ _ =>
      exact ⟨{ h with toOwns := ⟨h.m, h.id, h.ip, h.port⟩ },
        fun e he => by cases he⟩

/-! ## Runs -/

theorem fires_keeps {s : System ι} {a : Act ι} {i : ι}
    {f : DAENode → DAENode × List Effect} {net : List AnonymousPacket}
    (hnode : NodeOk R i (s.nodes i))
    (hpacket : ∀ k p, a = .deliver i k → s.net[k]? = some p → PacketOk R p)
    (hf : Fires s a i f net) :
    Keeps (NodeOk R) (PacketOk R) anyTask i (f (s.nodes i)) := by
  cases hf with
  | join _ => exact join_ok hnode _
  | stabilize _ => exact stabilize_ok hnode
  | fixFingers _ => exact fixFingers_ok hnode
  | fetchSuccessorList _ => exact fetchSuccessorList_ok hnode
  | checkPredecessorFailure _ => exact checkPredecessorFailure_ok hnode
  | checkSuccessorFailure _ => exact checkSuccessorFailure_ok hnode
  | runTask _ => exact runTask_ok hnode _ _
  | deliver hk _ => exact receive_ok hnode (hpacket _ _ rfl hk)

theorem fires_ok {s : System ι} {a : Act ι} {i : ι}
    {f : DAENode → DAENode × List Effect} {net : List AnonymousPacket}
    (hs : Holds R.cfg (NodeOk R) (PacketOk R) anyTask s)
    (hf : Fires s a i f net) :
    Keeps (NodeOk R) (PacketOk R) anyTask i (f (s.nodes i)) :=
  fires_keeps (hs.node i) (fun _ p _ hk => hs.net p (List.mem_of_getElem? hk)) hf

theorem init_holds : Holds R.cfg (NodeOk R) (PacketOk R) anyTask
    (System.init R.cfg) where
  cfg := fun _ => rfl
  node := nodeOk_new
  net := fun p hp => by cases hp
  task := fun i t ht => by cases ht

variable [DecidableEq ι]

theorem run_identity (acts : List (Act ι)) (hacts : ∀ a ∈ acts, a.Upkeep = true) :
    Holds R.cfg (NodeOk R) (PacketOk R) anyTask ((System.init R.cfg).run acts) :=
  run_holds (fun a => a.Upkeep = true) (fun _ h => h)
    (fun _ _ _ _ _ _ hs hf => fires_ok hs hf) acts hacts _ init_holds

/-- The identity invariant. In every state of every run of upkeep steps from
freshly constructed nodes, whatever is lost, duplicated or reordered, the
triples that nodes hold and packets carry are those of nodes, no finger holds
the sentinel, and a reply's index is inside the finger table. -/
theorem identity_invariant (R : Roster ι) (acts : List (Act ι))
    (hacts : ∀ a ∈ acts, a.Upkeep = true) :
    let s := (System.init R.cfg).run acts
    (∀ i, ∀ t < R.m, R.Real ((s.nodes i).fingerTable t).peer ∧
      ((s.nodes i).fingerTable t).successor ≠ noId) ∧
    (∀ i, ∀ t ∈ (s.nodes i).successorList, R.Real t) ∧
    (∀ i, (s.nodes i).predecessor ≠ noId → R.Real (s.nodes i).predecessorPeer) ∧
    (∀ i, (s.nodes i).predecessorOfSuccessor ≠ noId →
      R.Real (s.nodes i).ofSuccessorPeer) ∧
    ∀ p ∈ s.net,
      (p.header.id = .internalReplyFindSuccessor →
        R.Real p.keyPeer ∧ 0 ≤ p.header.index ∧ p.header.index < R.m) ∧
      (p.header.id = .internalReplySuccessorList → R.Real p.keyPeer) ∧
      (p.header.id = .internalReplyGetPredecessor → p.header.keyId ≠ noId →
        R.Real p.keyPeer) ∧
      (p.header.id = .internalNotifyPredecessorJoin → R.Real p.notifier) := by
  intro s
  have hs := run_identity (R := R) acts hacts
  refine ⟨?_, fun i => (hs.node i).backups, fun i => (hs.node i).predecessor,
    fun i => (hs.node i).ofSuccessor, ?_⟩
  · intro i t ht
    have hreal := (hs.node i).live t ht
    refine ⟨hreal, ?_⟩
    obtain ⟨j, hj⟩ := hreal
    rw [show ((s.nodes i).fingerTable t).successor = R.id j from
      (congrArg PeerPair.relayId hj).symm]
    exact R.id_ne_noId j
  · intro p hp
    obtain ⟨_, hok⟩ := hs.net p hp
    refine ⟨?_, ?_, ?_, ?_⟩ <;>
      intro hid <;>
      rw [hid] at hok <;>
      exact hok

theorem identity_invariant_pair :
    pairRoster.Real ((((System.init pairRoster.cfg).run
      [.join 1, .deliver 0 0, .deliver 1 3]).nodes 1).fingerTable 0).peer :=
  ((identity_invariant pairRoster [.join 1, .deliver 0 0, .deliver 1 3]
    (by decide)).1 1 0 (by decide)).1

end Daenet.Proofs
