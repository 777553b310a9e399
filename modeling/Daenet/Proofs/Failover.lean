import Daenet.Lib.Chain
import Daenet.Lib.Runs
import Daenet.Proofs.Handlers
import Daenet.Proofs.Maintenance

/-!
# Failover

When `check_successor_failure` gives up on the successor, it takes the head of
the backup list for the next one, after dropping a head that is the successor
itself. It drops one. The replies that fill the list go round the ring, and in
a small ring, or out of order, the successor stands in the list more than once:
with two copies at its front the node that was given up is taken again
(`failover_takes_it_again`).

Two copies at the front are the only way this can happen, and they are two
replies that came one after the other: a list is a window of the accepted
replies, since a reply is appended and everything else only cuts the front.
-/

namespace Daenet.Proofs

open Daenet.Lib Daenet.Ref Daenet.Spec

variable {ι : Type}

/-! ## What happens to a backup list -/

/-- What a step leaves of node `i`'s backup list. -/
inductive Edits (s : System ι) (a : Act ι) (i : ι) : List PeerPair → Prop where
  | keeps : Edits s a i (s.nodes i).successorList
  | reply {k : Nat} {p : AnonymousPacket} (ha : a = .deliver i k)
      (hk : s.net[k]? = some p) (hid : p.header.id = .internalReplySuccessorList) :
      Edits s a i ((s.nodes i).handleReplySuccessorList p.header.keyId
        p.header.keyIp p.header.keyPort p.header.index).successorList
  | timeout {k : Nat} (ha : a = .runTask i k)
      (hk : (s.relays i).tasks[k]? = some .successorTimeout) :
      Edits s a i (s.nodes i).successorTimeout.successorList

section Handlers

variable {n : DAENode}

theorem adopt_successorList : (adopt n).successorList = n.successorList := by
  unfold adopt
  split
  · rfl
  · rfl

theorem fixFingers_successorList :
    n.fixFingers.1.successorList = n.successorList := by
  refine fixFingers_induct (P := fun n' _ => n'.successorList = n.successorList)
    rfl ?_ ?_
  · intro n' es t _ hP _
    exact hP
  · intro n' es t _ hP _
    exact hP

theorem join_successorList (peer : PeerPair) :
    (n.join peer).1.successorList = n.successorList := by
  show n.stabilize.1.fixFingers.1.successorList = _
  rw [fixFingers_successorList, stabilize_eq]
  exact adopt_successorList

theorem checkPredecessorFailure_successorList :
    n.checkPredecessorFailure.1.successorList = n.successorList := by
  unfold DAENode.checkPredecessorFailure
  split
  · rfl
  · rfl

theorem checkSuccessorFailure_successorList :
    n.checkSuccessorFailure.1.successorList = n.successorList := by
  unfold DAENode.checkSuccessorFailure
  split
  · rfl
  · rfl

theorem predecessorTimeout_successorList :
    n.predecessorTimeout.successorList = n.successorList := by
  unfold DAENode.predecessorTimeout
  split
  · rfl
  · rfl

theorem notify_successorList (id : Nat) (ip : String) (port : Int) :
    (n.notify id ip port).successorList = n.successorList := by
  unfold DAENode.notify
  split
  · rfl
  · rfl

/-- A datagram touches the list only if it is a reply for it. -/
theorem receive_successorList {p : AnonymousPacket} :
    (n.receive p).1.successorList = n.successorList ∨
      p.header.id = .internalReplySuccessorList ∧
        n.receive p = (n.handleReplySuccessorList p.header.keyId p.header.keyIp
          p.header.keyPort p.header.index, []) := by
  cases hint : p.header.msgType with
  | true =>
      have hrecv := receives (n := n) hint
      generalize n.receive p = r at hrecv ⊢
      cases hrecv with
      | notified _ => exact .inl (notify_successorList ..)
      | backup hid => exact .inr ⟨hid, rfl⟩
      | _ => exact .inl rfl
  | false =>
      obtain ⟨r, hr, heq⟩ := receipt (n := n) (.inl hint)
      rw [heq]
      refine .inl ?_
      cases hr with
      | dropped _ _ =>
          show (n.handleDeaddrop p).1.successorList = _
          simp only [DAENode.handleDeaddrop]
          split
          · rfl
          · rfl
      | _ => rfl

end Handlers

theorem perform_node (r : Relay) (e : Effect) : (r.perform e).1.node = r.node := by
  cases e with
  | directSend p => rfl
  | safeSend p =>
      simp only [Relay.perform]
      split
      · split
        · rfl
        · rfl
        · rfl
      · rfl
  | schedule t => rfl

theorem performAll_node (r : Relay) (es : List Effect) :
    (r.performAll es).1.node = r.node := by
  induction es generalizing r with
  | nil => rfl
  | cons e es ih => exact (ih _).trans (perform_node r e)

theorem handle_node (r : Relay) (f : DAENode → DAENode × List Effect) :
    (r.handle f).1.node = (f r.node).1 := performAll_node ..

section Runs

variable [DecidableEq ι] {s : System ι} {a : Act ι} {i j : ι}

theorem move_nodes (s : System ι) (i : ι) (r : Relay × List AnonymousPacket)
    (j : ι) : (s.move i r).nodes j = if j = i then r.1.node else s.nodes j := by
  show (Function.update s.relays i r.1 j).node = _
  by_cases hj : j = i
  · subst hj
    rw [Function.update_self, if_pos rfl]
  · rw [Function.update_of_ne hj, if_neg hj]
    rfl

/-- A handler that leaves the list alone. -/
theorem edits_move {r : Relay × List AnonymousPacket}
    (h : r.1.node.successorList = (s.nodes i).successorList) (j : ι) :
    Edits s a j ((s.move i r).nodes j).successorList := by
  rw [move_nodes]
  split
  · next hj =>
      subst hj
      rw [h]
      exact .keeps
  · exact .keeps

/-- **One step**: a list is appended to by a reply and cut at the front by the
timer, and nothing else touches it. -/
theorem step_edits (s : System ι) (a : Act ι) (j : ι) :
    Edits s a j ((s.step a).nodes j).successorList := by
  have hplain : ∀ i f, (f (s.nodes i)).1.successorList = (s.nodes i).successorList →
      Edits s a j ((s.handle i f).nodes j).successorList := by
    intro i f h
    refine edits_move ?_ j
    rw [handle_node]
    exact h
  cases a with
  | join i =>
      simp only [System.step, System.join]
      split
      · exact .keeps
      · refine edits_move ?_ j
        rw [handle_node]
        exact join_successorList _
  | stabilize i =>
      refine hplain i _ ?_
      rw [stabilize_eq]
      exact adopt_successorList
  | fixFingers i => exact hplain i _ fixFingers_successorList
  | fetchSuccessorList i => exact hplain i _ rfl
  | checkPredecessorFailure i =>
      exact hplain i _ checkPredecessorFailure_successorList
  | checkSuccessorFailure i =>
      exact hplain i _ checkSuccessorFailure_successorList
  | runTask i k =>
      simp only [System.step, System.runTask]
      split
      · exact .keeps
      · next t hk =>
          by_cases ht : t = .successorTimeout
          · subst ht
            rw [move_nodes]
            split
            · next hj =>
                subst hj
                rw [handle_node]
                exact .timeout rfl hk
            · exact .keeps
          · refine edits_move ?_ j
            rw [handle_node]
            cases t with
            | successorTimeout => exact absurd rfl ht
            | predecessorTimeout => exact predecessorTimeout_successorList
            | _ => rfl
  | deliver i k =>
      simp only [System.step, System.deliver]
      split
      · exact .keeps
      · next p hk =>
          split
          · rcases receive_successorList (n := s.nodes i) (p := p) with
              hsame | ⟨hid, hrecv⟩
            · refine edits_move (s := { s with net := _ }) (a := .deliver i k) ?_ j
              rw [handle_node]
              exact hsame
            · show Edits s _ j (System.nodes (System.move _ i _) j).successorList
              rw [move_nodes]
              split
              · next hj =>
                  subst hj
                  rw [handle_node]
                  show Edits s _ j ((s.nodes j).receive p).1.successorList
                  rw [hrecv]
                  exact .reply rfl hk hid
              · exact .keeps
          · exact .keeps
  | lose k => exact .keeps
  | duplicate k => exact .keeps
  | send i m buf =>
      refine edits_move ?_ j
      unfold Relay.socketSend
      split
      · rfl
      · rw [handle_node]
        rfl
  | sendBatch i accept draws due =>
      refine edits_move ?_ j
      unfold Relay.sendBatch
      split
      · rfl
      · rfl

/-! ## Giving up on the successor -/

/-- The timer of `check_successor_failure` fires at node `i`, and no answer has
come. -/
def GivesUp (s : System ι) (a : Act ι) (i : ι) : Prop :=
  (∃ k, a = .runTask i k ∧ (s.relays i).tasks[k]? = some .successorTimeout) ∧
    (s.nodes i).successorStatus = false

/-- A node that gives up and is not left with an empty list has another
successor. -/
def MovesAway (s : System ι) (a : Act ι) : Prop :=
  ∀ i, GivesUp s a i → ((s.step a).nodes i).successorList ≠ [] →
    ((s.step a).nodes i).successor ≠ (s.nodes i).successor

/-- The backup list begins with the successor, twice. -/
def Doubled (n : DAENode) : Prop :=
  ∃ t u rest, n.successorList = t :: u :: rest ∧ t.relayId = n.successor ∧
    u.relayId = n.successor

/-- No node gives up with its successor twice at the front of its list. -/
def Single (s : System ι) (a : Act ι) : Prop :=
  ∀ i, GivesUp s a i → ¬ Doubled (s.nodes i)

/-- A reply that leaves the entry before it in the list names another node than
that entry. -/
def Varied (s : System ι) (a : Act ι) : Prop :=
  ∀ i k p, a = .deliver i k → s.net[k]? = some p →
    p.header.id = .internalReplySuccessorList → p.header.keyId ≠ (s.nodes i).id →
    2 ≤ ((6 - p.header.index) % 2 ^ 64).toNat →
    ∀ t ∈ (s.nodes i).successorList.getLast?, t.relayId ≠ p.header.keyId

theorem successor_setFinger (n : DAENode) (t : PeerPair) :
    (n.setFinger 0 t).successor = t.relayId := by
  have := DAENode.setFinger_peer n 0 t
  exact congrArg PeerPair.relayId this

/-- The verdict: with a list left, the successor is taken again exactly when it
stands at the front twice. -/
theorem successorTimeout_successor {n : DAENode} (hflag : n.successorStatus = false) :
    n.successorTimeout.successorList ≠ [] →
      (n.successorTimeout.successor = n.successor ↔ Doubled n) := by
  have htake : ∀ (t : PeerPair) rest, ({ ((n.updatesuccessor 0 t.relayId).updatesuccessorIp 0
      t.ip).updatesuccessorPort 0 t.port with
        successorList := rest, successorOnchecking := false } : DAENode).successor =
      t.relayId := by
    intro t rest
    rw [DAENode.update_eq_setFinger]
    exact successor_setFinger n t
  unfold DAENode.successorTimeout Doubled
  rw [if_pos hflag]
  cases hlist : n.successorList with
  | nil => exact fun h => absurd rfl h
  | cons t rest =>
      by_cases ht : t.relayId = n.successor
      · simp only [show (n.fingerTable 0).successor = n.successor from rfl, if_pos ht]
        cases rest with
        | nil => exact fun h => absurd rfl h
        | cons u rest =>
            intro _
            rw [htake]
            constructor
            · intro hu
              exact ⟨t, u, rest, rfl, ht, hu⟩
            · rintro ⟨_, _, _, heq, _, hu⟩
              cases heq
              exact hu
      · simp only [show (n.fingerTable 0).successor = n.successor from rfl, if_neg ht]
        intro _
        rw [htake]
        constructor
        · exact fun h => absurd h ht
        · rintro ⟨_, _, _, heq, ht', _⟩
          cases heq
          exact ht'

theorem timeout_nodes {k : Nat}
    (hk : (s.relays i).tasks[k]? = some .successorTimeout) :
    (s.step (.runTask i k)).nodes i = (s.nodes i).successorTimeout := by
  simp only [System.step, System.runTask, hk]
  rw [move_nodes, if_pos rfl, handle_node]
  rfl

/-- Two copies at the front of the list leave one behind. -/
theorem Doubled.rest {n : DAENode} (h : Doubled n)
    (hflag : n.successorStatus = false) : n.successorTimeout.successorList ≠ [] := by
  obtain ⟨t, u, rest, hlist, ht, _⟩ := h
  unfold DAENode.successorTimeout
  rw [if_pos hflag, hlist]
  simp only [show (n.fingerTable 0).successor = n.successor from rfl, if_pos ht]
  exact List.cons_ne_nil u rest

/-- A step moves away from whom it gives up exactly when it gives up on no
successor that stands at the front of the list twice. -/
theorem movesAway_iff (s : System ι) (a : Act ι) : MovesAway s a ↔ Single s a := by
  constructor
  · rintro h i ⟨⟨k, rfl, hk⟩, hflag⟩ hdouble
    have hmoved := h i ⟨⟨k, rfl, hk⟩, hflag⟩
    rw [timeout_nodes hk] at hmoved
    have hrest := hdouble.rest hflag
    exact hmoved hrest ((successorTimeout_successor hflag hrest).mpr hdouble)
  · rintro h i ⟨⟨k, rfl, hk⟩, hflag⟩
    rw [timeout_nodes hk]
    intro hrest hsame
    exact h i ⟨⟨k, rfl, hk⟩, hflag⟩
      ((successorTimeout_successor hflag hrest).mp hsame)

/-! ## Where two copies come from -/

/-- No two neighbours in a backup list name the same node. -/
def Patterned (s : System ι) : Prop :=
  ∀ i, (s.nodes i).successorList.IsChain fun t u => t.relayId ≠ u.relayId

omit [DecidableEq ι] in
theorem Patterned.single (h : Patterned s) : Single s a := by
  rintro i _ ⟨t, u, rest, hlist, ht, hu⟩
  have hchain := h i
  rw [hlist] at hchain
  exact (List.isChain_cons_cons.mp hchain).1 (ht.trans hu.symm)

/-- The timer only cuts the list. -/
theorem successorTimeout_suffix (n : DAENode) :
    n.successorTimeout.successorList <:+ n.successorList := by
  unfold DAENode.successorTimeout
  split
  · cases hlist : n.successorList with
    | nil => exact List.suffix_refl _
    | cons t rest =>
        by_cases ht : t.relayId = (n.fingerTable 0).successor
        · simp only [if_pos ht]
          cases rest with
          | nil => exact List.nil_suffix
          | cons u rest => exact List.suffix_cons t _
        · simp only [if_neg ht]
          exact List.suffix_refl _
  · exact List.suffix_refl _

/-- The step lemma: a varied reply has another node before it, or none. -/
theorem Patterned.step (h : Patterned s) (hvaried : Varied s a) :
    Patterned (s.step a) := by
  intro i
  have hedits := step_edits s a i
  generalize ((s.step a).nodes i).successorList = list at hedits
  cases hedits with
  | keeps => exact h i
  | timeout _ _ => exact (h i).suffix (successorTimeout_suffix _)
  | @reply k p ha hk hid =>
      unfold DAENode.handleReplySuccessorList
      by_cases hown : p.header.keyId ≠ (s.nodes i).id
      · rw [if_pos hown]
        exact isChain_push (h i) (hvaried i k p ha hk hid hown)
      · rw [if_neg hown]
        exact h i

omit [DecidableEq ι] in
theorem patterned_init (cfg : ι → RelayConfig) : Patterned (System.init cfg) :=
  fun _ => List.isChain_nil

/-- **Failover**: in every run, whoever gives up on its successor moves away from
it exactly as long as no successor given up stands at the front of the list
twice; and this is so as long as no reply names the same node as the entry it
comes to stand behind. -/
theorem failover_moves_away_iff (cfg : ι → RelayConfig) (acts : List (Act ι)) :
    (Always System.step MovesAway (System.init cfg) acts ↔
      Always System.step Single (System.init cfg) acts) ∧
    (Always System.step Varied (System.init cfg) acts →
      Always System.step MovesAway (System.init cfg) acts) := by
  have hiff : Always System.step MovesAway _ _ ↔ Always System.step Single _ _ :=
    always_congr movesAway_iff (System.init cfg) acts
  refine ⟨hiff, fun h => hiff.mpr ?_⟩
  exact h.of_inv (I := Patterned) (fun _ _ hs hvaried => hs.step hvaried)
    (fun _ _ hs _ => hs.single) (patterned_init cfg)

end Runs

/-- Two nodes that check their neighbours once a round. -/
def duoRoster : Roster (Fin 2) where
  m := 1
  cfg := fun i =>
    { relayIp := "10.22.1.16"
      relayPort := 3010 + i.val
      relayId := i.val
      ringBits := 1
      recheck := 1
      initPeers := ⟨"10.22.1.16", 3010, 0⟩ }
  bits_pos := pairRoster.bits_pos
  bits_le := pairRoster.bits_le
  ringBits := fun _ => rfl
  id_lt := by decide
  id_inj := by unfold Function.Injective; decide
  addr_inj := by unfold Function.Injective; decide

/-- Node 1 joins node 0, and both have each other as successor; node 0 fetches
its backups, and every reply comes in order. Then it checks on node 1, whose
answer does not come in time. -/
def duoRun : List (Act (Fin 2)) :=
  [.join 0, .join 1, .deliver 0 3, .deliver 1 6, .stabilize 1, .deliver 0 7,
    .stabilize 0, .deliver 0 7, .deliver 0 7, .stabilize 0,
    .fetchSuccessorList 0, .deliver 1 9, .deliver 0 9, .deliver 0 9, .deliver 0 9,
    .deliver 1 9, .deliver 0 9, .deliver 0 9, .deliver 0 9, .deliver 1 9,
    .deliver 0 9, .deliver 0 9, .deliver 0 9, .checkSuccessorFailure 0,
    .runTask 0 0]

/-- In a ring of two the list is the successor three times over, and the node
that was given up is taken again. -/
theorem failover_takes_it_again :
    let s := (System.init duoRoster.cfg).run duoRun
    (s.nodes 0).successor = 1 ∧
      (s.nodes 0).successorList = [duoRoster.peer 1, duoRoster.peer 1,
        duoRoster.peer 1] ∧
      GivesUp s (.runTask 0 0) 0 ∧
      ((s.step (.runTask 0 0)).nodes 0).successorList ≠ [] ∧
      ((s.step (.runTask 0 0)).nodes 0).successor = 1 ∧
      ¬ MovesAway s (.runTask 0 0) := by
  intro s
  have hsucc : (s.nodes 0).successor = 1 := by decide +kernel
  have hgives : GivesUp s (.runTask 0 0) 0 :=
    ⟨⟨0, rfl, by decide +kernel⟩, by decide +kernel⟩
  have hrest : ((s.step (.runTask 0 0)).nodes 0).successorList ≠ [] := by
    decide +kernel
  have hnew : ((s.step (.runTask 0 0)).nodes 0).successor = 1 := by decide +kernel
  refine ⟨hsucc, by decide +kernel, hgives, hrest, hnew, fun h => ?_⟩
  exact h 0 hgives hrest (hnew.trans hsucc.symm)

end Daenet.Proofs
