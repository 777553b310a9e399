import Daenet.Proofs.Handlers
import Daenet.Proofs.Maintenance
import Daenet.Proofs.Rendezvous

/-!
# A correct ring stays correct

In an ideal state every finger is the node responsible for its start and every
predecessor is the previous node. Nothing the upkeep does changes such a state,
whatever is delayed, lost, doubled or overtaken: every packet in flight, half
way through a lookup or on its way back, agrees with the ideal tables, so the
unconditional write of a reply writes what is there, the copy in `fix_fingers`
copies a finger onto its equal, and no stored answer lies between a node and
its next.

So the invariant is that nothing has changed: `Unmoved` compares a node with
the one at the start.
-/

namespace Daenet.Ref

/-- The steps of a ring that nobody joins and nobody suspects. -/
def Act.Steady {ι : Type} : Act ι → Bool
  | .stabilize _ => true
  | .fixFingers _ => true
  | .fetchSuccessorList _ => true
  | .deliver _ _ => true
  | .lose _ => true
  | .duplicate _ => true
  | _ => false

end Daenet.Ref

namespace Daenet.Proofs

open Daenet.Lib Daenet.Ref Daenet.Spec

variable {ι : Type} {R : Roster ι} {i : ι} {n n₀ : DAENode}

/-- The state of a node on a correct ring. The starts are the constructor's, no
handler writes them; a lone node has no predecessor. -/
structure IdealNode (R : Roster ι) (i : ι) (n : DAENode) : Prop extends
    R.Owns i n where
  starts : R.Starts i n
  finger : ∀ t < R.m, ∃ j, R.IsSucc (R.start i t) j ∧
    (n.fingerTable t).peer = R.peer j
  predecessor : (∀ j, j = i) ∧ n.predecessor = noId ∨
    ¬ (∀ j, j = i) ∧ ∃ j, R.IsNext j i ∧ n.predecessorPeer = R.peer j
  ofSuccessor : n.predecessorOfSuccessor = noId ∨ R.Real n.ofSuccessorPeer

theorem IdealNode.live (h : IdealNode R i n) : R.Live n := by
  intro t ht
  obtain ⟨j, _, hj⟩ := h.finger t ht
  exact ⟨j, hj.symm⟩

theorem IdealNode.pointsNext (h : IdealNode R i n) : R.PointsNext i n := by
  obtain ⟨j, hj, hpeer⟩ := h.finger 0 R.bits_pos
  exact ⟨j, R.isNext_iff_isSucc.mpr hj, hpeer⟩

/-- A packet in flight agrees with the ideal tables. -/
def IdealPacket (R : Roster ι) (p : AnonymousPacket) : Prop :=
  p.header.msgType = true ∧
  match p.header.id with
  | .internalJoinFindSuccessor =>
      ∃ i, ∃ t : Nat, t < R.m ∧ p.replyTo = R.addr i ∧ p.header.index = t ∧
        p.header.keyId = R.start i t
  | .internalReplyFindSuccessor =>
      ∃ i, ∃ t : Nat, t < R.m ∧ p.dest = R.addr i ∧ p.header.index = t ∧
        ∃ j, R.IsSucc (R.start i t) j ∧ p.keyPeer = R.peer j
  | .internalReplyGetPredecessor => p.header.keyId = noId ∨ R.Real p.keyPeer
  | .internalNotifyPredecessorJoin =>
      ∃ i j, i ≠ j ∧ p.dest = R.addr i ∧ R.IsNext j i ∧ p.notifier = R.peer j
  | _ => True

/-! ## Writes that write what is there -/

theorem setFinger_eq_self {k : Int} {t : PeerPair}
    (h : (n.fingerTable k).peer = t) : n.setFinger k t = n := by
  subst h
  exact n.setFinger_self k

/-- No stored answer is adopted. -/
theorem adopt_ideal (h : IdealNode R i n) : adopt n = n := by
  obtain ⟨j, hnext, hj⟩ := h.pointsNext
  have hsucc : n.successor = R.id j := successor_of_peer hj
  unfold adopt
  rw [if_neg]
  intro hin
  rcases h.ofSuccessor with hno | ⟨l, hl⟩
  · have hid : n.id < 2 ^ n.m := by rw [h.m, h.id]; exact R.id_lt i
    have hs : n.successor < 2 ^ n.m := by rw [h.m, hsucc]; exact R.id_lt j
    rw [hno, isInRange_noId (h.m ▸ R.bits_le) hid hs] at hin
    cases hin
  · have hpos : n.predecessorOfSuccessor = R.id l :=
      (congrArg PeerPair.relayId hl).symm
    rw [hsucc, hpos, inRange_iff h.toOwns (R.id_lt_size j) (R.id_lt_size l)] at hin
    exact R.not_between_of_isNext hnext l hin

/-- The copy of `fix_fingers` copies a finger onto its equal: the node
responsible for one start is responsible for the next start if that comes
before it. -/
theorem copy_ideal (hm : R.m ≤ 30) (h : IdealNode R i n) {t : Nat}
    (ht : t + 1 < R.m)
    (hin : n.isInRange n.id (n.fingerTable t).successor
      (n.fingerTable (t + 1 : Nat)).start = true) :
    (n.fingerTable (t + 1 : Nat)).peer = (n.fingerTable t).peer := by
  obtain ⟨j, hj, hpeer⟩ := h.finger t (by omega)
  obtain ⟨l, hl, hpeer'⟩ := h.finger (t + 1) ht
  have hstart : (n.fingerTable (t + 1 : Nat)).start = R.start i (t + 1) :=
    (h.starts (t + 1) ht).trans (R.start_new hm i ht)
  rw [hstart, show (n.fingerTable t).successor = R.id j from
    congrArg PeerPair.relayId hpeer, inRange_iff h.toOwns (R.id_lt_size j)
    (R.start_lt i _)] at hin
  have hcw := R.cw_start i (t := t) (by omega)
  have hcw' := R.cw_start i ht
  have hdouble : 2 ^ (t + 1) = 2 ^ t + 2 ^ t := by rw [Nat.pow_succ]; omega
  have hpos : 0 < 2 ^ t := Nat.two_pow_pos t
  have hne : R.start i t ≠ R.id i := by
    intro he
    rw [he, cw_self] at hcw
    omega
  have horder := cw_le_of_order (R.id_lt_size i) (R.id_lt_size j)
    (R.start_lt i (t + 1)) (R.start_lt i t) hne (by omega) hin.2
  have hj' : R.IsSucc (R.start i (t + 1)) j := fun u =>
    cw_le_of_cw_le (R.start_lt i t) (R.id_lt_size j) (R.start_lt i _)
      (hj u) horder
  rw [hpeer, hpeer', R.isSucc_unique (R.start_lt i _) hl hj']

/-- A node already knows the sender of every notification it gets. -/
theorem notify_ideal (h : IdealNode R i n) {j : ι} (hij : i ≠ j)
    (hnext : R.IsNext j i) (ip : String) (port : Int) :
    n.notify (R.id j) ip port = n := by
  rcases h.predecessor with ⟨halone, _⟩ | ⟨_, l, hl, hpeer⟩
  · exact absurd (halone j).symm hij
  · have hpred : n.predecessor = R.id j := by
      rw [R.isNext_left_inj hnext hl]
      exact congrArg PeerPair.relayId hpeer
    unfold DAENode.notify
    rw [if_neg]
    rintro (hno | hin)
    · rw [hpred] at hno
      exact R.id_ne_noId j hno
    · have hsz : ∀ l, R.id l < 2 ^ n.m := fun l => by rw [h.m]; exact R.id_lt l
      rw [hpred, h.id, isInRange_iff (h.m ▸ R.bits_le) (hsz j) (hsz i) (hsz j)]
        at hin
      exact hin.1 rfl

/-! ## Handlers -/

/-- Nothing but the triple kept for the predecessor of the successor and the
backup list differs. -/
structure Unmoved (n₀ n : DAENode) : Prop where
  fingerTable : n.fingerTable = n₀.fingerTable
  predecessor : n.predecessorPeer = n₀.predecessorPeer

/-- The node invariant: ideal, and as it was in the beginning. -/
def AtRest (R : Roster ι) (nodes : ι → DAENode) (i : ι) (n : DAENode) : Prop :=
  IdealNode R i n ∧ Unmoved (nodes i) n

/-- A lookup for a finger is answered with that finger, or passed on. -/
theorem tame_ideal_lookup (h : IdealNode R i n) (j : ι) {t : Nat} (ht : t < R.m) :
    Tame (IdealPacket R) (anyTask i) (n.handleFindSuccessor (R.addr j).1 (R.addr j).2 t
      (R.start j t)) := by
  obtain ⟨p, hp, hcase⟩ := lookup_answer h.toOwns h.live h.pointsNext
    (R.start_lt j t) (R.addr j).1 (R.addr j).2 t
  rw [hp]
  rcases hcase with ⟨hrep, s, hs, hkey⟩ | ⟨hfwd, _⟩
  · refine ⟨hrep.msgType, ?_⟩
    rw [hrep.id]
    exact ⟨j, t, ht, hrep.dest, hrep.index, s, hs, hkey⟩
  · refine ⟨hfwd.msgType, ?_⟩
    rw [hfwd.id]
    exact ⟨j, t, ht, hfwd.replyTo, hfwd.index, hfwd.key⟩

theorem tame_lookUp (hm : R.m ≤ 30) (h : IdealNode R i n) {t : Nat} (ht : t < R.m) :
    Tame (IdealPacket R) (anyTask i) (lookUp n t) := by
  unfold lookUp
  rw [h.starts t ht, R.start_new hm i ht, h.ip, h.port]
  exact tame_ideal_lookup h i ht

theorem stabilize_ideal (h : IdealNode R i n) :
    n.stabilize.1 = n ∧ ∀ e ∈ n.stabilize.2, Tame (IdealPacket R) (anyTask i) e := by
  rw [stabilize_eq, adopt_ideal h]
  refine ⟨rfl, ?_⟩
  intro e he
  rcases List.mem_cons.mp he with rfl | he
  · exact ⟨rfl, trivial⟩
  · split at he
    · next hne =>
        rw [List.mem_singleton.mp he]
        obtain ⟨j, hnext, hj⟩ := h.pointsNext
        rw [successor_of_peer hj, h.id] at hne
        have hji : j ≠ i := fun heq => hne (by rw [heq])
        refine ⟨rfl, j, i, hji, ?_, hnext, ?_⟩
        · exact Prod.ext (congrArg PeerPair.ip hj) (congrArg PeerPair.port hj)
        · show (⟨n.nodeIp, n.port, n.id⟩ : PeerPair) = _
          rw [h.ip, h.port, h.id]
          rfl
    · cases he

theorem fixFingers_ideal (hm : R.m ≤ 30) (h : IdealNode R i n) :
    n.fixFingers.1 = n ∧ ∀ e ∈ n.fixFingers.2, Tame (IdealPacket R) (anyTask i) e := by
  refine fixFingers_induct
    (P := fun n' es => n' = n ∧ ∀ e ∈ es, Tame (IdealPacket R) (anyTask i) e)
    ⟨rfl, ?_⟩ ?_ ?_
  · intro e he
    rw [List.mem_singleton.mp he]
    exact tame_lookUp hm h R.bits_pos
  · rintro n' es t ht ⟨rfl, hes⟩ hin
    rw [h.m] at ht
    exact ⟨setFinger_eq_self (copy_ideal hm h ht hin), hes⟩
  · rintro n' es t ht ⟨rfl, hes⟩ _
    rw [h.m] at ht
    refine ⟨rfl, ?_⟩
    intro e he
    rcases List.mem_append.mp he with he | he
    · exact hes e he
    · rw [List.mem_singleton.mp he]
      exact tame_lookUp hm h ht

/-- Receiving changes at most what `AtRest` leaves open. -/
theorem receive_ideal {nodes : ι → DAENode} (h : AtRest R nodes i n)
    {p : AnonymousPacket} (hp : IdealPacket R p) (hdest : p.dest = R.addr i) :
    Keeps (AtRest R nodes) (IdealPacket R) anyTask i (n.receive p) := by
  obtain ⟨hn, hold⟩ := h
  have hsame : ∀ {n'}, n' = n → AtRest R nodes i n' := fun he => he ▸ ⟨hn, hold⟩
  have hnil : ∀ e ∈ ([] : List Effect), Tame (IdealPacket R) (anyTask i) e :=
    fun e he => by cases he
  obtain ⟨hint, hp⟩ := hp
  have hrecv := receives (n := n) hint
  generalize n.receive p = r at hrecv
  cases hrecv with
  | lookup hid =>
      rw [hid] at hp
      obtain ⟨j, t, ht, hrep, hidx, hkey⟩ := hp
      refine ⟨hsame rfl, ?_⟩
      intro e he
      rw [List.mem_singleton.mp he, hrep, hidx, hkey]
      exact tame_ideal_lookup hn j ht
  | found hid =>
      rw [hid] at hp
      obtain ⟨j, t, ht, hto, hidx, l, hl, hkey⟩ := hp
      have hji : j = i := R.addr_inj (hto.symm.trans hdest)
      subst hji
      obtain ⟨l', hl', hpeer⟩ := hn.finger t ht
      refine ⟨hsame (setFinger_eq_self ?_), hnil⟩
      rw [hidx, hpeer, hkey, R.isSucc_unique (R.start_lt _ t) hl' hl]
  | asked hid =>
      refine ⟨hsame rfl, ?_⟩
      intro e he
      rw [List.mem_singleton.mp he]
      refine ⟨rfl, ?_⟩
      rcases hn.predecessor with ⟨_, hno⟩ | ⟨_, j, _, hj⟩
      · exact Or.inl hno
      · exact Or.inr ⟨j, hj.symm⟩
  | told hid =>
      rw [hid] at hp
      refine ⟨⟨{ hn with
        toOwns := ⟨hn.m, hn.id, hn.ip, hn.port⟩
        ofSuccessor := hp }, hold.fingerTable, hold.predecessor⟩, hnil⟩
  | notified hid =>
      rw [hid] at hp
      obtain ⟨j, l, hjl, hto, hnext, hpeer⟩ := hp
      have hji : j = i := R.addr_inj (hto.symm.trans hdest)
      subst hji
      refine ⟨hsame ?_, hnil⟩
      rw [show p.header.keyId = R.id l from congrArg PeerPair.relayId hpeer]
      exact notify_ideal hn hjl hnext _ _
  | fetch hid =>
      refine ⟨hsame rfl, ?_⟩
      intro e he
      rcases List.mem_cons.mp he with rfl | he
      · exact ⟨rfl, trivial⟩
      · split at he
        · rw [List.mem_singleton.mp he]
          exact ⟨rfl, trivial⟩
        · cases he
  | backup hid =>
      refine ⟨?_, hnil⟩
      unfold DAENode.handleReplySuccessorList
      split
      · exact ⟨{ hn with toOwns := ⟨hn.m, hn.id, hn.ip, hn.port⟩ },
          hold.fingerTable, hold.predecessor⟩
      · exact hsame rfl
  | checked id hid =>
      refine ⟨hsame rfl, ?_⟩
      intro e he
      rw [List.mem_singleton.mp he]
      rcases hid with rfl | rfl <;> exact ⟨rfl, trivial⟩
  | alive _ _ =>
      exact ⟨⟨{ hn with toOwns := ⟨hn.m, hn.id, hn.ip, hn.port⟩ },
        hold.fingerTable, hold.predecessor⟩, hnil⟩

/-! ## Runs -/

theorem steady_upkeep (a : Act ι) (h : a.Steady = true) : a.Upkeep = true := by
  cases a <;> first | rfl | cases h

theorem fires_ideal (hm : R.m ≤ 30) {nodes : ι → DAENode} {s : System ι}
    {a : Act ι} {i : ι} {f : DAENode → DAENode × List Effect}
    {net : List AnonymousPacket} (ha : a.Steady = true)
    (hs : Holds R.cfg (AtRest R nodes) (IdealPacket R) anyTask s)
    (hf : Fires s a i f net) :
    Keeps (AtRest R nodes) (IdealPacket R) anyTask i (f (s.nodes i)) := by
  have hnode := hs.node i
  cases hf with
  | stabilize _ =>
      obtain ⟨hsame, htame⟩ := stabilize_ideal hnode.1
      refine ⟨?_, htame⟩
      rw [hsame]
      exact hnode
  | fixFingers _ =>
      obtain ⟨hsame, htame⟩ := fixFingers_ideal hm hnode.1
      refine ⟨?_, htame⟩
      rw [hsame]
      exact hnode
  | fetchSuccessorList _ =>
      refine ⟨hnode, ?_⟩
      intro e he
      rw [List.mem_singleton.mp he]
      exact ⟨rfl, trivial⟩
  | deliver hk hdest =>
      refine receive_ideal hnode (hs.net _ (List.mem_of_getElem? hk)) ?_
      rw [hdest, Relay.addr, hs.cfg i]
      rfl
  | join _ => cases ha
  | checkPredecessorFailure _ => cases ha
  | checkSuccessorFailure _ => cases ha
  | runTask _ => cases ha

variable [DecidableEq ι]

/-- A correct ring stays correct: from an ideal state with nothing in flight no
run of `stabilize`, `fix_fingers` and `fetch_successor_list`, under delivery in
any order, loss and duplication, changes a finger or a predecessor. -/
theorem ideal_stable (hm : R.m ≤ 30) {s : System ι}
    (hcfg : ∀ i, (s.relays i).cfg = R.cfg i)
    (hideal : ∀ i, IdealNode R i (s.nodes i)) (hnet : s.net = [])
    (acts : List (Act ι)) (hacts : ∀ a ∈ acts, a.Steady = true) (i : ι) :
    ((s.run acts).nodes i).fingerTable = (s.nodes i).fingerTable ∧
      ((s.run acts).nodes i).predecessor = (s.nodes i).predecessor ∧
      ((s.run acts).nodes i).predecessorIp = (s.nodes i).predecessorIp ∧
      ((s.run acts).nodes i).predecessorPort = (s.nodes i).predecessorPort := by
  have hstart : Holds R.cfg (AtRest R s.nodes) (IdealPacket R) anyTask s :=
    { cfg := hcfg
      node := fun i => ⟨hideal i, rfl, rfl⟩
      net := by rw [hnet]; exact fun p hp => by cases hp
      task := fun _ _ _ => trivial }
  have hend := run_holds (fun a => a.Steady = true) steady_upkeep
    (fun _ _ _ _ _ ha hs hf => fires_ideal hm ha hs hf) acts hacts s hstart
  obtain ⟨_, hft, hpred⟩ := hend.node i
  exact ⟨hft, congrArg PeerPair.relayId hpred, congrArg PeerPair.ip hpred,
    congrArg PeerPair.port hpred⟩

/-- The two nodes of the small ring, each the other's successor and
predecessor. -/
def pairIdeal : System (Fin 2) where
  relays := fun i =>
    { Relay.new (pairRoster.cfg i) with
      node := (pairNodes i).setpredecessor (pairRoster.id (1 - i)) "10.22.1.16"
        (3010 + (1 - i).val) }
  net := []

theorem pairIdeal_ideal (i : Fin 2) :
    IdealNode pairRoster i (pairIdeal.nodes i) where
  toOwns := ⟨rfl, rfl, rfl, rfl⟩
  starts := fun t _ => by simp [pairIdeal, System.nodes, pairNodes,
    DAENode.setpredecessor]
  finger := by
    intro t ht
    have h0 : t = 0 := Nat.lt_one_iff.mp ht
    subst h0
    refine ⟨1 - i, ?_, rfl⟩
    unfold Roster.IsSucc
    revert i
    decide
  predecessor := by
    refine Or.inr ⟨?_, 1 - i, ?_, rfl⟩
    · revert i
      decide
    · unfold Roster.IsNext
      revert i
      decide
  ofSuccessor := Or.inl rfl

theorem ideal_stable_pair :
    ((pairIdeal.run [.stabilize 0, .fixFingers 1, .duplicate 0, .deliver 1 0,
      .lose 0]).nodes 1).fingerTable = (pairIdeal.nodes 1).fingerTable :=
  (ideal_stable (by decide) (fun _ => rfl) pairIdeal_ideal rfl _ (by decide) 1).1

end Daenet.Proofs
