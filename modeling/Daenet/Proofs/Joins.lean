import Daenet.Lib.Runs
import Daenet.Lib.Walk
import Daenet.Proofs.Overwrite
import Daenet.Proofs.Rendezvous
import Daenet.Proofs.Steps

/-!
# Joining one at a time keeps one ring

The runs of this file are stepwise: `join` and the timers of a node fire when
nothing is in flight, and what they send is delivered, in any order, before the
next one. `join` is the whole of it: the request to the bootstrap node goes out
together with the questions of `stabilize`, `fix_fingers` and
`fetch_successor_list`, and their answers may overtake one another.

That is too much freedom. The newcomer's own `fix_fingers` is answered by the
newcomer itself, with itself, and if this answer is the later one the node has
joined and left again: `ring_splits`. The condition is the one under which a
successor pointer only moves closer, `Calm`, and here it speaks about one
delivery only, that of an answer that changes a first finger.

The textbook invariant of such a ring speaks about who a predecessor may be,
and `stabilize` here adopts the answer of an earlier round, possibly of a
former successor. What carries the proof instead is that nobody's arc jumps
over the node everybody joined through: the successor of a member is met, going
clockwise, no later than the bootstrap node (`RingNode.below`). A joining node
inherits this from the member that answered it, and `stabilize` only shortens
arcs. Seen from the bootstrap node the successor map then climbs until it comes
home, which is all `Climbs` asks for.
-/

namespace Daenet.Proofs

open Daenet.Lib Daenet.Ref Daenet.Spec

variable {ι : Type} {R : Roster ι} {J : Set ι} {b i : ι} {n : DAENode}

/-- A step of a failure-free run with the failure checks off: what a node does
on its own it does when nothing is in flight. -/
def Stepwise (s : System ι) : Act ι → Prop
  | .join _ => s.net = []
  | .stabilize _ => s.net = []
  | .fixFingers _ => s.net = []
  | .fetchSuccessorList _ => s.net = []
  | .runTask _ _ => s.net = []
  | .deliver _ _ => True
  | _ => False

instance Stepwise.decide (s : System ι) : ∀ a, Decidable (Stepwise s a)
  | .join _ => inferInstanceAs (Decidable (s.net = []))
  | .stabilize _ => inferInstanceAs (Decidable (s.net = []))
  | .fixFingers _ => inferInstanceAs (Decidable (s.net = []))
  | .fetchSuccessorList _ => inferInstanceAs (Decidable (s.net = []))
  | .runTask _ _ => inferInstanceAs (Decidable (s.net = []))
  | .deliver _ _ => .isTrue trivial
  | .checkPredecessorFailure _ => .isFalse id
  | .checkSuccessorFailure _ => .isFalse id
  | .lose _ => .isFalse id
  | .duplicate _ => .isFalse id
  | .send _ _ _ => .isFalse id
  | .sendBatch _ _ _ _ => .isFalse id

/-- Every node joins through node `b`. -/
def JoinThrough (R : Roster ι) (b : ι) : Prop :=
  ∀ i, ((R.cfg i).initPeers.ip, (R.cfg i).initPeers.port) = R.addr b

/-- The step hands node `i` an answer for its first finger that names another
node. Nothing in an answer tells a join from another lookup, but until the join
is answered a node's own lookups find the node itself. -/
def JoinReplied (s : System ι) (a : Act ι) (i : ι) : Prop :=
  ∃ k p, a = .deliver i k ∧ s.net[k]? = some p ∧ p.dest = (s.relays i).addr ∧
    p.header.msgType = true ∧ p.header.id = .internalReplyFindSuccessor ∧
    p.header.index = 0 ∧ p.header.keyId ≠ (s.nodes i).id

/-- The nodes that receive their join reply in a run. -/
def joinedIn [DecidableEq ι] : System ι → List (Act ι) → Set ι
  | _, [] => ∅
  | s, a :: acts => {i | JoinReplied s a i} ∪ joinedIn (s.step a) acts

/-- The successors of the members form one cycle, through `b`, that goes
clockwise and round the ring exactly once, and from every member it is
reached. -/
def OneRing (R : Roster ι) (b : ι) (J : Set ι) (s : System ι) : Prop :=
  ∃ next : ι → ι,
    (∀ i ∈ J, next i ∈ J ∧ ((s.nodes i).fingerTable 0).peer = R.peer (next i)) ∧
    ∃ L, 0 < L ∧ next^[L] b = b ∧
      (∀ k l, k < l → l < L →
        cw R.size (R.id b) (R.id (next^[k] b)) <
          cw R.size (R.id b) (R.id (next^[l] b))) ∧
      ∑ k ∈ Finset.range L,
        span R.size (R.id (next^[k] b)) (R.id (next^[k + 1] b)) = 2 ^ R.m ∧
      (∀ i ∈ J, ∃ k, next^[k] i = b) ∧
      ∀ i ∈ J, ∀ k, 0 < k → next^[k] i = i → ∃ l < L, next^[l] b = i

/-! ## What nodes and packets know -/

/-- Whom a node can have heard of: itself, and if it is a member the members. -/
def Mate (J : Set ι) (i j : ι) : Prop := j = i ∨ (i ∈ J ∧ j ∈ J)

theorem Mate.refl (i : ι) : Mate J i i := Or.inl rfl

theorem Mate.trans {i j l : ι} (hij : Mate J i j) (hjl : Mate J j l) :
    Mate J i l := by
  rcases hij with rfl | ⟨hi, hj⟩
  · exact hjl
  · rcases hjl with rfl | ⟨_, hl⟩
    · exact Or.inr ⟨hi, hj⟩
    · exact Or.inr ⟨hi, hl⟩

theorem Mate.symm {i j : ι} (h : Mate J i j) : Mate J j i := by
  rcases h with rfl | ⟨hi, hj⟩
  · exact Mate.refl _
  · exact Or.inr ⟨hj, hi⟩

theorem Mate.mono {J' : Set ι} {i j : ι} (hJ : J ⊆ J') (h : Mate J i j) :
    Mate J' i j := by
  rcases h with rfl | ⟨hi, hj⟩
  · exact Mate.refl _
  · exact Or.inr ⟨hJ hi, hJ hj⟩

theorem Mate.mem {i j : ι} (h : Mate J i j) (hi : i ∈ J) : j ∈ J := by
  rcases h with rfl | ⟨_, hj⟩
  · exact hi
  · exact hj

/-- A triple that is the one of a mate of `i`. -/
def Known (R : Roster ι) (J : Set ι) (i : ι) (t : PeerPair) : Prop :=
  ∃ j, Mate J i j ∧ t = R.peer j

/-- A node knows mates only. -/
structure MateNode (R : Roster ι) (J : Set ι) (i : ι) (n : DAENode) : Prop
    extends R.Owns i n where
  starts : R.Starts i n
  finger : ∀ t < R.m, Known R J i (n.fingerTable t).peer
  predecessor : n.predecessor = noId ∨
    ∃ j, Mate J i j ∧ j ≠ i ∧ n.predecessorPeer = R.peer j
  ofSuccessor : n.predecessorOfSuccessor = noId ∨ Known R J i n.ofSuccessorPeer

/-- And the arc of a member does not jump over the bootstrap node. -/
structure RingNode (R : Roster ι) (b : ι) (J : Set ι) (i : ι) (n : DAENode) :
    Prop extends MateNode R J i n where
  below : i ∈ J →
    span R.size (R.id i) n.successor ≤ span R.size (R.id i) (R.id b)

/-- What is in flight between members; `su` are the successors of this moment,
and a reply for the first finger carries no other. -/
def RingPacket (R : Roster ι) (J : Set ι) (su : ι → PeerPair)
    (p : AnonymousPacket) : Prop :=
  p.header.msgType = true ∧
  match p.header.id with
  | .internalJoinFindSuccessor =>
      ∃ i j, p.replyTo = R.addr i ∧ p.dest = R.addr j ∧ Mate J i j ∧
        p.header.keyId < R.size ∧
        ∃ t : Nat, 0 < t ∧ t < R.m ∧ p.header.index = t
  | .internalReplyFindSuccessor =>
      ∃ i, p.dest = R.addr i ∧ Known R J i p.keyPeer ∧
        ∃ t : Nat, t < R.m ∧ p.header.index = t ∧ (t = 0 → p.keyPeer = su i)
  | .internalFindPredecessor =>
      ∃ i j, p.replyTo = R.addr i ∧ p.dest = R.addr j ∧ Mate J i j
  | .internalReplyGetPredecessor =>
      ∃ i, p.dest = R.addr i ∧ (p.header.keyId = noId ∨ Known R J i p.keyPeer)
  | .internalNotifyPredecessorJoin =>
      ∃ i j, p.dest = R.addr i ∧ p.notifier = R.peer j ∧ Mate J i j ∧ j ≠ i
  | _ => True

/-- The one task there is: a member that asked to join will check again. -/
def RetryOnly (b : ι) (J : Set ι) (i : ι) (t : Task) : Prop :=
  t = .joinRetry ∧ i ∈ J ∧ i ≠ b

/-- The node half of the invariant while a call is being served. -/
def Serving (R : Roster ι) (b : ι) (J : Set ι) (su : ι → PeerPair) (i : ι)
    (n : DAENode) : Prop :=
  RingNode R b J i n ∧ (n.fingerTable 0).peer = su i

namespace MateNode

theorem live (h : MateNode R J i n) : R.Live n := by
  intro t ht
  obtain ⟨j, _, hj⟩ := h.finger t ht
  exact ⟨j, hj.symm⟩

theorem successor_known (h : MateNode R J i n) :
    ∃ j, Mate J i j ∧ (n.fingerTable 0).peer = R.peer j := h.finger 0 R.bits_pos

theorem mono (h : MateNode R J i n) {J' : Set ι} (hJ : J ⊆ J') :
    MateNode R J' i n where
  toOwns := h.toOwns
  starts := h.starts
  finger := by
    intro t ht
    obtain ⟨j, hj, hpeer⟩ := h.finger t ht
    exact ⟨j, hj.mono hJ, hpeer⟩
  predecessor := by
    rcases h.predecessor with hno | ⟨j, hj, hne, hpeer⟩
    · exact Or.inl hno
    · exact Or.inr ⟨j, hj.mono hJ, hne, hpeer⟩
  ofSuccessor := by
    rcases h.ofSuccessor with hno | ⟨j, hj, hpeer⟩
    · exact Or.inl hno
    · exact Or.inr ⟨j, hj.mono hJ, hpeer⟩

theorem setFinger (h : MateNode R J i n) {t : Nat} {q : PeerPair}
    (hq : Known R J i q) : MateNode R J i (n.setFinger t q) where
  toOwns := ⟨h.m, h.id, h.ip, h.port⟩
  starts := by
    intro u hu
    rw [DAENode.setFinger_start]
    exact h.starts u hu
  finger := by
    intro u hu
    by_cases hut : (u : Int) = t
    · rw [hut, DAENode.setFinger_peer]
      exact hq
    · rw [DAENode.setFinger_of_ne n q hut]
      exact h.finger u hu
  predecessor := h.predecessor
  ofSuccessor := h.ofSuccessor

end MateNode

namespace RingNode

/-- A write to a finger other than the first. -/
theorem setFinger (h : RingNode R b J i n) {t : Nat} (ht : t ≠ 0) {q : PeerPair}
    (hq : Known R J i q) : RingNode R b J i (n.setFinger t q) where
  toMateNode := h.toMateNode.setFinger hq
  below := by
    rw [DAENode.successor, DAENode.setFinger_of_ne n q (by omega)]
    exact h.below

/-- A write to the first finger that does not jump. -/
theorem setSuccessor (h : MateNode R J i n) {j : ι} (hj : Mate J i j)
    (hbelow : span R.size (R.id i) (R.id j) ≤ span R.size (R.id i) (R.id b)) :
    RingNode R b J i (n.setFinger 0 (R.peer j)) where
  toMateNode := h.setFinger (t := 0) ⟨j, hj, rfl⟩
  below := by
    intro _
    rw [successor_of_peer (n.setFinger_peer 0 (R.peer j))]
    exact hbelow

/-- What `stabilize` adopts shortens the arc. -/
theorem adopt (h : RingNode R b J i n) : RingNode R b J i (Proofs.adopt n) := by
  unfold Proofs.adopt
  obtain ⟨j, _, hj⟩ := h.successor_known
  have hsucc : n.successor = R.id j := successor_of_peer hj
  split
  · next hin =>
      rcases h.ofSuccessor with hno | hknown
      · have hid : n.id < 2 ^ n.m := by rw [h.m, h.id]; exact R.id_lt i
        have hs : n.successor < 2 ^ n.m := by rw [h.m, hsucc]; exact R.id_lt j
        rw [hno, isInRange_noId (h.m ▸ R.bits_le) hid hs] at hin
        cases hin
      · obtain ⟨l, hl, hpeer⟩ := hknown
        have hpos : n.predecessorOfSuccessor = R.id l :=
          congrArg PeerPair.relayId hpeer
        rw [hsucc, hpos, inRange_iff h.toOwns (R.id_lt_size j) (R.id_lt_size l),
          between_iff_span] at hin
        rw [hpeer]
        refine ⟨h.toMateNode.setFinger (t := 0) ⟨l, hl, rfl⟩, fun hi => ?_⟩
        have hbelow := h.below hi
        rw [hsucc] at hbelow
        rw [successor_of_peer (n.setFinger_peer 0 (R.peer l))]
        omega
  · exact h

end RingNode

/-! ## Calls -/

/-- What a call answers with: a node of the ring, and packets that agree with
the successor it has then. -/
def CallOk (R : Roster ι) (b : ι) (J : Set ι) (i : ι)
    (r : DAENode × List Effect) : Prop :=
  RingNode R b J i r.1 ∧ ∀ su : ι → PeerPair, su i = (r.1.fingerTable 0).peer →
    ∀ e ∈ r.2, Tame (RingPacket R J su) (RetryOnly b J i) e

/-- A mate's lookup for another finger than the first. -/
theorem tame_mate_lookup (h : RingNode R b J i n) (su : ι → PeerPair) {l : ι}
    (hl : Mate J l i) {t : Nat} (hpos : 0 < t) (ht : t < R.m) {k : Nat}
    (hk : k < R.size) {U : Task → Prop} :
    Tame (RingPacket R J su) U
      (n.handleFindSuccessor (R.addr l).1 (R.addr l).2 t k) := by
  obtain ⟨p, hp, hcase⟩ := lookup_cases h.toOwns h.live hk (R.addr l).1
    (R.addr l).2 t
  have hzero : ∀ {P : Prop}, t = 0 → P := fun h0 => absurd h0 (by omega)
  rw [hp]
  rcases hcase with ⟨hrep, _, hkey⟩ | ⟨hrep, _, _, hkey⟩ |
    ⟨hfwd, _, j, hdest, _, u, hu, hfj⟩
  · refine ⟨hrep.msgType, ?_⟩
    rw [hrep.id]
    exact ⟨l, hrep.dest, ⟨i, hl, hkey⟩, t, ht, hrep.index, hzero⟩
  · refine ⟨hrep.msgType, ?_⟩
    rw [hrep.id]
    obtain ⟨j, hj, hpeer⟩ := h.successor_known
    exact ⟨l, hrep.dest, ⟨j, hl.trans hj, hkey.trans hpeer⟩, t, ht, hrep.index,
      hzero⟩
  · refine ⟨hfwd.msgType, ?_⟩
    rw [hfwd.id]
    obtain ⟨j', hj', hpeer⟩ := h.finger u hu
    have hjj : j' = j := R.peer_inj (hpeer.symm.trans hfj)
    subst hjj
    exact ⟨l, j', hfwd.replyTo, hdest, hl.trans hj', hfwd.key ▸ hk, t, hpos, ht,
      hfwd.index⟩

/-- The lookup a node makes for one of its fingers. -/
theorem tame_own_lookUp (hm : R.m ≤ 30) (h : RingNode R b J i n)
    {su : ι → PeerPair} (hsu : su i = (n.fingerTable 0).peer) {t : Nat}
    (ht : t < R.m) {U : Task → Prop} :
    Tame (RingPacket R J su) U (lookUp n t) := by
  cases t with
  | zero =>
      obtain ⟨p, hp, hrep, hkey⟩ := lookUp_zero hm h.toOwns h.live h.starts
      rw [hp]
      refine ⟨hrep.msgType, ?_⟩
      rw [hrep.id]
      exact ⟨i, hrep.dest, hkey ▸ h.finger 0 ht, 0, ht, hrep.index,
        fun _ => hkey.trans hsu.symm⟩
  | succ t =>
      unfold lookUp
      rw [h.starts _ ht, R.start_new hm i ht, h.ip, h.port]
      exact tame_mate_lookup h su (Mate.refl i) (Nat.succ_pos t) ht (R.start_lt i _)

theorem stabilize_call (h : RingNode R b J i n) : CallOk R b J i n.stabilize := by
  rw [stabilize_eq]
  refine ⟨h.adopt, ?_⟩
  intro su _ e he
  rcases List.mem_cons.mp he with rfl | he
  · obtain ⟨j, hj, hpeer⟩ := h.successor_known
    refine ⟨rfl, i, j, ?_, ?_, hj⟩
    · exact Prod.ext h.ip h.port
    · exact Prod.ext (congrArg PeerPair.ip hpeer) (congrArg PeerPair.port hpeer)
  · split at he
    · next hne =>
        rw [List.mem_singleton.mp he]
        obtain ⟨j, hj, hpeer⟩ := h.adopt.successor_known
        rw [successor_of_peer hpeer, h.adopt.id] at hne
        have hij : i ≠ j := fun heq => hne (by rw [heq])
        refine ⟨rfl, j, i, ?_, ?_, hj.symm, hij⟩
        · exact Prod.ext (congrArg PeerPair.ip hpeer) (congrArg PeerPair.port hpeer)
        · show (⟨(Proofs.adopt n).nodeIp, (Proofs.adopt n).port,
            (Proofs.adopt n).id⟩ : PeerPair) = _
          rw [h.adopt.ip, h.adopt.port, h.adopt.id]
          rfl
    · cases he

theorem fixFingers_call (hm : R.m ≤ 30) (h : RingNode R b J i n) :
    CallOk R b J i n.fixFingers ∧
      n.fixFingers.1.fingerTable 0 = n.fingerTable 0 := by
  -- The loop writes the fingers behind the first one only.
  have hinv := fixFingers_induct (n := n)
    (P := fun n' es => RingNode R b J i n' ∧ n'.fingerTable 0 = n.fingerTable 0 ∧
      ∀ su : ι → PeerPair, su i = (n.fingerTable 0).peer →
        ∀ e ∈ es, Tame (RingPacket R J su) (RetryOnly b J i) e)
    ⟨h, rfl, ?_⟩ ?_ ?_
  · obtain ⟨hnode, hzero, htame⟩ := hinv
    exact ⟨⟨hnode, fun su hsu => htame su (hsu.trans (congrArg _ hzero))⟩, hzero⟩
  · intro su hsu e he
    rw [List.mem_singleton.mp he]
    exact tame_own_lookUp hm h hsu R.bits_pos
  · rintro n' es t ht ⟨hnode, hzero, htame⟩ _
    rw [h.m] at ht
    refine ⟨hnode.setFinger (by omega) (hnode.finger t (by omega)), ?_, htame⟩
    rw [DAENode.setFinger_of_ne _ _ (by omega)]
    exact hzero
  · rintro n' es t ht ⟨hnode, hzero, htame⟩ _
    rw [h.m] at ht
    refine ⟨hnode, hzero, ?_⟩
    intro su hsu e he
    rcases List.mem_append.mp he with he | he
    · exact htame su hsu e he
    · rw [List.mem_singleton.mp he]
      exact tame_own_lookUp hm hnode (hsu.trans (congrArg _ hzero.symm)) ht

theorem fetchSuccessorList_call (h : RingNode R b J i n) :
    CallOk R b J i (n, n.fetchSuccessorList) := by
  refine ⟨h, ?_⟩
  intro su _ e he
  rw [List.mem_singleton.mp he]
  exact ⟨rfl, trivial⟩

/-- What `join` does beside asking for help. -/
theorem upkeep_call (hm : R.m ≤ 30) (h : RingNode R b J i n) :
    CallOk R b J i (n.stabilize.1.fixFingers.1, n.stabilize.2 ++
      n.stabilize.1.fixFingers.2 ++ n.stabilize.1.fixFingers.1.fetchSuccessorList) := by
  obtain ⟨hstab, hstabSent⟩ := stabilize_call h
  obtain ⟨⟨hfix, hfixSent⟩, hzero⟩ := fixFingers_call hm hstab
  obtain ⟨_, hfetchSent⟩ := fetchSuccessorList_call hfix
  refine ⟨hfix, ?_⟩
  intro su hsu e he
  rcases List.mem_append.mp he with he | he
  · rcases List.mem_append.mp he with he | he
    · exact hstabSent su (hsu.trans (congrArg _ hzero)) e he
    · exact hfixSent su hsu e he
  · exact hfetchSent su hsu e he

/-- A member that has joined is not its own successor, so its retry timer does
nothing. -/
theorem retry_call (h : RingNode R b J i n) (hi : i ∈ J) (hib : i ≠ b)
    (peer : PeerPair) : CallOk R b J i (n.runTask peer .joinRetry) := by
  refine ⟨h, ?_⟩
  intro su _ e he
  have hne : (n.fingerTable 0).successor ≠ n.id := by
    intro heq
    have hbelow := h.below hi
    rw [DAENode.successor, heq, h.id, span_self, span_of_ne (R.id_ne hib)] at hbelow
    have hlt := cw_lt (R.id_lt_size i) (R.id_lt_size b)
    omega
  simp only [DAENode.runTask, if_neg hne] at he
  cases he

/-! ## Deliveries -/

theorem receive_serving {su : ι → PeerPair} (h : Serving R b J su i n)
    {p : AnonymousPacket} (hp : RingPacket R J su p) (hdest : p.dest = R.addr i) :
    Keeps (Serving R b J su) (RingPacket R J su) (RetryOnly b J) i (n.receive p) := by
  obtain ⟨hn, hsu⟩ := h
  have hnil : ∀ e ∈ ([] : List Effect),
      Tame (RingPacket R J su) (RetryOnly b J i) e := fun e he => by cases he
  obtain ⟨hint, hp⟩ := hp
  have hrecv := receives (n := n) hint
  generalize n.receive p = r at hrecv
  cases hrecv with
  | lookup hid =>
      rw [hid] at hp
      obtain ⟨l, j, hrep, hto, hmate, hkey, t, hpos, ht, hidx⟩ := hp
      have hji : j = i := R.addr_inj (hto.symm.trans hdest)
      subst hji
      refine ⟨⟨hn, hsu⟩, ?_⟩
      intro e he
      rw [List.mem_singleton.mp he, hrep, hidx]
      exact tame_mate_lookup hn su hmate hpos ht hkey
  | found hid =>
      rw [hid] at hp
      obtain ⟨j, hto, hknown, t, ht, hidx, hzero⟩ := hp
      have hji : j = i := R.addr_inj (hto.symm.trans hdest)
      subst hji
      rw [hidx]
      by_cases ht0 : t = 0
      · -- The first finger is written with what it holds.
        subst ht0
        have hsame : n.setFinger (0 : Nat) p.keyPeer = n := by
          rw [hzero rfl, ← hsu]
          exact n.setFinger_self 0
        rw [hsame]
        exact ⟨⟨hn, hsu⟩, hnil⟩
      · refine ⟨⟨hn.setFinger ht0 hknown, ?_⟩, hnil⟩
        rw [DAENode.setFinger_of_ne _ _ (by omega)]
        exact hsu
  | asked hid =>
      rw [hid] at hp
      obtain ⟨l, j, hrep, hto, hmate⟩ := hp
      have hji : j = i := R.addr_inj (hto.symm.trans hdest)
      subst hji
      refine ⟨⟨hn, hsu⟩, ?_⟩
      intro e he
      rw [List.mem_singleton.mp he]
      refine ⟨rfl, l, hrep, ?_⟩
      rcases hn.predecessor with hno | ⟨u, hu, _, hpeer⟩
      · exact Or.inl hno
      · exact Or.inr ⟨u, hmate.trans hu, hpeer⟩
  | told hid =>
      rw [hid] at hp
      obtain ⟨j, hto, hknown⟩ := hp
      have hji : j = i := R.addr_inj (hto.symm.trans hdest)
      subst hji
      exact ⟨⟨{ hn with
        toOwns := ⟨hn.m, hn.id, hn.ip, hn.port⟩
        ofSuccessor := hknown }, hsu⟩, hnil⟩
  | notified hid =>
      rw [hid] at hp
      obtain ⟨j, l, hto, hpeer, hmate, hne⟩ := hp
      have hji : j = i := R.addr_inj (hto.symm.trans hdest)
      subst hji
      refine ⟨?_, hnil⟩
      unfold DAENode.notify
      split
      · exact ⟨{ hn with
          toOwns := ⟨hn.m, hn.id, hn.ip, hn.port⟩
          predecessor := Or.inr ⟨l, hmate, hne, hpeer⟩ }, hsu⟩
      · exact ⟨hn, hsu⟩
  | fetch hid =>
      refine ⟨⟨hn, hsu⟩, ?_⟩
      intro e he
      rcases List.mem_cons.mp he with rfl | he
      · exact ⟨rfl, trivial⟩
      · split at he
        · rw [List.mem_singleton.mp he]
          exact ⟨rfl, trivial⟩
        · cases he
  | backup hid =>
      refine ⟨?_, hnil⟩
      unfold DAENode.handleReplySuccessorList
      split
      · exact ⟨{ hn with toOwns := ⟨hn.m, hn.id, hn.ip, hn.port⟩ }, hsu⟩
      · exact ⟨hn, hsu⟩
  | checked id hid =>
      refine ⟨⟨hn, hsu⟩, ?_⟩
      intro e he
      rw [List.mem_singleton.mp he]
      rcases hid with rfl | rfl <;> exact ⟨rfl, trivial⟩
  | alive _ _ =>
      exact ⟨⟨{ hn with toOwns := ⟨hn.m, hn.id, hn.ip, hn.port⟩ }, hsu⟩, hnil⟩

/-! ## Runs -/

/-- The request of a joining node in the hands of a member, or the answer to
it. -/
def JoinPacket (R : Roster ι) (b : ι) (J : Set ι) (i : ι) (p : AnonymousPacket) :
    Prop :=
  (IsForward (R.addr i) 0 (R.id i) p ∧ ∃ j ∈ J, p.dest = R.addr j) ∨
  (IsReply (R.addr i) 0 p ∧ ∃ j ∈ J, p.keyPeer = R.peer j ∧
    span R.size (R.id i) (R.id j) ≤ span R.size (R.id i) (R.id b))

/-- The invariant while nobody is joining. -/
def RingState (R : Roster ι) (b : ι) (J : Set ι) (s : System ι) : Prop :=
  ∃ su, Holds R.cfg (Serving R b J su) (RingPacket R J su) (RetryOnly b J) s

/-- The invariant while node `i` waits to join: among what is in flight there is
its request or the answer. -/
structure Waiting (R : Roster ι) (b : ι) (J : Set ι) (i : ι) (s : System ι) :
    Prop where
  ring : ∃ su, Holds R.cfg (Serving R b J su)
    (fun p => RingPacket R J su p ∨ JoinPacket R b J i p)
    (RetryOnly b (insert i J)) s
  asking : ∃ p ∈ s.net, JoinPacket R b J i p
  started : (s.relays i).started = true

/-- The invariant of calm stepwise runs in which the nodes of `J` have received
their join reply. -/
structure Growing (R : Roster ι) (b : ι) (J : Set ι) (s : System ι) : Prop where
  boot : b ∈ J
  started : ∀ i ∈ J, i ≠ b → (s.relays i).started = true
  phase : RingState R b J s ∨ ∃ i, i ∉ J ∧ Waiting R b J i s

theorem RetryOnly.mono {J' : Set ι} (hJ : J ⊆ J') {t : Task}
    (h : RetryOnly b J i t) : RetryOnly b J' i t :=
  ⟨h.1, hJ h.2.1, h.2.2⟩

theorem Tame.mono {Q Q' : AnonymousPacket → Prop} {T T' : Task → Prop} {e : Effect}
    (hQ : ∀ p, Q p → Q' p) (hT : ∀ t, T t → T' t) (h : Tame Q T e) :
    Tame Q' T' e := by
  cases e with
  | directSend p => exact hQ p h
  | safeSend p => exact h
  | schedule t => exact hT t h

theorem Growing.node {s : System ι} (h : Growing R b J s) (i : ι) :
    RingNode R b J i (s.nodes i) := by
  rcases h.phase with ⟨_, hs⟩ | ⟨_, _, ⟨_, hs⟩, _⟩
  · exact (hs.node i).1
  · exact (hs.node i).1

theorem Growing.cfg {s : System ι} (h : Growing R b J s) (i : ι) :
    (s.relays i).cfg = R.cfg i := by
  rcases h.phase with ⟨_, hs⟩ | ⟨_, _, ⟨_, hs⟩, _⟩
  · exact hs.cfg i
  · exact hs.cfg i

theorem init_growing : Growing R b {b} (System.init R.cfg) := by
  refine ⟨rfl, fun i hi hne => absurd hi hne, Or.inl ⟨R.peer, fun _ => rfl, ?_,
    fun p hp => (by cases hp), fun _ t ht => (by cases ht)⟩⟩
  intro i
  refine ⟨⟨⟨R.owns_new i, fun _ _ => rfl, fun _ _ => ⟨i, Mate.refl i, rfl⟩,
    Or.inl rfl, Or.inl rfl⟩, ?_⟩, rfl⟩
  rintro rfl
  exact Nat.le_refl _

/-- The one packet `join_with_help` sends: a request to the helper. -/
theorem sent_joinWithHelp (n : DAENode) (peer : PeerPair) :
    ∃ p, n.joinWithHelp peer = [.directSend p, .schedule .joinRetry] ∧
      IsForward (n.nodeIp, n.port) 0 n.id p ∧ p.dest = (peer.ip, peer.port) :=
  ⟨_, rfl, ⟨rfl, rfl, rfl, rfl, rfl⟩, rfl⟩

/-- A packet between members names the node it is delivered to, or a member is
told. -/
theorem RingPacket.names_mate {su : ι → PeerPair} {p : AnonymousPacket}
    (h : RingPacket R J su p) (hid : p.header.id = .internalReplyFindSuccessor)
    (hdest : p.dest = R.addr i) (hkey : p.header.keyId ≠ R.id i) : i ∈ J := by
  obtain ⟨_, hp⟩ := h
  rw [hid] at hp
  obtain ⟨j, hto, ⟨l, hl, hpeer⟩, _⟩ := hp
  have hji : j = i := R.addr_inj (hto.symm.trans hdest)
  subst hji
  rcases hl with rfl | ⟨hj, _⟩
  · exact absurd (congrArg PeerPair.relayId hpeer) hkey
  · exact hj

/-- A member answers a joining node with a successor that does not jump over
the bootstrap node, or passes the request to a member. -/
theorem tame_join {j : ι} {n : DAENode} (h : RingNode R b J j n) (hj : j ∈ J)
    (hi : i ∉ J) :
    ∃ p, n.handleFindSuccessor (R.addr i).1 (R.addr i).2 0 (R.id i) =
        .directSend p ∧ JoinPacket R b J i p := by
  obtain ⟨p, hp, hcase⟩ := lookup_cases h.toOwns h.live (R.id_lt_size i)
    (R.addr i).1 (R.addr i).2 0
  refine ⟨p, hp, ?_⟩
  rcases hcase with ⟨_, hid, _⟩ | ⟨hrep, _, harc, hkey⟩ |
    ⟨hfwd, _, l, hdest, _, u, hu, hfl⟩
  · rw [h.id, R.id_eq_iff] at hid
    exact absurd (hid ▸ hj) hi
  · obtain ⟨l, hl, hpeer⟩ := h.successor_known
    have hlJ : l ∈ J := hl.mem hj
    have hil : i ≠ l := fun heq => hi (heq ▸ hlJ)
    rw [successor_of_peer hpeer] at harc
    have hbelow := h.below hj
    rw [successor_of_peer hpeer] at hbelow
    refine Or.inr ⟨hrep, l, hlJ, hkey.trans hpeer, ?_⟩
    rcases harc with heq | hbtw
    · exact absurd (R.id_inj heq) hil
    · rw [span_of_ne (R.id_ne hil)]
      have hle := cw_le_of_between (R.id_lt_size j) (R.id_lt_size i)
        (R.id_lt_size l) (R.id_lt_size b) hbelow hbtw
      by_cases hib : i = b
      · rw [hib, span_self]
        exact Nat.le_of_lt (cw_lt (R.id_lt_size b) (R.id_lt_size l))
      · rw [span_of_ne (R.id_ne hib)]
        exact hle
  · obtain ⟨l', hl', hpeer⟩ := h.finger u hu
    have hll : l' = l := R.peer_inj (hpeer.symm.trans hfl)
    subst hll
    exact Or.inl ⟨hfwd, l', hl'.mem hj, hdest⟩

/-- What `join` makes of a node: its upkeep, and before it the request of a node
that does not join through itself. -/
theorem join_call (hm : R.m ≤ 30) (hn : RingNode R b J i n) (hb : b ∈ J)
    {peer : PeerPair} (hpeer : (peer.ip, peer.port) = R.addr b) :
    RingNode R b J i (n.join peer).1 ∧
    (i = b → CallOk R b J i (n.join peer)) ∧
    (i ∉ J →
      (∃ p ∈ (n.join peer).2.filterMap sent, JoinPacket R b J i p) ∧
      ∀ su : ι → PeerPair, su i = ((n.join peer).1.fingerTable 0).peer →
        ∀ e ∈ (n.join peer).2, Tame (fun p => RingPacket R J su p ∨ JoinPacket R b J i p)
          (RetryOnly b (insert i J) i) e) := by
  have hcall := upkeep_call hm hn
  have hhome : n.nodeIp = peer.ip ∧ n.port = peer.port ↔ i = b := by
    rw [hn.ip, hn.port, ← Prod.mk.injEq, hpeer]
    exact R.addr_inj.eq_iff
  refine ⟨hcall.1, ?_, ?_⟩
  · intro hib
    obtain ⟨hip, hport⟩ := hhome.mpr hib
    simp only [DAENode.join, hip, hport, ne_eq, not_true_eq_false, or_self, if_false,
      List.nil_append]
    exact hcall
  · intro hi
    have hib : i ≠ b := fun heq => hi (heq ▸ hb)
    have hask : n.nodeIp ≠ peer.ip ∨ n.port ≠ peer.port := by
      by_contra hnone
      rw [not_or, not_not, not_not] at hnone
      exact hib (hhome.mp hnone)
    obtain ⟨p, hhelp, hfwd, hdest⟩ := sent_joinWithHelp n peer
    have hp : JoinPacket R b J i p := by
      refine Or.inl ⟨?_, b, hb, hdest.trans hpeer⟩
      rw [hn.ip, hn.port, hn.id] at hfwd
      exact hfwd
    simp only [DAENode.join, if_pos hask, hhelp, List.append_assoc]
    refine ⟨⟨p, by simp [sent], hp⟩, ?_⟩
    intro su hsu e he
    rcases List.mem_append.mp he with he | he
    · rcases List.mem_cons.mp he with rfl | he
      · exact Or.inr hp
      · rw [List.mem_singleton.mp he]
        exact ⟨rfl, Set.mem_insert i J, hib⟩
    · rw [← List.append_assoc] at he
      exact (hcall.2 su hsu e he).mono (fun _ => Or.inl)
        (fun _ => RetryOnly.mono (Set.subset_insert i J))

theorem Growing.idle {s : System ι} (hg : Growing R b J s) (hnet : s.net = []) :
    RingState R b J s := by
  rcases hg.phase with hs | ⟨_, _, hw⟩
  · exact hs
  · obtain ⟨p, hp, _⟩ := hw.asking
    rw [hnet] at hp
    cases hp

theorem Growing.addr {s : System ι} (hg : Growing R b J s) (i : ι) :
    (s.relays i).addr = R.addr i := by
  rw [Relay.addr, hg.cfg i]
  rfl

/-- A packet between members tells no other node of its successor. -/
theorem joinReplied_ring {s : System ι} (hg : Growing R b J s) {su : ι → PeerPair} {k : Nat}
    {p : AnonymousPacket} (hk : s.net[k]? = some p) (hp : RingPacket R J su p) {i j : ι}
    (h : JoinReplied s (.deliver i k) j) : j ∈ J := by
  obtain ⟨k', p', ha, hk', hdest, _, hid, _, hkey⟩ := h
  injection ha with hij hkk
  subst hij hkk
  have hpp : p' = p := Option.some.inj (hk'.symm.trans hk)
  subst hpp
  rw [(hg.node i).id] at hkey
  exact hp.names_mate hid (hdest.trans (hg.addr i)) hkey

/-- The invariant makes one ring. -/
theorem Growing.oneRing {s : System ι} (hg : Growing R b J s) : OneRing R b J s := by
  choose next hnext using fun i => (hg.node i).successor_known
  have hbelow : ∀ i ∈ J, R.circle.arc i (next i) ≤ R.circle.arc i b := by
    intro i hi
    have := (hg.node i).below hi
    rw [successor_of_peer (hnext i).2] at this
    exact this
  -- Seen from the bootstrap node, the successor map of the members climbs.
  obtain ⟨hclimb, hup, hlast⟩ := Circle.climbs_of_below (C := R.circle)
    hg.boot (fun i hi => (hnext i).1.mem hi) hbelow
  refine ⟨next, fun i hi => ⟨(hnext i).1.mem hi, (hnext i).2⟩,
    Function.minimalPeriod next b, hclimb.period_pos,
    Function.iterate_minimalPeriod, fun k l hkl hl => hclimb.cycle_lt hkl hl, ?_, ?_,
    fun i hi k hk hper => hclimb.mem_cycle hi hk hper⟩
  · have hsum := hclimb.sum_cycle (w := fun i => R.circle.arc i (next i)) hup hlast
    simp only [Function.iterate_succ_apply']
    exact hsum
  · intro i hi
    obtain ⟨k, _, hk⟩ := hclimb.comes_home i hi
    exact ⟨k, hk⟩

section Steps

variable [DecidableEq ι] {s s' : System ι}

/-- A node does something on its own when nothing is in flight: the successors
are those it leaves, whatever else is allowed on the wire. -/
theorem call_after {su : ι → PeerPair} {Q : (ι → PeerPair) → AnonymousPacket → Prop}
    {T : ι → Task → Prop} {r : DAENode × List Effect}
    (hs : Holds R.cfg (Serving R b J su) (RingPacket R J su) (RetryOnly b J) s)
    (hafter : After s s' i r []) (hnode : RingNode R b J i r.1)
    (hsent : ∀ su : ι → PeerPair, su i = (r.1.fingerTable 0).peer →
      ∀ e ∈ r.2, Tame (Q su) (T i) e)
    (hT : ∀ j t, RetryOnly b J j t → T j t) :
    ∃ su, Holds R.cfg (Serving R b J su) (Q su) T s' := by
  refine ⟨fun j => ((s'.nodes j).fingerTable 0).peer,
    fun j => (hafter.cfg j).trans (hs.cfg j), ?_, ?_, ?_⟩
  · intro j
    refine ⟨?_, rfl⟩
    rw [hafter.nodes]
    by_cases hj : j = i
    · subst hj
      rw [Function.update_self]
      exact hnode
    · rw [Function.update_of_ne hj]
      exact (hs.node j).1
  · intro p hp
    rw [hafter.net, List.nil_append] at hp
    refine tame_sent (hsent _ ?_) p hp
    rw [hafter.nodes, Function.update_self]
  · intro j t ht
    rcases hafter.tasks j t ht with hold | ⟨rfl, hnew⟩
    · exact hT j t (hs.task j t hold)
    · exact tame_scheduled (hsent (fun _ => _) rfl) t hnew

/-- `join` when nothing is in flight. -/
theorem join_growing (hm : R.m ≤ 30) (hthrough : JoinThrough R b)
    (hg : Growing R b J s) (hnet : s.net = []) (i : ι) :
    Growing R b J (s.step (.join i)) := by
  by_cases hstart : (s.relays i).started = true
  · rw [show s.step (.join i) = s by simp only [System.step, System.join, if_pos hstart]]
    exact hg
  · obtain ⟨su, hs⟩ := hg.idle hnet
    have hpeer : ((s.relays i).cfg.initPeers.ip, (s.relays i).cfg.initPeers.port) =
        R.addr b := by
      rw [hs.cfg i]
      exact hthrough i
    obtain ⟨hnode, hboot, hnew⟩ := join_call hm (hs.node i).1 hg.boot hpeer
    have hfires := Fires.join (s := s) (i := i) (by simpa using hstart)
    -- A member other than the bootstrap node has been started already.
    have hcase : i = b ∨ i ∉ J := by
      by_cases hib : i = b
      · exact Or.inl hib
      · exact Or.inr fun hi => hstart (hg.started i hi hib)
    have hquiet : ∀ e ∈ ((s.nodes i).join (s.relays i).cfg.initPeers).2, Quiet e := by
      intro e he
      rcases hcase with hib | hi
      · exact ((hboot hib).2 (fun _ => _) rfl e he).quiet
      · exact ((hnew hi).2 (fun _ => _) rfl e he).quiet
    have hafter : After s (s.step (.join i)) i
        ((s.nodes i).join (s.relays i).cfg.initPeers) [] := by
      have := after_move s i { s.relays i with started := true } s.net
        (fun n => n.join (s.relays i).cfg.initPeers) rfl rfl (fun _ => rfl)
        (fun _ h => h) hquiet
      simp only [System.step, System.join, if_neg hstart]
      rwa [← hnet]
    have hstarted : ∀ j ∈ J, j ≠ b → ((s.step (.join i)).relays j).started = true :=
      fun j hj hjb => hafter.started j (hg.started j hj hjb)
    rcases hcase with hib | hi
    · exact ⟨hg.boot, hstarted, Or.inl (call_after hs hafter hnode (hboot hib).2
        (fun _ _ h => h))⟩
    · obtain ⟨⟨p, hp, hjoin⟩, hsent⟩ := hnew hi
      refine ⟨hg.boot, hstarted, Or.inr ⟨i, hi, ?_, ⟨p, ?_, hjoin⟩, join_started hquiet⟩⟩
      · exact call_after hs hafter hnode hsent
          (fun _ _ => RetryOnly.mono (Set.subset_insert i J))
      · rw [hafter.net]
        exact hp

/-- A timer that fires when nothing is in flight. -/
theorem call_growing (hg : Growing R b J s) (hnet : s.net = [])
    {a : Act ι} (hup : a.Upkeep = true) (hrel : a.Reliable = true)
    (hcall : ∀ i f net, Fires s a i f net → CallOk R b J i (f (s.nodes i)) ∧ net = s.net) :
    Growing R b J (s.step a) := by
  obtain ⟨su, hs⟩ := hg.idle hnet
  have hquiet : ∀ i f net, Fires s a i f net → ∀ e ∈ (f (s.nodes i)).2, Quiet e := by
    intro i f net hf e he
    exact ((hcall i f net hf).1.2 (fun _ => _) rfl e he).quiet
  rcases step_cases hup hquiet with hidle | ⟨i, f, net, hf, hafter⟩
  · rw [hidle.still hrel]
    exact hg
  · obtain ⟨hok, rfl⟩ := hcall i f net hf
    rw [hnet] at hafter
    exact ⟨hg.boot, fun j hj hjb => hafter.started j (hg.started j hj hjb),
      Or.inl (call_after hs hafter hok.1 hok.2 (fun _ _ h => h))⟩

/-! ### Deliveries -/

/-- A packet between members is handed over, whoever else is waiting. -/
theorem deliver_ring {su : ι → PeerPair} {Q : AnonymousPacket → Prop}
    {T : ι → Task → Prop} (hs : Holds R.cfg (Serving R b J su) Q T s)
    (hQ : ∀ p, RingPacket R J su p → Q p) (hT : ∀ j t, RetryOnly b J j t → T j t)
    {k : Nat} {p : AnonymousPacket} (hk : s.net[k]? = some p)
    (hp : RingPacket R J su p) (i : ι) :
    Holds R.cfg (Serving R b J su) Q T (s.step (.deliver i k)) := by
  refine step_holds rfl hs ?_
  intro j f net hf
  cases hf with
  | @deliver _ _ p' hk' hdest =>
      have hpp : p' = p := Option.some.inj (hk'.symm.trans hk)
      subst hpp
      have hhome : p'.dest = R.addr i := by
        rw [hdest, Relay.addr, hs.cfg i]
        rfl
      obtain ⟨hnode, hsent⟩ := receive_serving (hs.node i) hp hhome
      exact ⟨hnode, fun e he => (hsent e he).mono hQ (hT i)⟩

/-- The request of the joining node reaches a member. -/
theorem deliver_request (hw : Waiting R b J i s) (hi : i ∉ J) {k : Nat}
    {p : AnonymousPacket} (hk : s.net[k]? = some p) {j : ι}
    (hdest : p.dest = (s.relays j).addr) (hfwd : IsForward (R.addr i) 0 (R.id i) p)
    (hmember : ∃ l ∈ J, p.dest = R.addr l) : Waiting R b J i (s.step (.deliver j k)) := by
  obtain ⟨su, hs⟩ := hw.ring
  obtain ⟨l, hl, hto⟩ := hmember
  have hlj : l = j := by
    refine R.addr_inj (hto.symm.trans (hdest.trans ?_))
    rw [Relay.addr, hs.cfg j]
  subst hlj
  obtain ⟨p', hp', hjoin⟩ := tame_join (hs.node l).1 hl hi
  have hrecv : (s.nodes l).receive p = (s.nodes l, [.directSend p']) := by
    rw [receive_forward hfwd, hp']
  have hafter := after_deliver hk hdest (by
    rw [hrecv]
    intro e he q hq
    rw [hq] at he
    cases List.mem_singleton.mp he)
  rw [hrecv] at hafter
  refine ⟨⟨su, fun u => (hafter.cfg u).trans (hs.cfg u), ?_, ?_, ?_⟩,
    ⟨p', ?_, hjoin⟩, hafter.started i hw.started⟩
  · intro u
    rw [hafter.nodes, Function.update_eq_self]
    exact hs.node u
  · intro q hq
    rw [hafter.net] at hq
    rcases List.mem_append.mp hq with hq | hq
    · exact hs.net q (List.mem_of_mem_eraseIdx hq)
    · rw [List.mem_singleton.mp hq]
      exact Or.inr hjoin
  · intro u t ht
    rcases hafter.tasks u t ht with hold | ⟨_, hnew⟩
    · exact hs.task u t hold
    · cases hnew
  · rw [hafter.net]
    exact List.mem_append_right _ (List.mem_singleton.mpr rfl)

/-- What is still in flight when a node becomes a member: between members, with
the newcomer's lookups for its first finger carrying what it has now. -/
theorem RingPacket.grow {su : ι → PeerPair} {p : AnonymousPacket} {t : PeerPair}
    (hp : RingPacket R J su p) (hfirst : FirstLookup R i p → Carrying t p) :
    RingPacket R (insert i J) (Function.update su i t) p := by
  have hsub : J ⊆ insert i J := Set.subset_insert i J
  have hknown : ∀ {j : ι} {q : PeerPair}, Known R J j q → Known R (insert i J) j q :=
    fun ⟨l, hl, hq⟩ => ⟨l, hl.mono hsub, hq⟩
  obtain ⟨hint, hp⟩ := hp
  refine ⟨hint, ?_⟩
  cases hid : p.header.id with
  | internalJoinFindSuccessor =>
      rw [hid] at hp
      obtain ⟨l, j, hrep, hto, hmate, hrest⟩ := hp
      exact ⟨l, j, hrep, hto, hmate.mono hsub, hrest⟩
  | internalReplyFindSuccessor =>
      rw [hid] at hp
      obtain ⟨j, hto, hk, u, hu, hidx, hzero⟩ := hp
      refine ⟨j, hto, hknown hk, u, hu, hidx, ?_⟩
      intro hu0
      by_cases hji : j = i
      · subst hji
        rw [Function.update_self]
        refine (hfirst ⟨?_, by rw [hidx, hu0]; rfl, Or.inr hid⟩).2
        unfold Concerns
        rw [hid]
        exact hto
      · rw [Function.update_of_ne hji]
        exact hzero hu0
  | internalFindPredecessor =>
      rw [hid] at hp
      obtain ⟨l, j, hrep, hto, hmate⟩ := hp
      exact ⟨l, j, hrep, hto, hmate.mono hsub⟩
  | internalReplyGetPredecessor =>
      rw [hid] at hp
      obtain ⟨j, hto, hk⟩ := hp
      exact ⟨j, hto, hk.imp_right hknown⟩
  | internalNotifyPredecessorJoin =>
      rw [hid] at hp
      obtain ⟨j, l, hto, hnot, hmate, hne⟩ := hp
      exact ⟨j, l, hto, hnot, hmate.mono hsub, hne⟩
  | _ => trivial

/-- The answer makes the waiting node a member. -/
theorem deliver_answer (hw : Waiting R b J i s) (hi : i ∉ J) {k : Nat}
    {p : AnonymousPacket} (hk : s.net[k]? = some p)
    (hdest : p.dest = (s.relays i).addr) (hcalm : Calm R s (.deliver i k))
    (hrep : IsReply (R.addr i) 0 p) {l : ι} (hl : l ∈ J) (hkey : p.keyPeer = R.peer l)
    (hbelow : span R.size (R.id i) (R.id l) ≤ span R.size (R.id i) (R.id b)) :
    RingState R b (insert i J) (s.step (.deliver i k)) := by
  obtain ⟨su, hs⟩ := hw.ring
  have hrecv : (s.nodes i).receive p = ((s.nodes i).setFinger 0 (R.peer l), []) := by
    rw [receive_reply hrep, hkey]
  have hafter := after_deliver hk hdest (by rw [hrecv]; exact fun e he => by cases he)
  rw [hrecv] at hafter
  have hsub : J ⊆ insert i J := Set.subset_insert i J
  have hmate : Mate (insert i J) i l := Or.inr ⟨Set.mem_insert i J, hsub hl⟩
  have hnew : RingNode R b (insert i J) i ((s.nodes i).setFinger 0 (R.peer l)) :=
    RingNode.setSuccessor ((hs.node i).1.toMateNode.mono hsub) hmate hbelow
  -- A node that has not joined knows only itself, so the answer changes its finger.
  have hmoves : p.keyPeer ≠ ((s.nodes i).fingerTable 0).peer := by
    obtain ⟨j, hj, hpeer⟩ := (hs.node i).1.successor_known
    rw [hkey, hpeer]
    intro heq
    rcases hj with rfl | ⟨hmem, _⟩
    · exact hi (R.peer_inj heq ▸ hl)
    · exact hi hmem
  have hfirst : ∀ q ∈ s.net.eraseIdx k, FirstLookup R i q → Carrying (R.peer l) q :=
    hkey ▸ hcalm p hk hrep.id hrep.index hmoves
  refine ⟨Function.update su i (R.peer l), fun j => (hafter.cfg j).trans (hs.cfg j),
    ?_, ?_, ?_⟩
  · intro j
    rw [hafter.nodes]
    by_cases hj : j = i
    · subst hj
      rw [Function.update_self]
      refine ⟨hnew, ?_⟩
      rw [Function.update_self]
      exact DAENode.setFinger_peer ..
    · rw [Function.update_of_ne hj]
      refine ⟨⟨(hs.node j).1.toMateNode.mono hsub, fun hmem => ?_⟩, ?_⟩
      · rcases Set.mem_insert_iff.mp hmem with heq | hmem
        · exact absurd heq hj
        · exact (hs.node j).1.below hmem
      · rw [Function.update_of_ne hj]
        exact (hs.node j).2
  · intro q hq
    rw [hafter.net, List.filterMap_nil, List.append_nil] at hq
    rcases hs.net q (List.mem_of_mem_eraseIdx hq) with hring | hjoin
    · exact hring.grow (hfirst q hq)
    · -- Another copy of the join's own packets is a reply with the same node.
      have hcar : Carrying (R.peer l) q := by
        refine hfirst q hq ?_
        rcases hjoin with ⟨hf, _⟩ | ⟨hr, _⟩
        · exact ⟨by unfold Concerns; rw [hf.id]; exact hf.replyTo, hf.index,
            Or.inl hf.id⟩
        · exact ⟨by unfold Concerns; rw [hr.id]; exact hr.dest, hr.index, Or.inr hr.id⟩
      rcases hjoin with ⟨hf, _⟩ | ⟨hr, _⟩
      · cases hf.id.symm.trans hcar.1
      · refine ⟨hr.msgType, ?_⟩
        rw [hr.id]
        exact ⟨i, hr.dest, ⟨l, hmate, hcar.2⟩, 0, R.bits_pos, hr.index, fun _ => by
          rw [hcar.2, Function.update_self]⟩
  · intro j t ht
    rcases hafter.tasks j t ht with hold | ⟨_, hnew⟩
    · exact hs.task j t hold
    · cases hnew

theorem performAll_started (es : List Effect) (r : Relay) :
    (r.performAll es).1.started = r.started := by
  induction es generalizing r with
  | nil => rfl
  | cons e es ih =>
      rw [Relay.performAll]
      refine (ih _).trans ?_
      cases e with
      | directSend p => rfl
      | safeSend p =>
          simp only [Relay.perform]
          split
          · split <;> rfl
          · rfl
      | schedule t => rfl

theorem deliver_started {i j : ι} {k : Nat} (h : (s.relays j).started = true) :
    ((s.step (.deliver i k)).relays j).started = true := by
  simp only [System.step, System.deliver]
  split
  · exact h
  · split
    · by_cases hj : j = i
      · subst hj
        simp only [System.handle, System.move, Function.update_self, Relay.handle]
        exact (performAll_started ..).trans h
      · simp only [System.handle, System.move, Function.update_of_ne hj]
        exact h
    · exact h

/-- A calm delivery. -/
theorem deliver_growing (hg : Growing R b J s) {i : ι} {k : Nat}
    (hcalm : Calm R s (.deliver i k)) :
    Growing R b (J ∪ {j | JoinReplied s (.deliver i k) j}) (s.step (.deliver i k)) := by
  have hsame : (∀ j, JoinReplied s (.deliver i k) j → j ∈ J) →
      J ∪ {j | JoinReplied s (.deliver i k) j} = J := Set.union_eq_self_of_subset_right
  cases hk : s.net[k]? with
  | none =>
      have hstill : s.step (.deliver i k) = s := by
        simp only [System.step, System.deliver, hk]
      rw [hstill, hsame]
      · exact hg
      · rintro j ⟨k', p', ha, hk', _⟩
        injection ha with _ hkk
        subst hkk
        rw [hk] at hk'
        cases hk'
  | some p =>
      by_cases hdest : p.dest = (s.relays i).addr
      · have hmembers : ∀ j ∈ J, j ≠ b →
            ((s.step (.deliver i k)).relays j).started = true :=
          fun j hj hjb => deliver_started (hg.started j hj hjb)
        rcases hg.phase with ⟨su, hs⟩ | ⟨w, hw, hwait⟩
        · have hp := hs.net p (List.mem_of_getElem? hk)
          rw [hsame fun j => joinReplied_ring hg hk hp]
          exact ⟨hg.boot, hmembers,
            Or.inl ⟨su, deliver_ring hs (fun _ h => h) (fun _ _ h => h) hk hp i⟩⟩
        · by_cases hjoin : JoinPacket R b J w p
          · rcases hjoin with ⟨hfwd, hmember⟩ | ⟨hrep, l, hl, hkey, hbelow⟩
            · rw [hsame]
              · exact ⟨hg.boot, hmembers,
                  Or.inr ⟨w, hw, deliver_request hwait hw hk hdest hfwd hmember⟩⟩
              · rintro j ⟨k', p', ha, hk', _, _, hid, _⟩
                injection ha with hij hkk
                subst hij hkk
                have hpp : p' = p := Option.some.inj (hk'.symm.trans hk)
                subst hpp
                cases hid.symm.trans hfwd.id
            · have hwi : w = i :=
                R.addr_inj (hrep.dest.symm.trans (hdest.trans (hg.addr i)))
              subst hwi
              have hmem : J ∪ {j | JoinReplied s (.deliver w k) j} = insert w J := by
                ext j
                constructor
                · rintro (hj | ⟨_, _, ha, _⟩)
                  · exact Set.mem_insert_of_mem w hj
                  · injection ha with hij
                    exact Or.inl hij.symm
                · rintro (rfl | hj)
                  · refine Or.inr ⟨k, p, rfl, hk, hdest, hrep.msgType, hrep.id,
                      hrep.index, ?_⟩
                    rw [(hg.node j).id, show p.header.keyId = R.id l from
                      congrArg PeerPair.relayId hkey]
                    exact R.id_ne fun heq => hw (heq ▸ hl)
                  · exact Or.inl hj
              rw [hmem]
              refine ⟨Set.mem_insert_of_mem w hg.boot, ?_, Or.inl
                (deliver_answer hwait hw hk hdest hcalm hrep hl hkey hbelow)⟩
              rintro j (rfl | hj) hjb
              · exact deliver_started hwait.started
              · exact hmembers j hj hjb
          · obtain ⟨su, hs⟩ := hwait.ring
            have hp := (hs.net p (List.mem_of_getElem? hk)).resolve_right hjoin
            rw [hsame fun j => joinReplied_ring hg hk hp]
            refine ⟨hg.boot, hmembers, Or.inr ⟨w, hw, ⟨su, ?_⟩, ?_,
              deliver_started hwait.started⟩⟩
            · exact deliver_ring hs (fun _ => Or.inl)
                (fun _ _ => RetryOnly.mono (Set.subset_insert w J)) hk hp i
            · -- The packet the node waits for is another one.
              obtain ⟨q, hq, hqjoin⟩ := hwait.asking
              refine ⟨q, ?_, hqjoin⟩
              simp only [System.step, System.deliver, hk, if_pos hdest]
              refine List.mem_append_left _ (mem_eraseIdx_of_ne hq hk ?_)
              rintro rfl
              exact hjoin hqjoin
      · rw [deliver_elsewhere hk hdest, hsame]
        · exact hg
        · rintro j ⟨k', p', ha, hk', hdest', _⟩
          injection ha with hij hkk
          subst hij hkk
          have hpp : p' = p := Option.some.inj (hk'.symm.trans hk)
          exact absurd (hpp ▸ hdest') hdest

/-- A calm step of a stepwise run. -/
theorem step_growing (hm : R.m ≤ 30) (hthrough : JoinThrough R b)
    (hg : Growing R b J s) {a : Act ι} (ha : Stepwise s a) (hcalm : Calm R s a) :
    Growing R b (J ∪ {i | JoinReplied s a i}) (s.step a) := by
  -- Only a delivery makes a member.
  have hsame : (∀ i k, a ≠ .deliver i k) → J ∪ {i | JoinReplied s a i} = J := by
    intro hno
    refine Set.union_eq_self_of_subset_right ?_
    rintro j ⟨k, _, hd, _⟩
    exact absurd hd (hno j k)
  cases a with
  | join i =>
      rw [hsame (fun _ _ h => by cases h)]
      exact join_growing hm hthrough hg ha i
  | stabilize i =>
      rw [hsame (fun _ _ h => by cases h)]
      refine call_growing hg ha rfl rfl ?_
      intro j f net hf
      cases hf
      exact ⟨stabilize_call (hg.node i), rfl⟩
  | fixFingers i =>
      rw [hsame (fun _ _ h => by cases h)]
      refine call_growing hg ha rfl rfl ?_
      intro j f net hf
      cases hf
      exact ⟨(fixFingers_call hm (hg.node i)).1, rfl⟩
  | fetchSuccessorList i =>
      rw [hsame (fun _ _ h => by cases h)]
      refine call_growing hg ha rfl rfl ?_
      intro j f net hf
      cases hf
      exact ⟨fetchSuccessorList_call (hg.node i), rfl⟩
  | runTask i k =>
      rw [hsame (fun _ _ h => by cases h)]
      refine call_growing hg ha rfl rfl ?_
      intro j f net hf
      cases hf with
      | runTask hk =>
          obtain ⟨_, hs⟩ := hg.idle ha
          obtain ⟨rfl, hi, hib⟩ := hs.task i _ (List.mem_of_getElem? hk)
          exact ⟨retry_call (hg.node i) hi hib _, rfl⟩
  | deliver i k => exact deliver_growing hg hcalm
  | checkPredecessorFailure _ => exact ha.elim
  | checkSuccessorFailure _ => exact ha.elim
  | lose _ => exact ha.elim
  | duplicate _ => exact ha.elim
  | send _ _ _ => exact ha.elim
  | sendBatch _ _ _ _ => exact ha.elim

/-- The invariant of calm stepwise runs. -/
theorem run_growing (hm : R.m ≤ 30) (hthrough : JoinThrough R b) (acts : List (Act ι)) :
    ∀ (s : System ι) (J : Set ι), Growing R b J s →
      Always System.step (fun s a => Stepwise s a ∧ Calm R s a) s acts →
      Growing R b (J ∪ joinedIn s acts) (s.run acts) := by
  induction acts with
  | nil =>
      intro s J hg _
      rw [joinedIn, Set.union_empty]
      exact hg
  | cons a acts ih =>
      intro s J hg hrun
      obtain ⟨⟨hstep, hcalm⟩, hrest⟩ := hrun
      have hnext := ih _ _ (step_growing hm hthrough hg hstep hcalm) hrest
      rw [Set.union_assoc] at hnext
      exact hnext

/-! ## One ring -/

/-- Ring validity. In every state of every stepwise run of calm steps, in which
all nodes join through node `b`, the successors of the members form one
ring. -/
theorem ring_valid (R : Roster ι) (hm : R.m ≤ 30) (b : ι) (hthrough : JoinThrough R b)
    (acts : List (Act ι))
    (hrun : Always System.step (fun s a => Stepwise s a ∧ Calm R s a)
      (System.init R.cfg) acts) :
    OneRing R b (insert b (joinedIn (System.init R.cfg) acts))
      ((System.init R.cfg).run acts) := by
  have hg := run_growing hm hthrough acts _ _ init_growing hrun
  rw [Set.singleton_union] at hg
  exact hg.oneRing

end Steps

/-! ## The small ring, in order and crossed -/

/-- A test for calm deliveries: the answer carries what the finger holds, or is
the only packet of a lookup for a first finger. -/
def alone (s : System ι) : Act ι → Bool
  | .deliver i k =>
      match s.net[k]? with
      | none => true
      | some p =>
          p.header.id ≠ .internalReplyFindSuccessor ||
            p.keyPeer = ((s.nodes i).fingerTable 0).peer ||
            (s.net.eraseIdx k).all fun q => q.header.index ≠ 0 ||
              (q.header.id ≠ .internalJoinFindSuccessor &&
                q.header.id ≠ .internalReplyFindSuccessor)
  | .stabilize _ => s.net.isEmpty
  | _ => true

theorem calm_of_alone {s : System ι} {a : Act ι} (h : alone s a = true) : Calm R s a := by
  cases a with
  | deliver i k =>
      intro p hk hid _ hne q hq hfirst
      simp only [alone, hk, hid, hne, ne_eq, not_true_eq_false, decide_false,
        Bool.false_or, List.all_eq_true, Bool.or_eq_true, Bool.and_eq_true,
        decide_eq_true_eq] at h
      obtain ⟨_, hzero, hlook⟩ := hfirst
      rcases h q hq with hidx | ⟨hjoin, hreply⟩
      · exact absurd hzero hidx
      · exact (hlook.elim hjoin hreply).elim
  | stabilize i =>
      intro _ q hq
      rw [List.isEmpty_iff.mp h] at hq
      cases hq
  | _ => trivial

theorem pairRoster_joinThrough : JoinThrough pairRoster 0 := fun _ => rfl

/-- The second node of the small ring joins, and the answer to its request comes
after the answer to its own `fix_fingers`. -/
def pairInOrder : List (Act (Fin 2)) :=
  .join 1 :: .deliver 1 2 :: .deliver 0 0 :: .deliver 1 2 ::
    (List.replicate 15 [.deliver 0 0, .deliver 1 0]).flatten

/-- The same join with the two answers in the other order, after the join of the
first node. -/
def pairCrossed : List (Act (Fin 2)) :=
  .join 0 :: List.replicate 15 (.deliver 0 0) ++ .join 1 :: .deliver 0 0 ::
    .deliver 1 3 :: List.replicate 15 (.deliver 1 0)

theorem pairInOrder_calm :
    Always System.step (fun s a => Stepwise s a ∧ Calm pairRoster s a)
      (System.init pairRoster.cfg) pairInOrder := by
  have htest : Always System.step (fun s a => Stepwise s a ∧ alone s a = true)
      (System.init pairRoster.cfg) pairInOrder := by decide +kernel
  exact htest.of_inv (I := fun _ => True) (fun _ _ _ _ => trivial)
    (fun _ _ _ h => ⟨h.1, calm_of_alone h.2⟩) trivial

/-- A test for answers, to be run on one packet. -/
theorem joinReplied_of {s : System ι} {k : Nat}
    (h : s.net[k]?.any (fun p => p.dest = (s.relays i).addr && p.header.msgType &&
      p.header.id = .internalReplyFindSuccessor && p.header.index = 0 &&
      p.header.keyId ≠ (s.nodes i).id) = true) : JoinReplied s (.deliver i k) i := by
  cases hk : s.net[k]? with
  | none =>
      rw [hk] at h
      cases h
  | some p =>
      simp only [hk, Option.any_some, Bool.and_eq_true, decide_eq_true_eq] at h
      obtain ⟨⟨⟨⟨hdest, hint⟩, hid⟩, hidx⟩, hkey⟩ := h
      exact ⟨k, p, rfl, hk, hdest, hint, hid, hidx, hkey⟩

theorem mem_joinedIn [DecidableEq ι] {a : Act ι} {acts : List (Act ι)}
    (before : List (Act ι)) {s : System ι} (h : JoinReplied (s.run before) a i) :
    i ∈ joinedIn s (before ++ a :: acts) := by
  induction before generalizing s with
  | nil => exact Or.inl h
  | cons c before ih => exact Or.inr (ih h)

theorem pairInOrder_joined : 1 ∈ joinedIn (System.init pairRoster.cfg) pairInOrder :=
  mem_joinedIn (pairInOrder.take 3) (joinReplied_of (k := 2) (by decide +kernel))

theorem pairCrossed_joined : 1 ∈ joinedIn (System.init pairRoster.cfg) pairCrossed :=
  mem_joinedIn (pairCrossed.take 18) (joinReplied_of (k := 3) (by decide +kernel))

theorem ring_valid_pair :
    ∃ next : Fin 2 → Fin 2,
      ((((System.init pairRoster.cfg).run pairInOrder).nodes 1).fingerTable 0).peer =
        pairRoster.peer (next 1) ∧ ∃ k, next^[k] 1 = 0 := by
  obtain ⟨next, hnext, _, _, _, _, _, hhome, _⟩ := ring_valid pairRoster (by decide) 0
    pairRoster_joinThrough pairInOrder pairInOrder_calm
  exact ⟨next, (hnext 1 (Or.inr pairInOrder_joined)).2,
    hhome 1 (Or.inr pairInOrder_joined)⟩

/-- With the answers crossed the second node has received its join reply and is
its own successor again: two rings. -/
theorem ring_splits :
    JoinThrough pairRoster 0 ∧
    Always System.step Stepwise (System.init pairRoster.cfg) pairCrossed ∧
    ((System.init pairRoster.cfg).run pairCrossed).net = [] ∧
    1 ∈ joinedIn (System.init pairRoster.cfg) pairCrossed ∧
    ¬ OneRing pairRoster 0 (insert 0 (joinedIn (System.init pairRoster.cfg) pairCrossed))
      ((System.init pairRoster.cfg).run pairCrossed) := by
  refine ⟨pairRoster_joinThrough, by decide +kernel, by decide +kernel,
    pairCrossed_joined, ?_⟩
  rintro ⟨next, hnext, _, _, _, _, _, hhome, _⟩
  have hself : ((((System.init pairRoster.cfg).run pairCrossed).nodes 1).fingerTable 0).peer
      = pairRoster.peer 1 := by decide +kernel
  have hfix : next 1 = 1 :=
    pairRoster.peer_inj ((hnext 1 (Or.inr pairCrossed_joined)).2.symm.trans hself)
  obtain ⟨k, hk⟩ := hhome 1 (Or.inr pairCrossed_joined)
  rw [Function.iterate_fixed hfix] at hk
  cases hk

end Daenet.Proofs
