import Daenet.Lib.Stabilize
import Daenet.Proofs.Joins

/-!
# Stabilisation converges

`Shows` relates a state of the system to the pointers of `Lib.Stabilize`: the
first finger, the predecessor and the stored answer of every node. A call of
`stabilize` together with everything it sends is one member stabilising there.
Its two or three packets may arrive in any order, and the one thing the order
decides is whether the successor answers before or after it has been told —
which the abstract step leaves open. `stabilize_refines` goes through the
orders; convergence is then the abstract theorem.

It starts from what calm runs leave. Nodes that the answers of a join have left
apart stay apart, since a node that is its own successor asks only itself:
`split_ring_stays`.
-/

namespace Daenet.Proofs

open Daenet.Lib Daenet.Ref Daenet.Spec

variable {ι : Type} {R : Roster ι} {i j d : ι} {n : DAENode} {x : Pointers ι}
  {p : AnonymousPacket}

/-! ## Delivering until nothing is left -/

section Settles

variable [DecidableEq ι] {s s' : System ι} {Post : System ι → Prop}

/-- Deliveries, in any order, until nothing is in flight. -/
inductive Settles : System ι → System ι → Prop where
  | done {s : System ι} (h : s.net = []) : Settles s s
  | deliver {s s' : System ι} (i : ι) (k : Nat)
      (h : Settles (s.step (.deliver i k)) s') : Settles s s'

/-- The deliveries can be completed, and however they are, `Post` holds in the
end. -/
def Ends (s : System ι) (Post : System ι → Prop) : Prop :=
  (∃ s', Settles s s') ∧ ∀ s', Settles s s' → Post s'

theorem settles_nil (h : Settles s s') (hnet : s.net = []) : s' = s := by
  induction h with
  | done _ => rfl
  | @deliver s s' i k h ih =>
      have hsame : s.step (.deliver i k) = s := by
        simp only [System.step, System.deliver, hnet, List.getElem?_nil]
      rw [hsame] at ih
      exact ih hnet

theorem ends_nil (hnet : s.net = []) (h : Post s) : Ends s Post :=
  ⟨⟨s, .done hnet⟩, fun _ hs => settles_nil hs hnet ▸ h⟩

/-- The first delivery that does something. -/
theorem settles_first (h : Settles s s') (hnet : s.net ≠ []) :
    ∃ (i : ι) (k : Nat) (p : AnonymousPacket), s.net[k]? = some p ∧
      p.dest = (s.relays i).addr ∧ Settles (s.step (.deliver i k)) s' := by
  induction h with
  | done h => exact absurd h hnet
  | @deliver s s' i k h ih =>
      cases hk : s.net[k]? with
      | none =>
          have hsame : s.step (.deliver i k) = s := by
            simp only [System.step, System.deliver, hk]
          rw [hsame] at ih
          exact ih hnet
      | some p =>
          by_cases hdest : p.dest = (s.relays i).addr
          · exact ⟨i, k, p, hk, hdest, h⟩
          · rw [deliver_elsewhere hk hdest] at ih
            exact ih hnet

theorem ends_deliver (hnet : s.net ≠ [])
    (hsome : ∃ (i : ι) (k : Nat) (p : AnonymousPacket), s.net[k]? = some p ∧
      p.dest = (s.relays i).addr)
    (hall : ∀ (i : ι) (k : Nat) (p : AnonymousPacket), s.net[k]? = some p →
      p.dest = (s.relays i).addr → Ends (s.step (.deliver i k)) Post) :
    Ends s Post := by
  refine ⟨?_, ?_⟩
  · obtain ⟨i, k, p, hk, hdest⟩ := hsome
    obtain ⟨s', hs'⟩ := (hall i k p hk hdest).1
    exact ⟨s', .deliver i k hs'⟩
  · intro s' hs'
    obtain ⟨i, k, p, hk, hdest, hrest⟩ := settles_first hs' hnet
    exact (hall i k p hk hdest).2 s' hrest

end Settles

/-! ## The pointers of a node -/

/-- A triple that stands for a node, or for none. -/
def Names (R : Roster ι) (o : Option ι) (t : PeerPair) : Prop :=
  match o with
  | none => t.relayId = noId
  | some j => t = R.peer j

/-- The pointers of node `i` are those of member `i`. -/
structure NodeShows (R : Roster ι) (x : Pointers ι) (i : ι) (n : DAENode) : Prop
    extends R.Owns i n where
  succ : (n.fingerTable 0).peer = R.peer (x.succ i)
  pred : Names R (x.pred i) n.predecessorPeer
  heard : Names R (x.heard i) n.ofSuccessorPeer

/-- The state of the system shows the pointers. -/
structure Shows (R : Roster ι) (x : Pointers ι) (s : System ι) : Prop where
  cfg : ∀ i, (s.relays i).cfg = R.cfg i
  node : ∀ i, NodeShows R x i (s.nodes i)

theorem Shows.addr {s : System ι} (h : Shows R x s) (i : ι) :
    (s.relays i).addr = R.addr i := by
  rw [Relay.addr, h.cfg i]
  rfl

theorem NodeShows.addr (h : NodeShows R x i n) :
    (n.fingerTable 0).addr = R.addr (x.succ i) :=
  Prod.ext (congrArg PeerPair.ip h.succ) (congrArg PeerPair.port h.succ)

theorem NodeShows.successor (h : NodeShows R x i n) : n.successor = R.id (x.succ i) :=
  successor_of_peer h.succ

/-- The pointers of a ring all of whose nodes have joined. -/
theorem shows_of_growing {b : ι} {s : System ι} (hg : Growing R b Set.univ s) :
    ∃ x, Shows R x s ∧ Sound R.circle b x := by
  have hpred : ∀ i, ∃ o, Names R o (s.nodes i).predecessorPeer ∧ o ≠ some i := by
    intro i
    rcases (hg.node i).predecessor with hno | ⟨j, _, hne, hpeer⟩
    · exact ⟨none, hno, by simp⟩
    · exact ⟨some j, hpeer, fun he => hne (Option.some.inj he)⟩
  have hheard : ∀ i, ∃ o, Names R o (s.nodes i).ofSuccessorPeer := by
    intro i
    rcases (hg.node i).ofSuccessor with hno | ⟨j, _, hpeer⟩
    · exact ⟨none, hno⟩
    · exact ⟨some j, hpeer⟩
  choose succ hsucc using fun i => (hg.node i).successor_known
  choose pred hpred using hpred
  choose heard hheard using hheard
  refine ⟨⟨succ, pred, heard⟩, ⟨hg.cfg, fun i => ⟨(hg.node i).toOwns, (hsucc i).2,
    (hpred i).1, hheard i⟩⟩, ?_, fun i => (hpred i).2⟩
  intro i
  have hbelow := (hg.node i).below (Set.mem_univ i)
  rw [successor_of_peer (hsucc i).2] at hbelow
  exact hbelow

/-- Settled pointers are the next and the previous node. -/
theorem ideal_of_settled [Finite ι] {s : System ι} (hs : Shows R x s) (hx : Settled R.circle x)
    (i : ι) :
    (∃ j, R.IsNext i j ∧ ((s.nodes i).fingerTable 0).peer = R.peer j) ∧
      ∃ j, R.IsNext j i ∧ (s.nodes i).predecessorPeer = R.peer j := by
  refine ⟨⟨x.succ i, hx.succ i, (hs.node i).succ⟩, ?_⟩
  have hinj : Function.Injective x.succ := by
    intro j l hjl
    have hj := hx.pred j
    rw [hjl, hx.pred l] at hj
    exact (Option.some.inj hj).symm
  obtain ⟨j, rfl⟩ := Finite.surjective_of_injective hinj i
  refine ⟨j, hx.succ j, ?_⟩
  have hpred := (hs.node (x.succ j)).pred
  rw [hx.pred j] at hpred
  exact hpred

/-- The test of a node is betweenness of members; the sentinel is between
nobody. -/
theorem inRange_names (hown : R.Owns d n) (i j : ι) {o : Option ι}
    {t : PeerPair} (h : Names R o t) :
    n.isInRange (R.id i) (R.id j) t.relayId = true ↔
      ∃ q, o = some q ∧ R.circle.In i q j := by
  have hm : n.m ≤ 52 := hown.m ▸ R.bits_le
  have hlt : ∀ l, R.id l < 2 ^ n.m := fun l => by rw [hown.m]; exact R.id_lt l
  cases o with
  | none =>
      rw [show t.relayId = noId from h, isInRange_noId hm (hlt i) (hlt j)]
      simp
  | some q =>
      rw [show t.relayId = R.id q from congrArg PeerPair.relayId h,
        isInRange_iff hm (hlt i) (hlt j) (hlt q), hown.m]
      simp [Circle.In, Roster.circle, Roster.size]

theorem shows_adopt [DecidableEq ι] (h : NodeShows R x i n) :
    NodeShows R { x with succ := Function.update x.succ i (adopted R.circle x i) } i
      (adopt n) := by
  have htest := inRange_names h.toOwns i (x.succ i) h.heard
  rw [← h.id, ← h.successor] at htest
  unfold adopt
  split
  · next hin =>
      obtain ⟨q, hq, hbtw⟩ := htest.mp hin
      have hadopt : adopted R.circle x i = q := by
        unfold adopted
        rw [hq]
        exact if_pos hbtw
      have hpeer : n.ofSuccessorPeer = R.peer q := by
        have := h.heard
        rw [hq] at this
        exact this
      refine ⟨⟨h.m, h.id, h.ip, h.port⟩, ?_, h.pred, h.heard⟩
      show _ = R.peer (Function.update x.succ i (adopted R.circle x i) i)
      rw [DAENode.setFinger_peer, Function.update_self, hadopt, hpeer]
  · next hout =>
      have hadopt : adopted R.circle x i = x.succ i := by
        unfold adopted
        split
        · next q hq =>
            exact if_neg fun hbtw => hout (htest.mpr ⟨q, hq, hbtw⟩)
        · rfl
      rw [hadopt, Function.update_eq_self]
      exact h

theorem shows_notify [DecidableEq ι] (h : NodeShows R x d n) {id : Nat} {ip : String}
    {port : Int} (hpeer : (⟨ip, port, id⟩ : PeerPair) = R.peer i) :
    NodeShows R { x with pred := Function.update x.pred d (noted R.circle x d i) } d
      (n.notify id ip port) := by
  have hid : id = R.id i := congrArg PeerPair.relayId hpeer
  have hpred := h.pred
  unfold DAENode.notify
  cases hq : x.pred d with
  | none =>
      rw [hq] at hpred
      have hno : n.predecessor = noId := hpred
      rw [if_pos (Or.inl hno)]
      refine ⟨⟨h.m, h.id, h.ip, h.port⟩, h.succ, ?_, h.heard⟩
      simp only [noted, hq, Function.update_self]
      exact hpeer
  | some q =>
      rw [hq] at hpred
      have hqid : n.predecessor = R.id q := congrArg PeerPair.relayId hpred
      have htest := inRange_names (o := some i) (t := R.peer i) h.toOwns q d rfl
      rw [show (R.peer i).relayId = id from hid.symm, ← hqid, ← h.id] at htest
      by_cases hbtw : R.circle.In q i d
      · rw [if_pos (Or.inr (htest.mpr ⟨i, rfl, hbtw⟩))]
        refine ⟨⟨h.m, h.id, h.ip, h.port⟩, h.succ, ?_, h.heard⟩
        simp only [noted, hq, Function.update_self, if_pos hbtw]
        exact hpeer
      · have hno : n.predecessor ≠ noId := by rw [hqid]; exact R.id_ne_noId q
        rw [if_neg]
        · refine ⟨h.toOwns, h.succ, ?_, h.heard⟩
          simp only [noted, hq, Function.update_self, if_neg hbtw]
          exact hpred
        · rintro (heq | hin)
          · exact hno heq
          · obtain ⟨i', hi', hin⟩ := htest.mp hin
            injection hi' with hi'
            subst hi'
            exact hbtw hin

/-! ## The packets of a call -/

/-- `i` asks `d` for its predecessor. -/
structure IsAsk (R : Roster ι) (i d : ι) (p : AnonymousPacket) : Prop where
  id : p.header.id = .internalFindPredecessor
  msgType : p.header.msgType = true
  dest : p.dest = R.addr d
  replyTo : p.replyTo = R.addr i

/-- `i` is told the predecessor it asked for. -/
structure IsTold (R : Roster ι) (i : ι) (v : Option ι) (p : AnonymousPacket) :
    Prop where
  id : p.header.id = .internalReplyGetPredecessor
  msgType : p.header.msgType = true
  dest : p.dest = R.addr i
  names : Names R v p.keyPeer

/-- `i` tells `d` about itself. -/
structure IsTell (R : Roster ι) (d i : ι) (p : AnonymousPacket) : Prop where
  id : p.header.id = .internalNotifyPredecessorJoin
  msgType : p.header.msgType = true
  dest : p.dest = R.addr d
  notifier : p.notifier = R.peer i

theorem receive_ask (h : NodeShows R x d n) (hp : IsAsk R i d p) :
    ∃ p', n.receive p = (n, [.directSend p']) ∧ IsTold R i (x.pred d) p' := by
  have hrecv : n.receive p =
      (n, [n.handleGetPredecessor p.header.relayReplyIp p.header.relayReplyPort]) := by
    simp only [DAENode.receive, AnonymousPacket.isInternalMsg, hp.msgType, hp.id,
      DAENode.processMessage]
  exact ⟨_, hrecv, rfl, rfl, hp.replyTo, h.pred⟩

theorem receive_told {v : Option ι} (hp : IsTold R i v p) :
    n.receive p = (n.setPredecessorOfSuccessor p.header.keyId p.header.keyIp
      p.header.keyPort, []) := by
  simp only [DAENode.receive, AnonymousPacket.isInternalMsg, hp.msgType, hp.id,
    DAENode.processMessage]

theorem receive_tell (hp : IsTell R d i p) :
    n.receive p = (n.notify p.header.keyId p.header.relayIp p.header.keyPort, []) := by
  simp only [DAENode.receive, AnonymousPacket.isInternalMsg, hp.msgType, hp.id,
    DAENode.processMessage]

theorem quiet_nil : ∀ e ∈ ([] : List Effect), Quiet e := fun e he => by cases he

theorem quiet_send (q : AnonymousPacket) : ∀ e ∈ [Effect.directSend q], Quiet e := by
  intro e he q' hq'
  rw [hq'] at he
  cases List.mem_singleton.mp he

section Refinement

variable [DecidableEq ι] {s : System ι} {k : Nat} {v : Option ι}

/-- Only the pointers of the node that moved have changed. -/
theorem shows_after {s' : System ι} {r : DAENode × List Effect}
    {net : List AnonymousPacket} {y : Pointers ι} (hs : Shows R x s)
    (hafter : After s s' i r net) (hnode : NodeShows R y i r.1)
    (hother : ∀ j, j ≠ i → y.succ j = x.succ j ∧ y.pred j = x.pred j ∧
      y.heard j = x.heard j) : Shows R y s' := by
  refine ⟨fun j => (hafter.cfg j).trans (hs.cfg j), ?_⟩
  intro j
  rw [hafter.nodes]
  by_cases hj : j = i
  · subst hj
    rw [Function.update_self]
    exact hnode
  · rw [Function.update_of_ne hj]
    obtain ⟨hsucc, hpred, hheard⟩ := hother j hj
    have hold := hs.node j
    exact ⟨hold.toOwns, hsucc ▸ hold.succ, hpred ▸ hold.pred, hheard ▸ hold.heard⟩

theorem ask_delivered (hs : Shows R x s) (hk : s.net[k]? = some p)
    (hp : IsAsk R i d p) (hdest : p.dest = (s.relays j).addr) :
    ∃ p', IsTold R i (x.pred d) p' ∧ Shows R x (s.step (.deliver j k)) ∧
      (s.step (.deliver j k)).net = s.net.eraseIdx k ++ [p'] := by
  have hjd : j = d := R.addr_inj ((hs.addr j).symm.trans (hdest.symm.trans hp.dest))
  subst hjd
  obtain ⟨p', hrecv, htold⟩ := receive_ask (hs.node j) hp
  have hafter := after_deliver hk hdest (by rw [hrecv]; exact quiet_send p')
  rw [hrecv] at hafter
  exact ⟨p', htold, shows_after hs hafter (hs.node j) (fun _ _ => ⟨rfl, rfl, rfl⟩),
    hafter.net⟩

theorem told_delivered (hs : Shows R x s) (hk : s.net[k]? = some p)
    (hp : IsTold R i v p) (hdest : p.dest = (s.relays j).addr) :
    Shows R { x with heard := Function.update x.heard i v } (s.step (.deliver j k)) ∧
      (s.step (.deliver j k)).net = s.net.eraseIdx k := by
  have hji : j = i := R.addr_inj ((hs.addr j).symm.trans (hdest.symm.trans hp.dest))
  subst hji
  have hrecv := receive_told (n := s.nodes j) hp
  have hafter := after_deliver hk hdest (by rw [hrecv]; exact quiet_nil)
  rw [hrecv] at hafter
  refine ⟨shows_after hs hafter ?_ ?_, by simpa using hafter.net⟩
  · have hold := hs.node j
    refine ⟨⟨hold.m, hold.id, hold.ip, hold.port⟩, hold.succ, hold.pred, ?_⟩
    show Names R (Function.update x.heard j v j) _
    rw [Function.update_self]
    exact hp.names
  · intro l hl
    exact ⟨rfl, rfl, Function.update_of_ne hl ..⟩

theorem tell_delivered (hs : Shows R x s) (hk : s.net[k]? = some p)
    (hp : IsTell R d i p) (hdest : p.dest = (s.relays j).addr) :
    Shows R { x with pred := Function.update x.pred d (noted R.circle x d i) }
        (s.step (.deliver j k)) ∧
      (s.step (.deliver j k)).net = s.net.eraseIdx k := by
  have hjd : j = d := R.addr_inj ((hs.addr j).symm.trans (hdest.symm.trans hp.dest))
  subst hjd
  have hrecv := receive_tell (n := s.nodes j) hp
  have hafter := after_deliver hk hdest (by rw [hrecv]; exact quiet_nil)
  rw [hrecv] at hafter
  refine ⟨shows_after hs hafter (shows_notify (hs.node j) hp.notifier) ?_,
    by simpa using hafter.net⟩
  intro l hl
  exact ⟨rfl, Function.update_of_ne hl .., rfl⟩

/-! ## The orders in which the packets can arrive -/

/-- The one packet in flight is handed over. -/
theorem ends_one {Post : System ι → Prop} (hs : Shows R x s) (hnet : s.net = [p])
    (hdest : p.dest = R.addr d)
    (h : ∀ j, s.net[0]? = some p → p.dest = (s.relays j).addr →
      Ends (s.step (.deliver j 0)) Post) : Ends s Post := by
  have hfirst : s.net[0]? = some p := by rw [hnet]; rfl
  refine ends_deliver (by rw [hnet]; simp) ⟨d, 0, p, hfirst, ?_⟩ ?_
  · rw [hs.addr d, hdest]
  · intro j k q hk hq
    rw [hnet] at hk
    obtain ⟨hlt, hpq⟩ := List.getElem?_eq_some_iff.mp hk
    have hk0 : k = 0 := Nat.lt_one_iff.mp hlt
    subst hk0
    have hqp : q = p := hpq.symm
    subst hqp
    exact h j hfirst hq

/-- One of the two packets in flight is handed over. -/
theorem ends_two {Post : System ι → Prop} {q : AnonymousPacket} (hs : Shows R x s)
    (hnet : s.net = [p, q]) (hdest : p.dest = R.addr d)
    (hfst : ∀ j, s.net[0]? = some p → p.dest = (s.relays j).addr →
      Ends (s.step (.deliver j 0)) Post)
    (hsnd : ∀ j, s.net[1]? = some q → q.dest = (s.relays j).addr →
      Ends (s.step (.deliver j 1)) Post) : Ends s Post := by
  have hfirst : s.net[0]? = some p := by rw [hnet]; rfl
  have hsecond : s.net[1]? = some q := by rw [hnet]; rfl
  refine ends_deliver (by rw [hnet]; simp) ⟨d, 0, p, hfirst, ?_⟩ ?_
  · rw [hs.addr d, hdest]
  · intro j k u hk hu
    have hlt : k < 2 := by
      rw [hnet] at hk
      exact (List.getElem?_eq_some_iff.mp hk).1
    have hk01 : k = 0 ∨ k = 1 := by omega
    rcases hk01 with rfl | rfl
    · rw [hfirst] at hk
      injection hk with hk
      subst hk
      exact hfst j hfirst hu
    · rw [hsecond] at hk
      injection hk with hk
      subst hk
      exact hsnd j hsecond hu

theorem ends_told (hs : Shows R x s) (hnet : s.net = [p]) (hp : IsTold R i v p) :
    Ends s (Shows R { x with heard := Function.update x.heard i v }) := by
  refine ends_one hs hnet hp.dest fun j hk hdest => ?_
  obtain ⟨hshows, hrest⟩ := told_delivered hs hk hp hdest
  rw [hnet] at hrest
  exact ends_nil hrest hshows

theorem ends_tell (hs : Shows R x s) (hnet : s.net = [p]) (hp : IsTell R d i p) :
    Ends s (Shows R
      { x with pred := Function.update x.pred d (noted R.circle x d i) }) := by
  refine ends_one hs hnet hp.dest fun j hk hdest => ?_
  obtain ⟨hshows, hrest⟩ := tell_delivered hs hk hp hdest
  rw [hnet] at hrest
  exact ends_nil hrest hshows

theorem ends_ask (hs : Shows R x s) (hnet : s.net = [p]) (hp : IsAsk R i d p) :
    Ends s (Shows R { x with heard := Function.update x.heard i (x.pred d) }) := by
  refine ends_one hs hnet hp.dest fun j hk hdest => ?_
  obtain ⟨p', htold, hshows, hrest⟩ := ask_delivered hs hk hp hdest
  rw [hnet] at hrest
  exact ends_told hshows hrest htold

theorem ends_tell_told {q : AnonymousPacket} (hs : Shows R x s)
    (hnet : s.net = [p, q]) (hp : IsTell R d i p) (hq : IsTold R i v q) :
    Ends s (Shows R
      { x with pred := Function.update x.pred d (noted R.circle x d i)
               heard := Function.update x.heard i v }) := by
  refine ends_two hs hnet hp.dest ?_ ?_
  · intro j hk hdest
    obtain ⟨hshows, hrest⟩ := tell_delivered hs hk hp hdest
    rw [hnet] at hrest
    exact ends_told hshows hrest hq
  · intro j hk hdest
    obtain ⟨hshows, hrest⟩ := told_delivered hs hk hq hdest
    rw [hnet] at hrest
    exact ends_tell hshows hrest hp

/-- Asking and telling at the same time: the answer is from before or from
after the telling. -/
theorem ends_ask_tell {q : AnonymousPacket} {d' : ι} (hs : Shows R x s)
    (hnet : s.net = [p, q]) (hp : IsAsk R i d p) (hq : IsTell R d' i q) :
    Ends s (fun s' => ∃ v,
      (v = x.pred d ∨
        v = Function.update x.pred d' (noted R.circle x d' i) d) ∧
      Shows R { x with pred := Function.update x.pred d' (noted R.circle x d' i)
                       heard := Function.update x.heard i v } s') := by
  refine ends_two hs hnet hp.dest ?_ ?_
  · intro j hk hdest
    obtain ⟨p', htold, hshows, hrest⟩ := ask_delivered hs hk hp hdest
    rw [hnet] at hrest
    obtain ⟨hex, hall⟩ := ends_tell_told hshows hrest hq htold
    exact ⟨hex, fun s' hs' => ⟨_, Or.inl rfl, hall s' hs'⟩⟩
  · intro j hk hdest
    obtain ⟨hshows, hrest⟩ := tell_delivered hs hk hq hdest
    rw [hnet] at hrest
    obtain ⟨hex, hall⟩ := ends_ask hshows hrest hp
    exact ⟨hex, fun s' hs' => ⟨_, Or.inr rfl, hall s' hs'⟩⟩

/-- A call of `stabilize` and what it sends is one member stabilising. -/
theorem stabilize_refines (hs : Shows R x s) (hnet : s.net = []) (i : ι) :
    Ends (s.step (.stabilize i)) fun s' =>
      ∃ y, Stabilizes R.circle i x y ∧ Shows R y s' := by
  have hn := hs.node i
  have hn' := shows_adopt hn
  have hsucc' : ((adopt (s.nodes i)).fingerTable 0).peer =
      R.peer (adopted R.circle x i) := by
    have := hn'.succ
    rwa [show ({ x with succ := Function.update x.succ i (adopted R.circle x i) } :
      Pointers ι).succ i = adopted R.circle x i from Function.update_self ..] at this
  have hask : ∃ p, askPredecessor (s.nodes i) = .directSend p ∧
      IsAsk R i (x.succ i) p :=
    ⟨_, rfl, rfl, rfl, hn.addr, Prod.ext hn.ip hn.port⟩
  obtain ⟨p, hp, hpask⟩ := hask
  have htell : ∃ q, tellSuccessor (adopt (s.nodes i)) = .directSend q ∧
      IsTell R (adopted R.circle x i) i q := by
    refine ⟨_, rfl, rfl, rfl, ?_, ?_⟩
    · exact Prod.ext (congrArg PeerPair.ip hsucc') (congrArg PeerPair.port hsucc')
    · show (⟨(adopt (s.nodes i)).nodeIp, (adopt (s.nodes i)).port,
        (adopt (s.nodes i)).id⟩ : PeerPair) = _
      rw [hn'.ip, hn'.port, hn'.id]
      rfl
  obtain ⟨q, hq, hqtell⟩ := htell
  have hself : (adopt (s.nodes i)).successor = (adopt (s.nodes i)).id ↔
      adopted R.circle x i = i := by
    rw [successor_of_peer hsucc', hn'.id, R.id_eq_iff]
  have hstab := stabilize_eq (s.nodes i)
  rw [hp, hq] at hstab
  have hother : ∀ j, j ≠ i →
      Function.update x.succ i (adopted R.circle x i) j = x.succ j ∧
        x.pred j = x.pred j ∧ x.heard j = x.heard j :=
    fun j hj => ⟨Function.update_of_ne hj .., rfl, rfl⟩
  by_cases hhome : adopted R.circle x i = i
  · rw [if_neg (not_not.mpr (hself.mpr hhome))] at hstab
    have hafter := after_handle (s := s) (i := i) (f := DAENode.stabilize)
      (by rw [hstab]; exact quiet_send p)
    rw [hstab] at hafter
    obtain ⟨hex, hall⟩ := ends_ask (shows_after hs hafter hn' hother)
      (by rw [hafter.net, hnet]; rfl) hpask
    refine ⟨hex, fun s' hs' => ⟨_, ⟨rfl, ?_, _, rfl, Or.inl rfl⟩, hall s' hs'⟩⟩
    rw [if_pos hhome]
  · rw [if_pos (hself.not.mpr hhome)] at hstab
    have hafter := after_handle (s := s) (i := i) (f := DAENode.stabilize)
      (by
        rw [hstab]
        intro e he
        rcases List.mem_cons.mp he with rfl | he
        · exact quiet_send p _ (by simp)
        · exact quiet_send q e he)
    rw [hstab] at hafter
    obtain ⟨hex, hall⟩ := ends_ask_tell (shows_after hs hafter hn' hother)
      (by rw [hafter.net, hnet]; rfl) hpask hqtell
    refine ⟨hex, fun s' hs' => ?_⟩
    obtain ⟨v, hv, hshows⟩ := hall s' hs'
    refine ⟨_, ⟨rfl, ?_, v, rfl, ?_⟩, hshows⟩
    · rw [if_neg hhome]
      rfl
    · exact hv

/-! ## Rounds -/

/-- The nodes of a list call `stabilize` one after the other. -/
inductive RoundOf : List ι → System ι → System ι → Prop where
  | nil (s : System ι) : RoundOf [] s s
  | cons {i : ι} {is : List ι} {s s' s'' : System ι}
      (h : Settles (s.step (.stabilize i)) s') (hrest : RoundOf is s' s'') :
      RoundOf (i :: is) s s''

theorem settles_net {s' : System ι} (h : Settles s s') : s'.net = [] := by
  induction h with
  | done h => exact h
  | deliver _ _ _ ih => exact ih

theorem round_refines {order : List ι} {s' : System ι} (h : RoundOf order s s') :
    ∀ {x : Pointers ι}, Shows R x s → s.net = [] →
      ∃ y, Round R.circle order x y ∧ Shows R y s' ∧ s'.net = [] := by
  induction h with
  | nil s => exact fun {x} hs hnet => ⟨x, .nil x, hs, hnet⟩
  | cons hstep _ ih =>
      intro x hs hnet
      obtain ⟨y, hy, hshows⟩ := (stabilize_refines hs hnet _).2 _ hstep
      obtain ⟨z, hz, hend⟩ := ih hshows (settles_net hstep)
      exact ⟨z, .cons hy hz, hend⟩

theorem round_exists (order : List ι) : ∀ {s : System ι} {x : Pointers ι},
    Shows R x s → s.net = [] → ∃ s', RoundOf order s s' := by
  induction order with
  | nil => exact fun {s _} _ _ => ⟨s, .nil s⟩
  | cons i is ih =>
      intro s x hs hnet
      obtain ⟨⟨s', hs'⟩, hall⟩ := stabilize_refines hs hnet i
      obtain ⟨y, _, hshows⟩ := hall s' hs'
      obtain ⟨s'', hrest⟩ := ih hshows (settles_net hs')
      exact ⟨s'', .cons hs' hrest⟩

/-- Rounds of `stabilize` in any orders can be run for ever from `s`, and after a
number of rounds that does not depend on the orders every first finger is the
next node, every predecessor is the previous one, and no round changes
either. -/
def Converges (R : Roster ι) (s : System ι) : Prop :=
  ∃ K, ∀ orders : Nat → List ι, (∀ r i, i ∈ orders r) →
    (∃ st : Nat → System ι, st 0 = s ∧
      ∀ r, RoundOf (orders r) (st r) (st (r + 1))) ∧
    ∀ st : Nat → System ι, st 0 = s →
      (∀ r, RoundOf (orders r) (st r) (st (r + 1))) → ∀ r, K ≤ r → ∀ i,
        (∃ j, R.IsNext i j ∧
          (((st r).nodes i).fingerTable 0).peer = R.peer j) ∧
        (∃ j, R.IsNext j i ∧ ((st r).nodes i).predecessorPeer = R.peer j) ∧
        (((st (r + 1)).nodes i).fingerTable 0).peer =
          (((st r).nodes i).fingerTable 0).peer ∧
        ((st (r + 1)).nodes i).predecessorPeer =
          ((st r).nodes i).predecessorPeer

/-- The pointers after any number of rounds from pointers `x`. -/
theorem rounds_refine {orders : Nat → List ι} (hall : ∀ r i, i ∈ orders r)
    (hs : Shows R x s) (hnet : s.net = []) {st : Nat → System ι} (hst : st 0 = s)
    (hrounds : ∀ r, RoundOf (orders r) (st r) (st (r + 1))) (r : Nat) :
    ∃ y, Rounds R.circle r x y ∧ Shows R y (st r) ∧ (st r).net = [] := by
  induction r with
  | zero => exact ⟨x, .zero x, hst ▸ hs, hst ▸ hnet⟩
  | succ r ih =>
      obtain ⟨y, hy, hshows, hempty⟩ := ih
      obtain ⟨z, hz, hend⟩ := round_refines (hrounds r) hshows hempty
      exact ⟨z, .succ hy (hall r) hz, hend⟩

/-- Stabilisation converges from every state of a calm stepwise run in which all
nodes, at least two, have joined and nothing is in flight. -/
theorem stabilization_converges [Nontrivial ι] (R : Roster ι) (hm : R.m ≤ 30) (b : ι)
    (hthrough : JoinThrough R b) (acts : List (Act ι))
    (hrun : Always System.step (fun s a => Stepwise s a ∧ Calm R s a)
      (System.init R.cfg) acts)
    (hjoined : ∀ i, i ∈ insert b (joinedIn (System.init R.cfg) acts))
    (hnet : ((System.init R.cfg).run acts).net = []) :
    Converges R ((System.init R.cfg).run acts) := by
  have hg := run_growing hm hthrough acts _ _ init_growing hrun
  rw [Set.singleton_union, Set.eq_univ_of_forall hjoined] at hg
  have := R.finite
  have := Fintype.ofFinite ι
  obtain ⟨x, hs, hx⟩ := shows_of_growing hg
  refine ⟨3 * (potential R.circle x + 1), fun orders hall => ⟨?_, ?_⟩⟩
  · have hstep : ∀ (r : Nat) (t : { t : System ι // ∃ y, Shows R y t ∧ t.net = [] }),
        ∃ t' : { t : System ι // ∃ y, Shows R y t ∧ t.net = [] },
          RoundOf (orders r) t.1 t'.1 := by
      rintro r ⟨t, y, hy, ht⟩
      obtain ⟨t', ht'⟩ := round_exists (orders r) hy ht
      obtain ⟨z, _, hz⟩ := round_refines ht' hy ht
      exact ⟨⟨t', z, hz⟩, ht'⟩
    choose next hnext using hstep
    let st : Nat → { t : System ι // ∃ y, Shows R y t ∧ t.net = [] } :=
      fun r => Nat.rec ⟨_, x, hs, hnet⟩ (fun r t => next r t) r
    exact ⟨fun r => (st r).1, rfl, fun r => hnext r (st r)⟩
  · intro st hst hrounds
    have hsettled : ∀ r, 3 * (potential R.circle x + 1) ≤ r → ∀ i,
        (∃ j, R.IsNext i j ∧ (((st r).nodes i).fingerTable 0).peer = R.peer j) ∧
        ∃ j, R.IsNext j i ∧ ((st r).nodes i).predecessorPeer = R.peer j := by
      intro r hr i
      obtain ⟨y, hy, hshows, _⟩ := rounds_refine hall hs hnet hst hrounds r
      exact ideal_of_settled hshows (converges hx hr hy) i
    intro r hr i
    obtain ⟨⟨j, hj, hfinger⟩, l, hl, hpred⟩ := hsettled r hr i
    obtain ⟨⟨j', hj', hfinger'⟩, l', hl', hpred'⟩ := hsettled (r + 1) (by omega) i
    refine ⟨⟨j, hj, hfinger⟩, ⟨l, hl, hpred⟩, ?_, ?_⟩
    · rw [hfinger, hfinger', R.isNext_unique hj hj']
    · rw [hpred, hpred', R.isNext_left_inj hl hl']

theorem stabilization_converges_pair :
    ∃ K, ∃ st : Nat → System (Fin 2),
      st 0 = (System.init pairRoster.cfg).run pairInOrder ∧
      (∀ r, RoundOf [0, 1] (st r) (st (r + 1))) ∧
      ∀ r, K ≤ r → ∃ j, pairRoster.IsNext j 0 ∧
        ((st r).nodes 0).predecessorPeer = pairRoster.peer j := by
  have hjoined : ∀ i, i ∈ insert 0 (joinedIn (System.init pairRoster.cfg) pairInOrder) :=
    Fin.forall_fin_two.mpr ⟨Or.inl rfl, Or.inr pairInOrder_joined⟩
  obtain ⟨K, hK⟩ := stabilization_converges pairRoster (by decide) 0
    pairRoster_joinThrough pairInOrder pairInOrder_calm hjoined (by decide +kernel)
  obtain ⟨⟨st, hst, hrounds⟩, hend⟩ := hK (fun _ => [0, 1])
    (fun _ i => by revert i; decide)
  exact ⟨K, st, hst, hrounds, fun r hr => (hend st hst hrounds r hr 0).2.1⟩

/-! ## The split ring -/

/-- Every node its own successor, and nobody known to anybody. -/
def apart : Pointers ι := ⟨id, fun _ => none, fun _ => none⟩

theorem stabilizes_apart {C : Circle ι} {y : Pointers ι} (h : Stabilizes C i apart y) :
    y = apart := by
  have hadopt : adopted C apart i = i := rfl
  obtain ⟨hsucc, hpred, v, hheard, hv⟩ := h
  rw [hadopt, if_pos rfl] at hpred
  have hnone : v = none := by
    rcases hv with hv | hv
    · exact hv
    · rw [hv, hpred]
      rfl
  obtain ⟨succ, pred, heard⟩ := y
  simp only at hsucc hpred hheard
  rw [hsucc, hpred, hheard, hadopt, hnone]
  exact congrArg₂ (fun f g => (⟨f, fun _ => none, g⟩ : Pointers ι))
    (Function.update_eq_self i id) (Function.update_eq_self i fun _ => none)

/-- No round brings such nodes together. -/
theorem rounds_apart {C : Circle ι} {r : Nat} {y : Pointers ι}
    (h : Rounds C r apart y) : y = apart := by
  have hround : ∀ {order : List ι} {x z : Pointers ι}, Round C order x z →
      x = apart → z = apart := by
    intro order x z h
    induction h with
    | nil x => exact id
    | cons hstep _ ih =>
        rintro rfl
        exact ih (stabilizes_apart hstep)
  generalize hx : (apart : Pointers ι) = x at h
  induction h with
  | zero x => rfl
  | succ _ _ hlast ih =>
      subst hx
      exact hround hlast (ih rfl)

/-- From the split ring, which a stepwise run reaches with all nodes joined and
everything delivered, rounds change nothing. -/
theorem split_ring_stays :
    JoinThrough pairRoster 0 ∧
    Always System.step Stepwise (System.init pairRoster.cfg) pairCrossed ∧
    (∀ i, i ∈ insert 0 (joinedIn (System.init pairRoster.cfg) pairCrossed)) ∧
    ((System.init pairRoster.cfg).run pairCrossed).net = [] ∧
    ¬ Converges pairRoster ((System.init pairRoster.cfg).run pairCrossed) := by
  have hnet : ((System.init pairRoster.cfg).run pairCrossed).net = [] := by
    decide +kernel
  refine ⟨pairRoster_joinThrough, by decide +kernel,
    Fin.forall_fin_two.mpr ⟨Or.inl rfl, Or.inr pairCrossed_joined⟩, hnet, ?_⟩
  have hshows : Shows pairRoster apart ((System.init pairRoster.cfg).run pairCrossed) := by
    have hok := run_identity (R := pairRoster) pairCrossed (by decide +kernel)
    have hnone : ∀ t : PeerPair, t.relayId = noId → Names pairRoster none t :=
      fun _ h => h
    refine ⟨hok.cfg, fun i => ⟨(hok.node i).toOwns, ?_, hnone _ ?_, hnone _ ?_⟩⟩
    · revert i
      decide +kernel
    · revert i
      decide +kernel
    · revert i
      decide +kernel
  rintro ⟨K, hK⟩
  have hall : ∀ (r : Nat) (i : Fin 2), i ∈ [0, 1] := fun _ i => by revert i; decide
  obtain ⟨⟨st, hst, hrounds⟩, hend⟩ := hK (fun _ => [0, 1]) hall
  obtain ⟨y, hy, hlast, _⟩ := rounds_refine hall hshows hnet hst hrounds K
  rw [rounds_apart hy] at hlast
  obtain ⟨⟨j, hj, hfinger⟩, _⟩ := hend st hst hrounds K (Nat.le_refl K) 1
  have hself : j = 1 := pairRoster.peer_inj (hfinger.symm.trans (hlast.node 1).succ)
  subst hself
  exact absurd (hj 0) (by decide)

end Refinement

end Daenet.Proofs
