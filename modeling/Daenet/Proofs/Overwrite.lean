import Daenet.Proofs.Identity
import Daenet.Proofs.Routing

/-!
# When the successor pointer only moves closer

`stabilize` and `notify` compare before they write. The handler of
`internal_reply_find_successor` does not: whatever index and node a reply
carries are written, however old the reply is. For the first finger this undoes
newer writes — `successor_overwritten` is the shortest such run, in which a
node that has just joined is made its own successor again by the answer to the
question its own `fix_fingers` asked a moment before.

What goes wrong is a change of the first finger while another lookup for it is
outstanding. `Calm` is the condition that this does not happen, and
`successor_moves_closer` says that it is the only thing that can: in runs of
calm steps the pointer never moves away. The invariant is `current`: once a
node has a successor, every packet in flight of a lookup for its first finger
is a reply that carries that successor.
-/

namespace Daenet.Proofs

open Daenet.Lib Daenet.Ref Daenet.Spec

variable {ι : Type} {R : Roster ι} {i j : ι} {n : DAENode} {p : AnonymousPacket}

/-- A packet of a question that node `i` asked about fingers or predecessors:
the question itself, or the answer. -/
def Concerns (R : Roster ι) (i : ι) (p : AnonymousPacket) : Prop :=
  match p.header.id with
  | .internalJoinFindSuccessor => p.replyTo = R.addr i
  | .internalReplyFindSuccessor => p.dest = R.addr i
  | .internalFindPredecessor => p.replyTo = R.addr i
  | .internalReplyGetPredecessor => p.dest = R.addr i
  | _ => False

/-- A packet of a lookup of node `i` for its first finger. -/
def FirstLookup (R : Roster ι) (i : ι) (p : AnonymousPacket) : Prop :=
  Concerns R i p ∧ p.header.index = 0 ∧
    (p.header.id = .internalJoinFindSuccessor ∨
      p.header.id = .internalReplyFindSuccessor)

/-- A reply that carries the triple `t`. -/
def Carrying (t : PeerPair) (p : AnonymousPacket) : Prop :=
  p.header.id = .internalReplyFindSuccessor ∧ p.keyPeer = t

/-- The condition on a step: if it gives the first finger of a node another
value, every other packet in flight of a lookup for that finger is a reply that
carries this value. -/
def Calm (R : Roster ι) (s : System ι) : Act ι → Prop
  | .stabilize i =>
      (s.nodes i).isInRange (s.nodes i).id (s.nodes i).successor
          (s.nodes i).predecessorOfSuccessor = true →
        ∀ q ∈ s.net, FirstLookup R i q → Carrying (s.nodes i).ofSuccessorPeer q
  | .deliver i k =>
      ∀ p, s.net[k]? = some p → p.header.id = .internalReplyFindSuccessor →
        p.header.index = 0 → p.keyPeer ≠ ((s.nodes i).fingerTable 0).peer →
        ∀ q ∈ s.net.eraseIdx k, FirstLookup R i q → Carrying p.keyPeer q
  | _ => True

/-- A step of a failure-free run with the failure checks off. The timers of a
node are started by its `join`. -/
def Regular (s : System ι) : Act ι → Prop
  | .join _ => True
  | .stabilize i => (s.relays i).started = true
  | .fixFingers i => (s.relays i).started = true
  | .fetchSuccessorList i => (s.relays i).started = true
  | .runTask _ _ => True
  | .deliver _ _ => True
  | _ => False

/-- A run of regular and calm steps. -/
def CalmRun [DecidableEq ι] (R : Roster ι) : System ι → List (Act ι) → Prop
  | _, [] => True
  | s, a :: acts => Regular s a ∧ Calm R s a ∧ CalmRun R (s.step a) acts

/-- The invariant of calm runs. -/
structure Orderly (R : Roster ι) (s : System ι) : Prop where
  ok : Holds R.cfg (NodeOk R) (PacketOk R) anyTask s
  starts : ∀ i, R.Starts i (s.nodes i)
  asked : ∀ i, ∀ p ∈ s.net, Concerns R i p → (s.relays i).started = true
  tasks : ∀ i, ∀ t ∈ (s.relays i).tasks,
    t = .joinRetry ∧ (s.relays i).started = true
  fresh : ∀ i, (s.relays i).started = false →
    ((s.nodes i).fingerTable 0).peer = R.peer i ∧
      (s.nodes i).predecessorOfSuccessor = noId
  current : ∀ i, (s.nodes i).successor ≠ R.id i → ∀ p ∈ s.net,
    FirstLookup R i p → Carrying ((s.nodes i).fingerTable 0).peer p

/-! ## What a handler adds -/

/-- What a node sends when a timer of its own fires: only questions of its own,
and about its first finger only what it holds. -/
structure Own (R : Roster ι) (i : ι) (r : DAENode × List Effect) : Prop where
  starts : R.Starts i r.1
  concerns : ∀ p ∈ r.2.filterMap sent, ∀ j, Concerns R j p → j = i
  first : r.1.successor ≠ R.id i → ∀ p ∈ r.2.filterMap sent,
    FirstLookup R i p → Carrying (r.1.fingerTable 0).peer p
  tasks : ∀ t ∈ r.2.filterMap scheduled, t = .joinRetry

theorem starts_setFinger {k : Int} {t : PeerPair} (h : R.Starts i n) :
    R.Starts i (n.setFinger k t) := by
  intro u hu
  rw [DAENode.setFinger_start]
  exact h u hu

theorem starts_adopt (h : R.Starts i n) : R.Starts i (adopt n) := by
  unfold adopt
  split
  · exact starts_setFinger h
  · exact h

theorem addr_eq_self (h : R.Owns i n) (hj : (n.nodeIp, n.port) = R.addr j) :
    j = i := by
  rw [h.ip, h.port] at hj
  exact (R.addr_inj hj).symm

/-- A lookup becomes one packet, under its index, that concerns whom the answer
is for. -/
theorem lookup_sent (n : DAENode) (ip : String) (port index : Int) (k : Nat) :
    ∃ p, n.handleFindSuccessor ip port index k = .directSend p ∧
      p.header.index = index ∧ ∀ j, Concerns R j p → (ip, port) = R.addr j := by
  unfold DAENode.handleFindSuccessor
  split_ifs
  · exact ⟨_, rfl, rfl, fun _ hj => hj⟩
  · exact ⟨_, rfl, rfl, fun _ hj => hj⟩
  · exact ⟨_, rfl, rfl, fun _ hj => hj⟩
  · exact ⟨_, rfl, rfl, fun _ hj => hj⟩

theorem own_stabilize (h : NodeOk R i n) (hst : R.Starts i n) :
    Own R i n.stabilize := by
  rw [stabilize_eq]
  have hcase : ∀ p ∈ (askPredecessor n ::
      if (adopt n).successor ≠ (adopt n).id then [tellSuccessor (adopt n)]
      else []).filterMap sent,
      (p.header.id = .internalFindPredecessor ∧ p.replyTo = (n.nodeIp, n.port)) ∨
        p.header.id = .internalNotifyPredecessorJoin := by
    intro p hp
    obtain ⟨e, he, hsent⟩ := List.mem_filterMap.mp hp
    rcases List.mem_cons.mp he with rfl | he
    · injection hsent with hsent
      subst hsent
      exact Or.inl ⟨rfl, rfl⟩
    · split at he
      · rw [List.mem_singleton.mp he] at hsent
        injection hsent with hsent
        subst hsent
        exact Or.inr rfl
      · cases he
  refine ⟨starts_adopt hst, ?_, ?_, ?_⟩
  · intro p hp j hj
    unfold Concerns at hj
    rcases hcase p hp with ⟨hid, hrep⟩ | hid
    · rw [hid] at hj
      exact addr_eq_self h.toOwns (hrep.symm.trans hj)
    · rw [hid] at hj
      exact hj.elim
  · rintro _ p hp ⟨_, _, hid⟩
    rcases hcase p hp with ⟨hask, _⟩ | htell
    · rw [hask] at hid
      rcases hid with hid | hid <;> cases hid
    · rw [htell] at hid
      rcases hid with hid | hid <;> cases hid
  · intro t ht
    obtain ⟨e, he, hsched⟩ := List.mem_filterMap.mp ht
    rcases List.mem_cons.mp he with rfl | he
    · cases hsched
    · split at he
      · rw [List.mem_singleton.mp he] at hsched
        cases hsched
      · cases he

/-- `fix_fingers` leaves the first finger and asks about it with what it is. -/
theorem own_fixFingers (hm : R.m ≤ 30) (h : NodeOk R i n) (hst : R.Starts i n) :
    Own R i n.fixFingers ∧ n.fixFingers.1.fingerTable 0 = n.fingerTable 0 ∧
      n.fixFingers.1.predecessorOfSuccessor = n.predecessorOfSuccessor := by
  have hinv := fixFingers_induct (n := n)
    (P := fun n' es => NodeOk R i n' ∧ R.Starts i n' ∧
      n'.fingerTable 0 = n.fingerTable 0 ∧
      n'.predecessorOfSuccessor = n.predecessorOfSuccessor ∧
      ∀ e ∈ es, ∃ p, e = .directSend p ∧ (∀ j, Concerns R j p → j = i) ∧
        (p.header.index = 0 → Carrying (n.fingerTable 0).peer p))
    ⟨h, hst, rfl, rfl, ?_⟩ ?_ ?_
  · obtain ⟨_, hst', hzero, hpos, hes⟩ := hinv
    have hsent : ∀ p ∈ n.fixFingers.2.filterMap sent, .directSend p ∈ n.fixFingers.2 := by
      intro p hp
      obtain ⟨e, he, hsent⟩ := List.mem_filterMap.mp hp
      obtain ⟨q, rfl, _⟩ := hes e he
      injection hsent with hsent
      exact hsent ▸ he
    refine ⟨⟨hst', ?_, ?_, ?_⟩, hzero, hpos⟩
    · intro p hp
      obtain ⟨q, hq, hconc, _⟩ := hes _ (hsent p hp)
      injection hq with hq
      exact hq ▸ hconc
    · intro _ p hp hfirst
      obtain ⟨q, hq, _, hcar⟩ := hes _ (hsent p hp)
      injection hq with hq
      subst hq
      rw [hzero]
      exact hcar hfirst.2.1
    · intro t ht
      obtain ⟨e, he, hsched⟩ := List.mem_filterMap.mp ht
      obtain ⟨q, rfl, _⟩ := hes e he
      cases hsched
  · intro e he
    rw [List.mem_singleton.mp he]
    obtain ⟨p, hp, hrep, hkey⟩ := lookUp_zero hm h.toOwns h.live hst
    refine ⟨p, hp, ?_, fun _ => ⟨hrep.id, hkey⟩⟩
    intro j hj
    unfold Concerns at hj
    rw [hrep.id] at hj
    exact R.addr_inj (hj.symm.trans hrep.dest)
  · rintro n' es t _ ⟨hok, hst', hzero, hpos, hes⟩ _
    rw [h.m] at *
    refine ⟨nodeOk_setFinger hok (hok.live t (by omega)), starts_setFinger hst', ?_,
      hpos, hes⟩
    rw [DAENode.setFinger_of_ne _ _ (by omega)]
    exact hzero
  · rintro n' es t _ ⟨hok, hst', hzero, hpos, hes⟩ _
    refine ⟨hok, hst', hzero, hpos, ?_⟩
    intro e he
    rcases List.mem_append.mp he with he | he
    · exact hes e he
    · rw [List.mem_singleton.mp he]
      obtain ⟨p, hp, hidx, hconc⟩ := lookup_sent (R := R) n' n'.nodeIp n'.port
        (t + 1 : Nat) (n'.fingerTable (t + 1 : Nat)).start
      refine ⟨p, hp, fun j hj => addr_eq_self hok.toOwns (hconc j hj), ?_⟩
      intro h0
      rw [hidx] at h0
      omega

/-- The questions of `join_with_help`: asked only while the node is its own
successor, so about its first finger nothing is claimed. -/
theorem own_help {n' : DAENode} {es : List Effect} (peer : PeerPair)
    (h : NodeOk R i n) (hst : R.Starts i n') (hself : n'.successor = R.id i)
    (hes : es = n.joinWithHelp peer ∨ es = []) : Own R i (n', es) := by
  rcases hes with rfl | rfl
  · refine ⟨hst, ?_, fun hne => absurd hself hne, ?_⟩
    · intro p hp j hj
      obtain rfl : _ = p := List.mem_singleton.mp hp |>.symm
      exact addr_eq_self h.toOwns hj
    · intro t ht
      exact List.mem_singleton.mp ht
  · exact ⟨hst, fun p hp => (by cases hp), fun _ p hp => (by cases hp),
      fun t ht => (by cases ht)⟩

theorem own_retry (h : NodeOk R i n) (hst : R.Starts i n) (peer : PeerPair) :
    Own R i (n.runTask peer .joinRetry) := by
  simp only [DAENode.runTask]
  by_cases hself : (n.fingerTable 0).successor = n.id
  · rw [if_pos hself]
    exact own_help peer h hst (hself.trans h.id) (Or.inl rfl)
  · rw [if_neg hself]
    exact ⟨hst, fun p hp => (by cases hp), fun _ p hp => (by cases hp),
      fun t ht => (by cases ht)⟩

theorem own_fetch (hst : R.Starts i n) : Own R i (n, n.fetchSuccessorList) := by
  have hfetch : ∀ p ∈ n.fetchSuccessorList.filterMap sent,
      p.header.id = .internalFetchSuccessorList := by
    intro p hp
    rw [List.mem_singleton.mp hp]
    rfl
  refine ⟨hst, ?_, ?_, fun t ht => by cases ht⟩
  · intro p hp j hj
    unfold Concerns at hj
    rw [hfetch p hp] at hj
    exact hj.elim
  · intro _ p hp hfirst
    have hid := hfirst.2.2
    rw [hfetch p hp] at hid
    rcases hid with hid | hid <;> cases hid

/-- Effects one after the other, at a node that is its own successor. -/
theorem own_append {n₁ n₂ : DAENode} {es₁ es₂ : List Effect}
    (h₁ : Own R i (n₁, es₁)) (h₂ : Own R i (n₂, es₂))
    (hself : n₂.successor = R.id i) : Own R i (n₂, es₁ ++ es₂) := by
  refine ⟨h₂.starts, ?_, fun hne => absurd hself hne, ?_⟩
  · intro p hp
    rw [List.filterMap_append] at hp
    rcases List.mem_append.mp hp with hp | hp
    · exact h₁.concerns p hp
    · exact h₂.concerns p hp
  · intro t ht
    rw [List.filterMap_append] at ht
    rcases List.mem_append.mp ht with ht | ht
    · exact h₁.tasks t ht
    · exact h₂.tasks t ht

/-- What `stabilize` does to the successor: it keeps it or takes a closer one. -/
theorem adopt_cases (h : NodeOk R i n) :
    (adopt n = n) ∨
      (n.isInRange n.id n.successor n.predecessorOfSuccessor = true ∧
        Between R.size (R.id i) n.predecessorOfSuccessor n.successor ∧
        adopt n = n.setFinger 0 n.ofSuccessorPeer) := by
  by_cases hin : n.isInRange n.id n.successor n.predecessorOfSuccessor = true
  · refine Or.inr ⟨hin, ?_, if_pos hin⟩
    have hid : n.id < 2 ^ n.m := by rw [h.m, h.id]; exact R.id_lt i
    have hne : n.predecessorOfSuccessor ≠ noId := by
      intro hno
      rw [hno, isInRange_noId (h.m ▸ R.bits_le) hid h.successor_lt] at hin
      cases hin
    obtain ⟨j, hj⟩ := h.ofSuccessor hne
    have hpos : n.predecessorOfSuccessor = R.id j :=
      (congrArg PeerPair.relayId hj).symm
    have hlt := h.successor_lt
    rw [h.m] at hlt
    refine (inRange_iff h.toOwns hlt ?_).mp hin
    rw [hpos]
    exact R.id_lt_size j
  · exact Or.inl (if_neg hin)

/-- The `join` of a node that has been told nothing leaves it its own
successor. -/
theorem own_join (hm : R.m ≤ 30) (h : NodeOk R i n) (hst : R.Starts i n)
    (hself : (n.fingerTable 0).peer = R.peer i)
    (hpos : n.predecessorOfSuccessor = noId) (peer : PeerPair) :
    Own R i (n.join peer) ∧ (n.join peer).1.successor = R.id i := by
  have hadopt : adopt n = n := by
    have hid : n.id < 2 ^ n.m := by rw [h.m, h.id]; exact R.id_lt i
    unfold adopt
    rw [hpos, isInRange_noId (h.m ▸ R.bits_le) hid h.successor_lt]
    rfl
  have hstab : n.stabilize.1 = n := by
    rw [stabilize_eq]
    exact hadopt
  have hsucc : n.successor = R.id i := successor_of_peer hself
  obtain ⟨hfix, hzero, _⟩ := own_fixFingers hm h hst
  have hend : n.fixFingers.1.successor = R.id i := by
    rw [DAENode.successor, hzero]
    exact hsucc
  have hjoin : n.join peer = (n.fixFingers.1,
      (if n.nodeIp ≠ peer.ip ∨ n.port ≠ peer.port then n.joinWithHelp peer
        else []) ++ n.stabilize.2 ++ n.fixFingers.2 ++
        n.fixFingers.1.fetchSuccessorList) := by
    unfold DAENode.join
    simp only [hstab]
  rw [hjoin]
  refine ⟨?_, hend⟩
  have hhelp : Own R i (n, if n.nodeIp ≠ peer.ip ∨ n.port ≠ peer.port then
      n.joinWithHelp peer else []) :=
    own_help peer h hst hsucc (by split <;> simp)
  have hask : Own R i (n, n.stabilize.2) := by
    have hown := own_stabilize h hst
    rwa [← Prod.mk.eta (p := n.stabilize), hstab] at hown
  have hlook : Own R i (n.fixFingers.1, n.fixFingers.2) := hfix
  exact own_append (own_append (own_append hhelp hask hsucc) hlook hend)
    (own_fetch hfix.starts) hend

/-! ## One step -/

theorem orderly_init : Orderly R (System.init R.cfg) where
  ok := init_holds
  starts := fun _ _ _ => rfl
  asked := fun i p hp => by cases hp
  tasks := fun i t ht => by cases ht
  fresh := fun _ _ => ⟨rfl, rfl⟩
  current := fun i _ p hp => by cases hp

/-- No datagram changes the successor of a node that has one: a reply to a
lookup for the first finger carries it already. -/
theorem deliver_successor {s : System ι} {i : ι} {k : Nat} {p : AnonymousPacket}
    (hs : Orderly R s) (hk : s.net[k]? = some p)
    (hdest : p.dest = (s.relays i).addr) (hne : (s.nodes i).successor ≠ R.id i) :
    ((s.nodes i).receive p).1.successor = (s.nodes i).successor := by
  have hp : p ∈ s.net := List.mem_of_getElem? hk
  have hhome : p.dest = R.addr i := by
    rw [hdest, Relay.addr, hs.ok.cfg i]
    rfl
  have hrecv := receives (n := s.nodes i) (hs.ok.net p hp).1
  generalize (s.nodes i).receive p = r at hrecv ⊢
  cases hrecv with
  | found hid =>
      by_cases h0 : p.header.index = 0
      · have hconc : Concerns R i p := by
          unfold Concerns
          rw [hid]
          exact hhome
        have hkey := (hs.current i hne p hp ⟨hconc, h0, Or.inr hid⟩).2
        have hsame : (s.nodes i).setFinger 0 ((s.nodes i).fingerTable 0).peer =
            s.nodes i := DAENode.setFinger_self ..
        rw [h0, hkey, hsame]
      · rw [DAENode.successor, DAENode.setFinger_of_ne _ _ (Ne.symm h0)]
        rfl
  | notified hid =>
      simp only [DAENode.notify]
      split <;> rfl
  | backup hid =>
      simp only [DAENode.handleReplySuccessorList]
      split <;> rfl
  | _ => rfl

variable [DecidableEq ι]

theorem join_started {s : System ι} {i : ι}
    (hquiet : ∀ e ∈ ((s.nodes i).join (s.relays i).cfg.initPeers).2, Quiet e) :
    ((s.step (.join i)).relays i).started = true := by
  simp only [System.step, System.join]
  split
  · assumption
  · simp only [System.move, Function.update_self]
    exact (performAll_quiet (r := { s.relays i with
      started := true
      node := ((s.nodes i).join (s.relays i).cfg.initPeers).1 }) hquiet).2.2.1

/-- What a firing at node `i` has to show. The datagrams it sends may concern
others; those left in flight concern its own new state. -/
structure Tidy (R : Roster ι) (s' : System ι) (i : ι) (r : DAENode × List Effect)
    (net : List AnonymousPacket) : Prop where
  starts : R.Starts i r.1
  asked : ∀ p ∈ r.2.filterMap sent, ∀ j, Concerns R j p →
    (s'.relays j).started = true
  tasks : ∀ t ∈ r.2.filterMap scheduled,
    t = .joinRetry ∧ (s'.relays i).started = true
  fresh : (s'.relays i).started = false →
    (r.1.fingerTable 0).peer = R.peer i ∧ r.1.predecessorOfSuccessor = noId
  left : r.1.successor ≠ R.id i → ∀ p ∈ net, FirstLookup R i p →
    Carrying (r.1.fingerTable 0).peer p
  new : ∀ p ∈ r.2.filterMap sent, ∀ j, (s'.nodes j).successor ≠ R.id j →
    FirstLookup R j p → Carrying ((s'.nodes j).fingerTable 0).peer p

theorem orderly_after {s s' : System ι} {i : ι} {r : DAENode × List Effect}
    {net : List AnonymousPacket} (hs : Orderly R s) (hafter : After s s' i r net)
    (hnet : ∀ p ∈ net, p ∈ s.net)
    (hok : Holds R.cfg (NodeOk R) (PacketOk R) anyTask s')
    (h : Tidy R s' i r net) : Orderly R s' := by
  have hself : s'.nodes i = r.1 := by rw [hafter.nodes, Function.update_self]
  have hother : ∀ j, j ≠ i → s'.nodes j = s.nodes j := by
    intro j hj
    rw [hafter.nodes, Function.update_of_ne hj]
  have hstarted : ∀ j, (s'.relays j).started = false →
      (s.relays j).started = false := by
    intro j hj
    by_contra hold
    rw [hafter.started j (by simpa using hold)] at hj
    cases hj
  refine ⟨hok, ?_, ?_, ?_, ?_, ?_⟩
  · intro j
    by_cases hj : j = i
    · subst hj
      rw [hself]
      exact h.starts
    · rw [hother j hj]
      exact hs.starts j
  · intro j p hp hconc
    rw [hafter.net] at hp
    rcases List.mem_append.mp hp with hold | hnew
    · exact hafter.started j (hs.asked j p (hnet p hold) hconc)
    · exact h.asked p hnew j hconc
  · intro j t ht
    rcases hafter.tasks j t ht with hold | ⟨rfl, hnew⟩
    · exact ⟨(hs.tasks j t hold).1, hafter.started j (hs.tasks j t hold).2⟩
    · exact h.tasks t hnew
  · intro j hj
    by_cases hji : j = i
    · subst hji
      rw [hself]
      exact h.fresh hj
    · rw [hother j hji]
      exact hs.fresh j (hstarted j hj)
  · intro j hne p hp hfirst
    rw [hafter.net] at hp
    rcases List.mem_append.mp hp with hold | hnew
    · by_cases hji : j = i
      · subst hji
        rw [hself] at hne ⊢
        exact h.left hne p hold hfirst
      · rw [hother j hji] at hne ⊢
        exact hs.current j hne p (hnet p hold) hfirst
    · exact h.new p hnew j hne hfirst

/-- A timer of a started node. -/
theorem tidy_own {s s' : System ι} {i : ι} {r : DAENode × List Effect}
    {net : List AnonymousPacket} (hafter : After s s' i r net) (h : Own R i r)
    (hstart : (s'.relays i).started = true)
    (hleft : r.1.successor ≠ R.id i → ∀ p ∈ net, FirstLookup R i p →
      Carrying (r.1.fingerTable 0).peer p) : Tidy R s' i r net := by
  refine ⟨h.starts, ?_, fun t ht => ⟨h.tasks t ht, hstart⟩, ?_, hleft, ?_⟩
  · intro p hp j hconc
    rw [h.concerns p hp j hconc]
    exact hstart
  · intro hno
    rw [hstart] at hno
    cases hno
  · intro p hp j hne hfirst
    obtain rfl := h.concerns p hp j hfirst.1
    rw [hafter.nodes, Function.update_self] at hne ⊢
    exact h.first hne p hp hfirst

/-- A received packet that leaves the finger table alone and does not send on a
lookup of a node that has a successor. -/
theorem tidy_keep {s s' : System ι} {i : ι} {r : DAENode × List Effect}
    {net : List AnonymousPacket} (hs : Orderly R s) (hafter : After s s' i r net)
    (hnet : ∀ p ∈ net, p ∈ s.net)
    (htable : r.1.fingerTable = (s.nodes i).fingerTable)
    (hpos : (s.relays i).started = false →
      r.1.predecessorOfSuccessor = (s.nodes i).predecessorOfSuccessor)
    (htasks : ∀ t, t ∉ r.2.filterMap scheduled)
    (hasked : ∀ p ∈ r.2.filterMap sent, ∀ j, Concerns R j p →
      (s.relays j).started = true)
    (hnew : ∀ p ∈ r.2.filterMap sent, ∀ j, (s.nodes j).successor ≠ R.id j →
      ¬ FirstLookup R j p) : Tidy R s' i r net := by
  have hsucc : r.1.successor = (s.nodes i).successor := by
    rw [DAENode.successor, htable]
    rfl
  refine ⟨?_, ?_, fun t ht => absurd ht (htasks t), ?_, ?_, ?_⟩
  · unfold Roster.Starts
    rw [htable]
    exact hs.starts i
  · intro p hp j hconc
    exact hafter.started j (hasked p hp j hconc)
  · intro hno
    have hold : (s.relays i).started = false := by
      by_contra hyes
      rw [hafter.started i (by simpa using hyes)] at hno
      cases hno
    rw [htable, hpos hold]
    exact hs.fresh i hold
  · intro hne p hp hfirst
    rw [hsucc] at hne
    rw [htable]
    exact hs.current i hne p (hnet p hp) hfirst
  · intro p hp j hne hfirst
    refine absurd hfirst (hnew p hp j ?_)
    by_cases hj : j = i
    · subst hj
      rwa [hafter.nodes, Function.update_self, hsucc] at hne
    · rwa [hafter.nodes, Function.update_of_ne hj] at hne

/-- A received packet that leaves the finger table alone and sends nothing about
fingers or predecessors. -/
theorem tidy_apart {s s' : System ι} {i : ι} {r : DAENode × List Effect}
    {net : List AnonymousPacket} (hs : Orderly R s) (hafter : After s s' i r net)
    (hnet : ∀ p ∈ net, p ∈ s.net)
    (htable : r.1.fingerTable = (s.nodes i).fingerTable)
    (hpos : (s.relays i).started = false →
      r.1.predecessorOfSuccessor = (s.nodes i).predecessorOfSuccessor)
    (hother : ∀ e ∈ r.2, ∃ q, e = .directSend q ∧ ∀ j, ¬ Concerns R j q) :
    Tidy R s' i r net := by
  have hsent : ∀ p ∈ r.2.filterMap sent, ∀ j, ¬ Concerns R j p := by
    intro p hp
    obtain ⟨e, he, hpe⟩ := List.mem_filterMap.mp hp
    obtain ⟨q, rfl, hq⟩ := hother e he
    cases hpe
    exact hq
  refine tidy_keep hs hafter hnet htable hpos ?_
    (fun p hp j hj => absurd hj (hsent p hp j))
    (fun p hp j _ hfirst => hsent p hp j hfirst.1)
  intro t ht
  obtain ⟨e, he, hte⟩ := List.mem_filterMap.mp ht
  obtain ⟨q, rfl, _⟩ := hother e he
  cases hte

/-- The one handler that writes without comparing. -/
theorem tidy_found {s s' : System ι} {i : ι} {k : Nat} {p : AnonymousPacket}
    (hs : Orderly R s) (hk : s.net[k]? = some p)
    (hid : p.header.id = .internalReplyFindSuccessor)
    (hstart : (s.relays i).started = true) (hcalm : Calm R s (.deliver i k))
    (hafter : After s s' i ((s.nodes i).setFinger p.header.index p.keyPeer, [])
      (s.net.eraseIdx k)) :
    Tidy R s' i ((s.nodes i).setFinger p.header.index p.keyPeer, [])
      (s.net.eraseIdx k) := by
  refine ⟨starts_setFinger (hs.starts i), fun q hq => (by cases hq),
    fun t ht => (by cases ht), ?_, ?_, fun q hq => (by cases hq)⟩
  · intro hno
    rw [hafter.started i hstart] at hno
    cases hno
  · intro hne q hq hfirst
    have hold : (s.nodes i).successor ≠ R.id i →
        Carrying ((s.nodes i).fingerTable 0).peer q := fun hne' =>
      hs.current i hne' q (List.mem_of_mem_eraseIdx hq) hfirst
    by_cases h0 : p.header.index = 0
    · rw [h0] at hne ⊢
      rw [DAENode.setFinger_peer]
      by_cases hkey : p.keyPeer = ((s.nodes i).fingerTable 0).peer
      · -- What is written is what is there.
        have hsame : (s.nodes i).setFinger 0 ((s.nodes i).fingerTable 0).peer =
            s.nodes i := DAENode.setFinger_self ..
        rw [hkey, hsame] at hne
        rw [hkey]
        exact hold hne
      · exact hcalm p hk hid h0 hkey q hq hfirst
    · have htable : ((s.nodes i).setFinger p.header.index p.keyPeer).fingerTable 0 =
          (s.nodes i).fingerTable 0 := DAENode.setFinger_of_ne _ _ (Ne.symm h0)
      rw [DAENode.successor, htable] at hne
      rw [htable]
      exact hold hne

/-- A lookup that is answered or sent on. -/
theorem tidy_lookup {s s' : System ι} {i : ι} {p : AnonymousPacket}
    {net : List AnonymousPacket} (hs : Orderly R s) (hp : p ∈ s.net)
    (hid : p.header.id = .internalJoinFindSuccessor) (hsub : ∀ q ∈ net, q ∈ s.net)
    (hafter : After s s' i (s.nodes i, [(s.nodes i).handleFindSuccessor p.replyTo.1
      p.replyTo.2 p.header.index p.header.keyId]) net) :
    Tidy R s' i (s.nodes i, [(s.nodes i).handleFindSuccessor p.replyTo.1
      p.replyTo.2 p.header.index p.header.keyId]) net := by
  obtain ⟨q, hq, hindex, hconc⟩ := lookup_sent (R := R) (s.nodes i)
    p.replyTo.1 p.replyTo.2 p.header.index p.header.keyId
  have hsent : ∀ x ∈ [(s.nodes i).handleFindSuccessor p.replyTo.1 p.replyTo.2
      p.header.index p.header.keyId].filterMap sent, x = q := by
    intro x hx
    rw [hq] at hx
    exact List.mem_singleton.mp hx
  -- The packet that goes on concerns whom the received one concerned.
  have hpass : ∀ j, Concerns R j q → Concerns R j p := by
    intro j hj
    unfold Concerns
    rw [hid]
    exact hconc j hj
  refine tidy_keep hs hafter hsub rfl (fun _ => rfl) ?_ ?_ ?_
  · intro t ht
    rw [hq] at ht
    cases ht
  · intro x hx j hj
    rw [hsent x hx] at hj
    exact hs.asked j p hp (hpass j hj)
  · intro x hx j hne hfirst
    rw [hsent x hx] at hfirst
    have hcar := (hs.current j hne p hp ⟨hpass j hfirst.1,
      hindex.symm.trans hfirst.2.1, Or.inl hid⟩).1
    rw [hid] at hcar
    cases hcar

theorem tidy_deliver {s s' : System ι} {i : ι} {k : Nat} {p : AnonymousPacket}
    (hs : Orderly R s) (hk : s.net[k]? = some p)
    (hdest : p.dest = (s.relays i).addr) (hcalm : Calm R s (.deliver i k))
    (hafter : After s s' i ((s.nodes i).receive p) (s.net.eraseIdx k)) :
    Tidy R s' i ((s.nodes i).receive p) (s.net.eraseIdx k) := by
  have hp : p ∈ s.net := List.mem_of_getElem? hk
  have hsub : ∀ q ∈ s.net.eraseIdx k, q ∈ s.net :=
    fun q hq => List.mem_of_mem_eraseIdx hq
  have hhome : p.dest = R.addr i := by
    rw [hdest, Relay.addr, hs.ok.cfg i]
    rfl
  have hrecv := receives (n := s.nodes i) (hs.ok.net p hp).1
  generalize (s.nodes i).receive p = r at hrecv hafter ⊢
  cases hrecv with
  | lookup hid =>
      exact tidy_lookup hs hp hid hsub hafter
  | found hid =>
      have hconc : Concerns R i p := by
        unfold Concerns
        rw [hid]
        exact hhome
      exact tidy_found hs hk hid (hs.asked i p hp hconc) hcalm hafter
  | asked hid =>
      refine tidy_keep hs hafter hsub rfl (fun _ => rfl) (fun t ht => (by cases ht))
        ?_ ?_
      · intro x hx j hj
        rw [List.mem_singleton.mp hx] at hj
        refine hs.asked j p hp ?_
        unfold Concerns
        rw [hid]
        exact hj
      · intro x hx j _ hfirst
        rw [List.mem_singleton.mp hx] at hfirst
        rcases hfirst.2.2 with he | he <;> cases he
  | told hid =>
      have hconc : Concerns R i p := by
        unfold Concerns
        rw [hid]
        exact hhome
      have hstart := hs.asked i p hp hconc
      refine tidy_apart hs hafter hsub rfl ?_ (fun e he => (by cases he))
      intro hno
      rw [hstart] at hno
      cases hno
  | notified hid =>
      refine tidy_apart hs hafter hsub ?_ ?_ (fun e he => (by cases he))
      · simp only [DAENode.notify]
        split <;> rfl
      · intro _
        simp only [DAENode.notify]
        split <;> rfl
  | fetch hid =>
      refine tidy_apart hs hafter hsub rfl (fun _ => rfl) fun e he => ?_
      obtain ⟨q, rfl, hq⟩ := handleFetchSuccessorList_sends he
      refine ⟨q, rfl, fun j hj => ?_⟩
      unfold Concerns at hj
      rcases hq with hq | hq <;> rw [hq] at hj <;> exact hj
  | backup hid =>
      refine tidy_apart hs hafter hsub ?_ ?_ (fun e he => (by cases he))
      · simp only [DAENode.handleReplySuccessorList]
        split <;> rfl
      · intro _
        simp only [DAENode.handleReplySuccessorList]
        split <;> rfl
  | checked id hid =>
      refine tidy_apart hs hafter hsub rfl (fun _ => rfl) fun e he => ?_
      refine ⟨_, List.mem_singleton.mp he, fun j hj => ?_⟩
      rcases hid with rfl | rfl <;> exact hj
  | alive _ _ =>
      exact tidy_apart hs hafter hsub rfl (fun _ => rfl) (fun e he => (by cases he))

/-- The invariant holds after a calm step, and the step moved no successor
away. -/
theorem orderly_step (hm : R.m ≤ 30) {s : System ι} {a : Act ι}
    (hs : Orderly R s) (hreg : Regular s a) (hcalm : Calm R s a) :
    Orderly R (s.step a) ∧ ∀ i, (s.nodes i).successor ≠ R.id i →
      ((s.step a).nodes i).successor = (s.nodes i).successor ∨
        Between R.size (R.id i) ((s.step a).nodes i).successor
          (s.nodes i).successor := by
  have hup : a.Upkeep = true := by
    cases a <;> first | rfl | exact hreg.elim
  have hrel : a.Reliable = true := by
    cases a <;> first | rfl | exact hreg.elim
  have hkeeps := fun i f net (hf : Fires s a i f net) => fires_ok hs.ok hf
  have hok := step_holds hup hs.ok hkeeps
  rcases step_cases hup (fun i f net hf e he => ((hkeeps i f net hf).2 e he).quiet)
    with hidle | ⟨i, f, net, hf, hafter⟩
  · rw [hidle.still hrel]
    exact ⟨hs, fun i _ => Or.inl rfl⟩
  · suffices h : Tidy R (s.step a) i (f (s.nodes i)) net ∧
        ((s.nodes i).successor ≠ R.id i →
          (f (s.nodes i)).1.successor = (s.nodes i).successor ∨
            Between R.size (R.id i) (f (s.nodes i)).1.successor
              (s.nodes i).successor) by
      refine ⟨orderly_after hs hafter hf.net_subset hok h.1, ?_⟩
      intro j hj
      rw [hafter.nodes]
      by_cases hji : j = i
      · subst hji
        rw [Function.update_self]
        exact h.2 hj
      · rw [Function.update_of_ne hji]
        exact Or.inl rfl
    have hnode := hs.ok.node i
    have hst := hs.starts i
    cases hf with
    | join hnew =>
        obtain ⟨hself, hpos⟩ := hs.fresh i hnew
        obtain ⟨hown, hend⟩ := own_join hm hnode hst hself hpos
          (s.relays i).cfg.initPeers
        have hstart := join_started (s := s) (i := i)
          fun e he => ((hkeeps i _ _ (.join hnew)).2 e he).quiet
        exact ⟨tidy_own hafter hown hstart fun hne => absurd hend hne,
          fun hne => absurd (successor_of_peer hself) hne⟩
    | stabilize _ =>
        have hown := own_stabilize hnode hst
        have hadopt : (s.nodes i).stabilize.1 = adopt (s.nodes i) := by
          rw [stabilize_eq]
        rw [hadopt]
        rcases adopt_cases hnode with hkeep | ⟨hin, hbetween, hset⟩
        · rw [hkeep] at hadopt ⊢
          refine ⟨tidy_own hafter hown (hafter.started i hreg) ?_,
            fun _ => Or.inl rfl⟩
          rw [hadopt]
          exact hs.current i
        · have hpeer : ((adopt (s.nodes i)).fingerTable 0).peer =
              (s.nodes i).ofSuccessorPeer := by
            rw [hset, DAENode.setFinger_peer]
          refine ⟨tidy_own hafter hown (hafter.started i hreg) ?_, fun _ => ?_⟩
          · rw [hadopt, hpeer]
            exact fun _ => hcalm hin
          · rw [show (adopt (s.nodes i)).successor =
              (s.nodes i).predecessorOfSuccessor from
                congrArg PeerPair.relayId hpeer]
            exact Or.inr hbetween
    | fixFingers _ =>
        obtain ⟨hown, hzero, _⟩ := own_fixFingers hm hnode hst
        have hsucc : (s.nodes i).fixFingers.1.successor = (s.nodes i).successor := by
          rw [DAENode.successor, hzero]
          rfl
        refine ⟨tidy_own hafter hown (hafter.started i hreg) ?_,
          fun _ => Or.inl hsucc⟩
        rw [hsucc, hzero]
        exact hs.current i
    | fetchSuccessorList _ =>
        exact ⟨tidy_own hafter (own_fetch hst) (hafter.started i hreg) (hs.current i),
          fun _ => Or.inl rfl⟩
    | checkPredecessorFailure _ => exact hreg.elim
    | checkSuccessorFailure _ => exact hreg.elim
    | runTask htask =>
        obtain ⟨rfl, hstart⟩ := hs.tasks i _ (List.mem_of_getElem? htask)
        refine ⟨tidy_own hafter ?_ (hafter.started i hstart) (hs.current i),
          fun _ => Or.inl rfl⟩
        exact own_retry hnode hst _
    | deliver hk hdest =>
        exact ⟨tidy_deliver hs hk hdest hcalm hafter,
          fun hne => Or.inl (deliver_successor hs hk hdest hne)⟩

/-! ## Runs -/

theorem calmRun_append {s : System ι} {acts acts' : List (Act ι)} :
    CalmRun R s (acts ++ acts') ↔ CalmRun R s acts ∧ CalmRun R (s.run acts) acts' := by
  induction acts generalizing s with
  | nil => simp [CalmRun, System.run]
  | cons a acts ih =>
      show _ ∧ _ ∧ CalmRun R (s.step a) (acts ++ acts') ↔
        (_ ∧ _ ∧ CalmRun R (s.step a) acts) ∧ CalmRun R ((s.step a).run acts) acts'
      rw [ih]
      simp only [and_assoc]

/-- Moving closer is transitive, and a node that has a successor keeps having
one. -/
theorem orderly_run (hm : R.m ≤ 30) (acts : List (Act ι)) :
    ∀ s, Orderly R s → CalmRun R s acts → Orderly R (s.run acts) ∧
      ∀ i, (s.nodes i).successor ≠ R.id i →
        ((s.run acts).nodes i).successor ≠ R.id i ∧
          (((s.run acts).nodes i).successor = (s.nodes i).successor ∨
            Between R.size (R.id i) ((s.run acts).nodes i).successor
              (s.nodes i).successor) := by
  induction acts with
  | nil => exact fun s hs _ => ⟨hs, fun i hne => ⟨hne, Or.inl rfl⟩⟩
  | cons a acts ih =>
      intro s hs hrun
      obtain ⟨hreg, hcalm, hrest⟩ := hrun
      obtain ⟨hs', hstep⟩ := orderly_step hm hs hreg hcalm
      obtain ⟨hend, hmoves⟩ := ih (s.step a) hs' hrest
      refine ⟨hend, ?_⟩
      intro i hne
      have hne' : ((s.step a).nodes i).successor ≠ R.id i := by
        rcases hstep i hne with heq | hbetween
        · rw [heq]
          exact hne
        · exact (between_iff_span.mp hbetween).1
      obtain ⟨hlast, hmove⟩ := hmoves i hne'
      refine ⟨hlast, ?_⟩
      show (((s.step a).run acts).nodes i).successor = _ ∨ Between _ _
        (((s.step a).run acts).nodes i).successor _
      rcases hmove with heq | hcloser
      · rw [heq]
        exact hstep i hne
      · rcases hstep i hne with heq | hbetween
        · rw [heq] at hcloser
          exact Or.inr hcloser
        · rw [between_iff_span] at *
          exact Or.inr ⟨hcloser.1, Nat.lt_trans hcloser.2 hbetween.2⟩

/-- In every run of calm steps from freshly constructed nodes, however the
steps and the deliveries are interleaved, a node that has a successor keeps it
or moves to a node strictly between: it never goes back to a farther one or to
itself. -/
theorem successor_moves_closer (R : Roster ι) (hm : R.m ≤ 30)
    (before acts : List (Act ι))
    (hrun : CalmRun R (System.init R.cfg) (before ++ acts)) (i : ι) :
    let old := (((System.init R.cfg).run before).nodes i).successor
    let new := (((System.init R.cfg).run (before ++ acts)).nodes i).successor
    old ≠ R.id i → new = old ∨ Between R.size (R.id i) new old := by
  intro old new hne
  obtain ⟨hbefore, hacts⟩ := calmRun_append.mp hrun
  have hmid := (orderly_run hm before _ orderly_init hbefore).1
  have hend := ((orderly_run hm acts _ hmid hacts).2 i hne).2
  rwa [← show (System.init R.cfg).run (before ++ acts) =
    ((System.init R.cfg).run before).run acts from List.foldl_append ..] at hend

/-- Two nodes join, and the answer to the newcomer's own lookup arrives before
the answer to its request. -/
def pairCalm : List (Act (Fin 2)) :=
  [.join 0, .join 1, .deliver 0 3, .deliver 1 4, .deliver 1 5]

theorem pairCalm_calm : CalmRun pairRoster (System.init pairRoster.cfg)
    (pairCalm ++ [.stabilize 1, .fixFingers 1]) := by
  refine ⟨trivial, trivial, trivial, trivial, trivial, ?_, trivial, ?_, trivial, ?_,
    rfl, ?_, rfl, trivial, trivial⟩
  · intro p hp
    cases hp
    intro hid
    cases hid
  · intro p hp
    cases hp
    intro _ _ hne
    exact absurd rfl hne
  · intro p hp
    cases hp
    intro _ _ _ q hq hfirst
    have hnone : ∀ x ∈ ((System.init pairRoster.cfg).run (pairCalm.take 4)).net.eraseIdx 5,
        x.header.id ≠ .internalJoinFindSuccessor ∧
          (x.header.id = .internalReplyFindSuccessor →
            x.dest ≠ ((pairRoster.cfg 1).relayIp, (pairRoster.cfg 1).relayPort)) := by
      decide
    obtain ⟨hjoin, hreply⟩ := hnone q hq
    obtain ⟨hconc, _, hid | hid⟩ := hfirst
    · exact absurd hid hjoin
    · unfold Concerns at hconc
      rw [hid] at hconc
      exact absurd hconc (hreply hid)
  · intro hin
    exact absurd hin (by decide)

theorem successor_moves_closer_pair :
    (((System.init pairRoster.cfg).run pairCalm).nodes 1).successor = 0 ∧
      ((((System.init pairRoster.cfg).run
          (pairCalm ++ [.stabilize 1, .fixFingers 1])).nodes 1).successor = 0 ∨
        Between pairRoster.size (pairRoster.id 1) (((System.init pairRoster.cfg).run
          (pairCalm ++ [.stabilize 1, .fixFingers 1])).nodes 1).successor 0) :=
  ⟨by decide, successor_moves_closer pairRoster (by decide) pairCalm
    [.stabilize 1, .fixFingers 1] pairCalm_calm 1 (by decide)⟩

/-- The same two joins with the two answers in the other order: the newcomer
has the first node as successor, and the older answer makes it its own
successor again. -/
theorem successor_overwritten :
    let s := (System.init pairRoster.cfg).run
      [.join 0, .join 1, .deliver 0 3, .deliver 1 6]
    (s.nodes 1).successor = 0 ∧ pairRoster.id 1 = 1 ∧
      ((s.step (.deliver 1 4)).nodes 1).successor = 1 ∧
      ¬ (((s.step (.deliver 1 4)).nodes 1).successor = (s.nodes 1).successor ∨
        Between pairRoster.size (pairRoster.id 1)
          ((s.step (.deliver 1 4)).nodes 1).successor (s.nodes 1).successor) := by
  refine ⟨by decide, by decide, by decide, ?_⟩
  unfold Between
  decide

end Daenet.Proofs
