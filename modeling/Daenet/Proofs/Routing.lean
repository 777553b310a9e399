import Daenet.Proofs.Handlers
import Daenet.Proofs.InRange

/-!
# Routing: every hop comes closer, and the last one is the right one

A node that gets a lookup or an application message for a key decides between
three things: the key is its own id, the key lies on the arc up to its
successor, or the message goes on to the highest finger strictly before the
key. `route_cases` is that decision as one statement; everything else in this
file is read off it.

The fourth branch of the source, "the closest preceding node is myself", is
dead. When the half-open arc test fails, the successor itself lies strictly
before the key, so the scan finds a finger at index zero at the latest. This
needs nothing of the tables but that their entries are nodes: they may be
stale, equal, or change between two hops. `Trace` follows a message, a lookup
or an application's, through tables that differ at every hop.
-/

namespace Daenet.Proofs

open Daenet.Lib Daenet.Ref Daenet.Spec

variable {ι : Type} {R : Roster ι} {i : ι} {n : DAENode} {k : Nat}

/-! ## The finger scan -/

theorem closestFinger_some {t : Nat} {f : ChordFinger}
    (h : n.closestFinger k t = some f) :
    ∃ u < t, f = n.fingerTable u ∧ n.isInRange n.id k f.successor = true := by
  induction t with
  | zero => cases h
  | succ t ih =>
      rw [DAENode.closestFinger] at h
      split at h
      · next hin =>
          injection h with h
          subst h
          exact ⟨t, Nat.lt_succ_self t, rfl, hin⟩
      · obtain ⟨u, hu, hf, hin⟩ := ih h
        exact ⟨u, Nat.lt_succ_of_lt hu, hf, hin⟩

theorem closestFinger_none {t : Nat} (h : n.closestFinger k t = none) :
    ∀ u < t, n.isInRange n.id k (n.fingerTable u).successor = false := by
  induction t with
  | zero => intro u hu; exact absurd hu (Nat.not_lt_zero u)
  | succ t ih =>
      rw [DAENode.closestFinger] at h
      split at h
      · cases h
      · next hin =>
          intro u hu
          rcases Nat.lt_succ_iff_lt_or_eq.mp hu with hlt | rfl
          · exact ih h u hlt
          · simpa using hin

theorem live_successor (hlive : R.Live n) :
    ∃ j, (n.fingerTable 0).peer = R.peer j := by
  obtain ⟨j, hj⟩ := hlive 0 R.bits_pos
  exact ⟨j, hj.symm⟩

theorem successor_of_peer {j : ι} (h : (n.fingerTable 0).peer = R.peer j) :
    n.successor = R.id j := congrArg PeerPair.relayId h

/-! ## The decision -/

/-- What the three `find_closest_preceding_node*` answer when the scan stops at
a finger: the three fields of that one finger. -/
theorem findClosest_of_scan {f : ChordFinger}
    (h : n.closestFinger k n.m = some f) :
    n.findClosestPrecedingNode k = f.successor ∧
      n.findClosestPrecedingNodeIp k = f.ip ∧
      n.findClosestPrecedingNodePort k = f.port := by
  simp only [DAENode.findClosestPrecedingNode,
    DAENode.findClosestPrecedingNodeIp, DAENode.findClosestPrecedingNodePort, h,
    Option.map_some, Option.getD_some, and_self]

/-- The tests of a node are arcs of the ring it stands on. -/
theorem inRange_iff (hown : R.Owns i n) {b x : Nat} (hb : b < R.size)
    (hx : x < R.size) :
    n.isInRange n.id b x = true ↔ Between R.size (R.id i) x b := by
  have hsz : 2 ^ n.m = R.size := by rw [hown.m]; rfl
  have h := isInRange_iff (hown.m ▸ R.bits_le : n.m ≤ 52) (a := n.id)
    (by rw [hsz, hown.id]; exact R.id_lt_size i) (hsz ▸ hb) (hsz ▸ hx)
  rw [hsz] at h
  rwa [← hown.id]

theorem rightTight_iff (hown : R.Owns i n) {b x : Nat} (hb : b < R.size)
    (hx : x < R.size) :
    n.isRightTightInRange n.id x b = true ↔
      x = b ∨ Between R.size (R.id i) x b := by
  have hsz : 2 ^ n.m = R.size := by rw [hown.m]; rfl
  have h := isRightTightInRange_iff (hown.m ▸ R.bits_le : n.m ≤ 52) (a := n.id)
    (by rw [hsz, hown.id]; exact R.id_lt_size i) (hsz ▸ hb) (hsz ▸ hx)
  rw [hsz] at h
  rwa [← hown.id]

/-- The three things a node can decide about a key: it is the node's own id, it
lies on the half-open arc up to the successor, or a finger lies strictly
between the node and the key and the scan answers its three fields. -/
theorem route_cases (hown : R.Owns i n) (hlive : R.Live n) (hk : k < R.size) :
    n.id = k ∨
    (n.id ≠ k ∧ n.isRightTightInRange n.id k n.successor = true ∧
      (k = n.successor ∨ Between R.size (R.id i) k n.successor)) ∨
    (n.id ≠ k ∧ n.isRightTightInRange n.id k n.successor = false ∧
      ∃ u j, u < R.m ∧ n.closestFinger k n.m = some (n.fingerTable u) ∧
        (n.fingerTable u).peer = R.peer j ∧
        Between R.size (R.id i) (R.id j) k) := by
  by_cases hid : n.id = k
  · exact Or.inl hid
  · refine Or.inr ?_
    obtain ⟨s, hs⟩ := live_successor hlive
    have hsucc : n.successor < R.size := by
      rw [successor_of_peer hs]; exact R.id_lt_size s
    have htest := rightTight_iff hown hsucc hk
    cases htight : n.isRightTightInRange n.id k n.successor with
    | true => exact Or.inl ⟨hid, rfl, htest.mp htight⟩
    | false =>
        refine Or.inr ⟨hid, rfl, ?_⟩
        -- The half-open test failed, so the successor is before the key.
        have hbefore : Between R.size (R.id i) n.successor k :=
          between_of_not_tight (R.id_lt_size i) hsucc hk (hown.id ▸ hid)
            (htest.not.mp (by simp [htight]))
        cases hscan : n.closestFinger k n.m with
        | none =>
            have hout := closestFinger_none hscan 0
              (by rw [hown.m]; exact R.bits_pos)
            have hin := (inRange_iff hown hk hsucc).mpr hbefore
            exact absurd hin (by simpa [DAENode.successor] using hout)
        | some f =>
            obtain ⟨u, hu, rfl, hin⟩ := closestFinger_some hscan
            rw [hown.m] at hu
            obtain ⟨j, hj⟩ := hlive u hu
            refine ⟨u, j, hu, rfl, hj.symm, ?_⟩
            rw [show (n.fingerTable u).successor = R.id j from
              congrArg PeerPair.relayId hj.symm] at hin
            exact (inRange_iff hown hk (R.id_lt_size j)).mp hin

/-! ## The two handlers -/

/-- A reply to a lookup that came with the return address `a` and the finger
index `index`. -/
structure IsReply (a : String × Int) (index : Int) (p : AnonymousPacket) :
    Prop where
  id : p.header.id = .internalReplyFindSuccessor
  msgType : p.header.msgType = true
  dest : p.dest = a
  index : p.header.index = index

/-- A lookup passed on: the same key, index and return address. -/
structure IsForward (a : String × Int) (index : Int) (k : Nat)
    (p : AnonymousPacket) : Prop where
  id : p.header.id = .internalJoinFindSuccessor
  msgType : p.header.msgType = true
  replyTo : p.replyTo = a
  index : p.header.index = index
  key : p.header.keyId = k

/-- What a node makes of a lookup. -/
theorem lookup_cases (hown : R.Owns i n) (hlive : R.Live n) (hk : k < R.size)
    (ip : String) (port index : Int) :
    ∃ p, n.handleFindSuccessor ip port index k = .directSend p ∧
      ((IsReply (ip, port) index p ∧ n.id = k ∧ p.keyPeer = R.peer i) ∨
       (IsReply (ip, port) index p ∧ n.id ≠ k ∧
          (k = n.successor ∨ Between R.size (R.id i) k n.successor) ∧
          p.keyPeer = (n.fingerTable 0).peer) ∨
       (IsForward (ip, port) index k p ∧ n.id ≠ k ∧
          ∃ j, p.dest = R.addr j ∧ Between R.size (R.id i) (R.id j) k ∧
            ∃ u < R.m, (n.fingerTable u).peer = R.peer j)) := by
  unfold DAENode.handleFindSuccessor
  rcases route_cases hown hlive hk with hid | ⟨hid, htight, harc⟩ |
    ⟨hid, htight, u, j, hu, hscan, hfj, hbtw⟩
  · rw [if_pos hid]
    refine ⟨_, rfl, Or.inl ⟨⟨rfl, rfl, rfl, rfl⟩, hid, ?_⟩⟩
    simp only [AnonymousPacket.keyPeer, AnonymousPacket.internal, Roster.peer,
      hown.ip, hown.port, hown.id, Roster.id]
  · rw [if_neg hid, if_pos htight]
    exact ⟨_, rfl, Or.inr (Or.inl ⟨⟨rfl, rfl, rfl, rfl⟩, hid, harc, rfl⟩)⟩
  · obtain ⟨hnode, hip, hport⟩ := findClosest_of_scan hscan
    have hfid : (n.fingerTable u).successor = R.id j :=
      congrArg PeerPair.relayId hfj
    rw [if_neg hid, if_neg (by simp [htight]),
      if_neg (by rw [hnode, hfid, hown.id]; exact hbtw.1), hip, hport]
    exact ⟨_, rfl, Or.inr (Or.inr ⟨⟨rfl, rfl, rfl, rfl, rfl⟩, hid, j,
      Prod.ext (congrArg PeerPair.ip hfj) (congrArg PeerPair.port hfj), hbtw, u,
      hu, hfj⟩)⟩

/-- A node answers the lookup of its own first finger itself, with the successor
it has: the place after a node is always on the arc up to its successor. -/
theorem lookUp_zero (hm : R.m ≤ 30) (hown : R.Owns i n) (hlive : R.Live n)
    (hstarts : R.Starts i n) :
    ∃ p, lookUp n 0 = .directSend p ∧ IsReply (R.addr i) 0 p ∧
      p.keyPeer = (n.fingerTable 0).peer := by
  have hcw := R.cw_start i R.bits_pos
  obtain ⟨p, hp, hcase⟩ := lookup_cases hown hlive (R.start_lt i 0) n.nodeIp
    n.port 0
  refine ⟨p, ?_, ?_⟩
  · rw [← hp, ← R.start_new hm i R.bits_pos, ← hstarts 0 R.bits_pos]
    rfl
  · rw [hown.ip, hown.port] at hcase
    rcases hcase with ⟨_, hid, _⟩ | ⟨hrep, _, _, hkey⟩ | ⟨_, _, j, _, hbtw, _⟩
    · rw [← hid, hown.id, cw_self] at hcw
      cases hcw
    · exact ⟨hrep, hkey⟩
    · have hne : R.id i ≠ R.start i 0 := by
        intro he
        rw [← he, cw_self] at hcw
        cases hcw
      have hlt := hbtw.2
      rw [span_of_ne hne, hcw] at hlt
      have hzero : cw R.size (R.id i) (R.id j) = 0 := by omega
      exact absurd ((cw_eq_zero (R.id_lt_size i)).mp hzero).symm hbtw.1

/-- The packet carries the message it was made from, whatever hop it is for. -/
structure Carries (x : DAENode.ExternalMsg) (p : AnonymousPacket) : Prop where
  id : p.header.id = x.msgType
  msgType : p.header.msgType = false
  session : p.header.sessionId = x.session
  seq : p.header.index = x.seq
  key : p.header.keyId = x.destId
  client : p.header.relayReplyId = x.clientKey
  size : p.header.size = x.size
  payload : p.payload = x.ctPackage.take x.size.toNat

/-- A node makes one packet of an application message, on any tables. -/
theorem mail_carries (n : DAENode) (x : DAENode.ExternalMsg) :
    ∃ p, n.handleExternalMessaging x = .safeSend p ∧ Carries x p := by
  unfold DAENode.handleExternalMessaging
  split_ifs
  all_goals exact ⟨_, rfl, rfl, rfl, rfl, rfl, rfl, rfl, rfl, rfl⟩

/-- What a node makes of an application message. -/
theorem mail_cases (hown : R.Owns i n) (hlive : R.Live n)
    (x : DAENode.ExternalMsg) (hk : x.destId < R.size) :
    ∃ p, n.handleExternalMessaging x = .safeSend p ∧ Carries x p ∧
      ((p.header.isDest = true ∧ n.id = x.destId ∧ p.dest = R.addr i) ∨
       (p.header.isDest = true ∧ n.id ≠ x.destId ∧
          (x.destId = n.successor ∨
            Between R.size (R.id i) x.destId n.successor) ∧
          p.dest = (n.fingerTable 0).addr) ∨
       (p.header.isDest = false ∧ n.id ≠ x.destId ∧
          (∃ t < R.m, p.dest = (n.fingerTable t).addr) ∧
          ∃ j, p.dest = R.addr j ∧
            Between R.size (R.id i) (R.id j) x.destId)) := by
  have hcarries : ∀ (isDest : Bool) (id : Nat) (ip : String) (port : Int),
      Carries x (.external x.msgType n.nodeIp n.id ip id port ip x.clientKey
        port ip x.destId port x.seq false x.ctPackage x.size isDest x.session) :=
    fun _ _ _ _ => ⟨rfl, rfl, rfl, rfl, rfl, rfl, rfl, rfl⟩
  unfold DAENode.handleExternalMessaging
  rcases route_cases hown hlive hk with hid | ⟨hid, htight, harc⟩ |
    ⟨hid, htight, u, j, hu, hscan, hfj, hbtw⟩
  · rw [if_pos hid]
    exact ⟨_, rfl, hcarries _ _ _ _,
      Or.inl ⟨rfl, hid, Prod.ext hown.ip hown.port⟩⟩
  · rw [if_neg hid, if_pos htight]
    exact ⟨_, rfl, hcarries _ _ _ _, Or.inr (Or.inl ⟨rfl, hid, harc, rfl⟩)⟩
  · obtain ⟨hnode, hip, hport⟩ := findClosest_of_scan hscan
    have hfid : (n.fingerTable u).successor = R.id j :=
      congrArg PeerPair.relayId hfj
    rw [if_neg hid, if_neg (by simp [htight]),
      if_neg (by rw [hnode, hfid, hown.id]; exact hbtw.1), hip, hport]
    exact ⟨_, rfl, hcarries _ _ _ _, Or.inr (Or.inr ⟨rfl, hid, ⟨u, hu, rfl⟩, j,
      Prod.ext (congrArg PeerPair.ip hfj) (congrArg PeerPair.port hfj), hbtw⟩)⟩

/-! ## Following a message

A lookup or a message for a dead drop is on the way until a node replies or
marks it `is_dest`. A trace follows the one packet each handler makes; the
node at the packet's address receives it in whatever state it is in by then. -/

/-- The packet of a sending effect. -/
def packetOf : Effect → Option AnonymousPacket
  | .directSend p => some p
  | .safeSend p => some p
  | .schedule _ => none

/-- A packet that its receiver will route again. -/
def onTheWay (p : AnonymousPacket) : Bool :=
  match p.header.id, p.header.msgType with
  | .internalJoinFindSuccessor, true => true
  | .externalDeaddropMessaging, false => !p.header.isDest
  | .externalReplyDeaddropMessaging, false => !p.header.isDest
  | _, _ => false

/-- The packets one request makes, in order; `nodes t` are the states at the
moment of the `t`-th reception. -/
inductive Trace (R : Roster ι) (nodes : Nat → ι → DAENode) :
    Nat → Effect → List AnonymousPacket → Prop where
  | done {t : Nat} {e : Effect} {p : AnonymousPacket}
      (he : packetOf e = some p) (h : onTheWay p = false) : Trace R nodes t e [p]
  | hop {t : Nat} {e e' : Effect} {p : AnonymousPacket} {j : ι}
      {ps : List AnonymousPacket} (he : packetOf e = some p)
      (h : onTheWay p = true) (hdest : p.dest = R.addr j)
      (hrecv : (nodes t j).receive p = (nodes t j, [e']))
      (hrest : Trace R nodes (t + 1) e' ps) : Trace R nodes t e (p :: ps)

theorem IsForward.onTheWay {a : String × Int} {index : Int}
    {p : AnonymousPacket} (h : IsForward a index k p) : onTheWay p = true := by
  simp only [Proofs.onTheWay, h.id, h.msgType]

theorem IsReply.not_onTheWay {a : String × Int} {index : Int}
    {p : AnonymousPacket} (h : IsReply a index p) : onTheWay p = false := by
  simp only [Proofs.onTheWay, h.id]

/-- A message of one of the two dead-drop kinds. -/
def DeaddropKind (x : DAENode.ExternalMsg) : Prop :=
  x.msgType = .externalDeaddropMessaging ∨
    x.msgType = .externalReplyDeaddropMessaging

theorem Carries.onTheWay {x : DAENode.ExternalMsg} {p : AnonymousPacket}
    (h : Carries x p) (hx : DeaddropKind x) :
    onTheWay p = !p.header.isDest := by
  rcases hx with hx | hx <;>
    simp only [Proofs.onTheWay, h.id, hx, h.msgType]

theorem receive_forward {a : String × Int} {index : Int} {p : AnonymousPacket}
    (h : IsForward a index k p) :
    n.receive p = (n, [n.handleFindSuccessor a.1 a.2 index k]) := by
  obtain ⟨hid, hint, hrep, hidx, hkey⟩ := h
  subst hrep hidx hkey
  simp only [DAENode.receive, AnonymousPacket.isInternalMsg, hint, hid,
    DAENode.processMessage, AnonymousPacket.replyTo]

theorem receive_reply {a : String × Int} {index : Int} {p : AnonymousPacket}
    (h : IsReply a index p) : n.receive p = (n.setFinger index p.keyPeer, []) := by
  obtain ⟨hid, hint, _, hidx⟩ := h
  subst hidx
  simp only [DAENode.receive, AnonymousPacket.isInternalMsg, hint, hid,
    DAENode.processMessage, DAENode.update_eq_setFinger, AnonymousPacket.keyPeer]

/-- The dead-drop cases route what is not marked. -/
theorem receive_unmarked {p : AnonymousPacket}
    (hid : p.header.id = .externalDeaddropMessaging ∨
      p.header.id = .externalReplyDeaddropMessaging)
    (hmsg : p.header.msgType = false) (hd : p.header.isDest = false) :
    n.receive p = (n, [n.handleExternalMessaging (DAENode.passOn p)]) := by
  rcases hid with hid | hid <;>
    simp only [DAENode.receive, AnonymousPacket.isInternalMsg, hmsg, hid,
      DAENode.processMessage, hd, Bool.false_eq_true, if_false]

theorem receive_passOn {x : DAENode.ExternalMsg} {p : AnonymousPacket}
    (h : Carries x p) (hx : DeaddropKind x) (hd : p.header.isDest = false) :
    n.receive p = (n, [n.handleExternalMessaging (DAENode.passOn p)]) := by
  refine receive_unmarked ?_ h.msgType hd
  rw [h.id]
  exact hx

/-- Passing a carried message on carries the same message. -/
theorem Carries.passOn {x : DAENode.ExternalMsg} {p q : AnonymousPacket}
    (hp : Carries x p) (hq : Carries (DAENode.passOn p) q) : Carries x q where
  id := hq.id.trans hp.id
  msgType := hq.msgType
  session := hq.session.trans hp.session
  seq := hq.seq.trans hp.seq
  key := hq.key.trans hp.key
  client := hq.client.trans hp.client
  size := hq.size.trans hp.size
  payload := by
    rw [hq.payload]
    show p.payload.take p.header.size.toNat = _
    rw [hp.payload, hp.size, List.take_take, Nat.min_self]

/-- What a node can be asked to route. -/
inductive Request where
  | lookup (ip : String) (port index : Int) (k : Nat)
  | mail (x : DAENode.ExternalMsg)

namespace Request

/-- The key a request is routed by. -/
def key : Request → Nat
  | lookup _ _ _ k => k
  | mail x => x.destId

/-- What a node does with a request. -/
def handledBy (n : DAENode) : Request → Effect
  | lookup ip port index k => n.handleFindSuccessor ip port index k
  | mail x => n.handleExternalMessaging x

/-- The requests that stop at `is_dest`: lookups and the dead-drop kinds. -/
def Stops : Request → Prop
  | lookup _ _ _ _ => True
  | mail x => DeaddropKind x

/-- A packet that passes the request on. -/
def Forwards (p : AnonymousPacket) : Request → Prop
  | lookup ip port index k => IsForward (ip, port) index k p
  | mail x => Carries x p ∧ p.header.isDest = false

/-- A packet that finishes the request: the reply to a lookup, or the message
marked for its destination. -/
def Finishes (p : AnonymousPacket) : Request → Prop
  | lookup ip port index _ => IsReply (ip, port) index p
  | mail x => Carries x p ∧ p.header.isDest = true

/-- The request the receiver of such a packet handles. -/
def next (p : AnonymousPacket) : Request → Request
  | lookup ip port index k => lookup ip port index k
  | mail _ => mail (DAENode.passOn p)

variable {q : Request} {p p' : AnonymousPacket}

theorem Forwards.onTheWay (h : q.Forwards p) (hq : q.Stops) :
    onTheWay p = true := by
  cases q with
  | lookup ip port index k => exact IsForward.onTheWay h
  | mail x => rw [h.1.onTheWay hq, h.2]; rfl

theorem Finishes.not_onTheWay (h : q.Finishes p) (hq : q.Stops) :
    Proofs.onTheWay p = false := by
  cases q with
  | lookup ip port index k => exact IsReply.not_onTheWay h
  | mail x => rw [h.1.onTheWay hq, h.2]; rfl

theorem next_key (h : q.Forwards p) : (q.next p).key = q.key := by
  cases q with
  | lookup ip port index k => rfl
  | mail x => exact h.1.key

theorem next_stops (h : q.Forwards p) (hq : q.Stops) : (q.next p).Stops := by
  cases q with
  | lookup ip port index k => trivial
  | mail x =>
      rcases hq with hx | hx
      · exact Or.inl (h.1.id.trans hx)
      · exact Or.inr (h.1.id.trans hx)

theorem next_forwards (h : q.Forwards p) (h' : (q.next p).Forwards p') :
    q.Forwards p' := by
  cases q with
  | lookup ip port index k => exact h'
  | mail x => exact ⟨h.1.passOn h'.1, h'.2⟩

theorem next_finishes (h : q.Forwards p) (h' : (q.next p).Finishes p') :
    q.Finishes p' := by
  cases q with
  | lookup ip port index k => exact h'
  | mail x => exact ⟨h.1.passOn h'.1, h'.2⟩

theorem receive_next (h : q.Forwards p) (hq : q.Stops) :
    n.receive p = (n, [(q.next p).handledBy n]) := by
  cases q with
  | lookup ip port index k => exact receive_forward h
  | mail x => exact receive_passOn h.1 hq h.2

end Request

/-- One hop. The packet finishes the request, or passes it to a node nearer to
the key. -/
theorem request_step (hown : R.Owns i n) (hlive : R.Live n) (q : Request)
    (hk : q.key < R.size) :
    ∃ p, packetOf (q.handledBy n) = some p ∧
      (q.Finishes p ∨
       (q.Forwards p ∧ ∃ j, p.dest = R.addr j ∧
          cw R.size (R.id j) q.key < cw R.size (R.id i) q.key)) := by
  have hcloser : ∀ {j : ι}, n.id ≠ q.key →
      Between R.size (R.id i) (R.id j) q.key →
      cw R.size (R.id j) q.key < cw R.size (R.id i) q.key :=
    fun hne hbtw => cw_lt_of_between (R.id_lt_size i) hk
      (hown.id ▸ hne) hbtw
  cases q with
  | lookup ip port index k =>
      obtain ⟨p, hp, hcase⟩ := lookup_cases hown hlive hk ip port index
      refine ⟨p, congrArg packetOf hp, ?_⟩
      rcases hcase with ⟨hrep, _⟩ | ⟨hrep, _⟩ | ⟨hfwd, hne, j, hdest, hbtw, _⟩
      · exact Or.inl hrep
      · exact Or.inl hrep
      · exact Or.inr ⟨hfwd, j, hdest, hcloser hne hbtw⟩
  | mail x =>
      obtain ⟨p, hp, hcar, hcase⟩ := mail_cases hown hlive x hk
      refine ⟨p, congrArg packetOf hp, ?_⟩
      rcases hcase with ⟨hd, _⟩ | ⟨hd, _⟩ | ⟨hd, hne, _, j, hdest, hbtw⟩
      · exact Or.inl ⟨hcar, hd⟩
      · exact Or.inl ⟨hcar, hd⟩
      · exact Or.inr ⟨⟨hcar, hd⟩, j, hdest, hcloser hne hbtw⟩

/-- The first packet of a trace is the one the handler made. -/
theorem Trace.head {nodes : Nat → ι → DAENode} {t : Nat} {e : Effect}
    {p : AnonymousPacket} {ps : List AnonymousPacket}
    (htr : Trace R nodes t e ps) (hp : packetOf e = some p) :
    (onTheWay p = false ∧ ps = [p]) ∨
    (onTheWay p = true ∧ ∃ j e' ps', ps = p :: ps' ∧ p.dest = R.addr j ∧
      (nodes t j).receive p = (nodes t j, [e']) ∧
      Trace R nodes (t + 1) e' ps') := by
  cases htr with
  | done he h =>
      rw [hp] at he
      injection he with he
      subst he
      exact Or.inl ⟨h, rfl⟩
  | hop he h hdest hrecv hrest =>
      rw [hp] at he
      injection he with he
      subst he
      exact Or.inr ⟨h, _, _, _, rfl, hdest, hrecv, hrest⟩

/-- Every request is finished with, whatever the tables do in the meantime:
the clockwise distance to the key is the variant. -/
theorem trace_exists {nodes : Nat → ι → DAENode}
    (howns : ∀ t i, R.Owns i (nodes t i)) (hlive : ∀ t i, R.Live (nodes t i)) :
    ∀ (d t : Nat) (i : ι) (q : Request), cw R.size (R.id i) q.key ≤ d →
      q.key < R.size → q.Stops → R.Owns i n → R.Live n →
      ∃ ps, Trace R nodes t (q.handledBy n) ps := by
  intro d
  induction d generalizing n with
  | zero =>
      intro t i q hd hk hq hown hl
      obtain ⟨p, hp, hfin | ⟨_, j, _, hlt⟩⟩ := request_step hown hl q hk
      · exact ⟨[p], .done hp (hfin.not_onTheWay hq)⟩
      · exact absurd hlt (by omega)
  | succ d ih =>
      intro t i q hd hk hq hown hl
      obtain ⟨p, hp, hfin | ⟨hfwd, j, hdest, hlt⟩⟩ := request_step hown hl q hk
      · exact ⟨[p], .done hp (hfin.not_onTheWay hq)⟩
      · have hkey := Request.next_key hfwd
        obtain ⟨ps, hps⟩ := ih (n := nodes t j) (t + 1) j (q.next p)
          (by rw [hkey]; omega) (by rw [hkey]; exact hk)
          (Request.next_stops hfwd hq) (howns t j) (hlive t j)
        exact ⟨p :: ps, .hop hp (hfwd.onTheWay hq) hdest
          (Request.receive_next hfwd hq) hps⟩

/-- And it is passed on at most as often as the key is places away. -/
theorem trace_length {nodes : Nat → ι → DAENode}
    (howns : ∀ t i, R.Owns i (nodes t i)) (hlive : ∀ t i, R.Live (nodes t i)) :
    ∀ (d t : Nat) (i : ι) (q : Request) (ps : List AnonymousPacket),
      cw R.size (R.id i) q.key ≤ d → q.key < R.size → q.Stops →
      R.Owns i n → R.Live n → Trace R nodes t (q.handledBy n) ps →
      ps.countP onTheWay ≤ d := by
  intro d
  induction d generalizing n with
  | zero =>
      intro t i q ps hd hk hq hown hl htr
      obtain ⟨p, hp, hfin | ⟨_, j, _, hlt⟩⟩ := request_step hown hl q hk
      · rcases htr.head hp with ⟨hway, rfl⟩ | ⟨hway, _⟩
        · simp [hway]
        · rw [hfin.not_onTheWay hq] at hway
          cases hway
      · exact absurd hlt (by omega)
  | succ d ih =>
      intro t i q ps hd hk hq hown hl htr
      obtain ⟨p, hp, hcase⟩ := request_step hown hl q hk
      rcases htr.head hp with ⟨hway, rfl⟩ |
        ⟨hway, j, e', ps', rfl, hdest, hrecv, hrest⟩
      · simp [hway]
      · rcases hcase with hfin | ⟨hfwd, j', hdest', hlt⟩
        · rw [hfin.not_onTheWay hq] at hway
          cases hway
        · have hj : j' = j := R.addr_inj (hdest'.symm.trans hdest)
          subst hj
          rw [Request.receive_next hfwd hq] at hrecv
          have he' : e' = (q.next p).handledBy (nodes t j') := by
            simpa using hrecv.symm
          have hkey := Request.next_key hfwd
          have hrec := ih (t + 1) j' (q.next p) ps' (by rw [hkey]; omega)
            (by rw [hkey]; exact hk) (Request.next_stops hfwd hq) (howns t j')
            (hlive t j') (he' ▸ hrest)
          rw [List.countP_cons_of_pos hway]
          omega

/-- The branch of both handlers for a closest preceding node that is the node
itself is never taken. -/
theorem closest_ne_self (hown : R.Owns i n) (hlive : R.Live n)
    (hk : k < R.size) (hid : n.id ≠ k)
    (htight : n.isRightTightInRange n.id k n.successor = false) :
    n.findClosestPrecedingNode k ≠ n.id := by
  rcases route_cases hown hlive hk with heq | ⟨_, hin, _⟩ |
    ⟨_, _, u, j, _, hscan, hfj, hbtw⟩
  · exact absurd heq hid
  · rw [htight] at hin; cases hin
  · rw [(findClosest_of_scan hscan).1, hown.id,
      show (n.fingerTable u).successor = R.id j from
        congrArg PeerPair.relayId hfj]
    exact hbtw.1

/-- Routing makes progress on any tables, also when they change between hops:
a node finishes a lookup or a dead-drop message or passes it to a node strictly
nearer to the key, never through the fallback branch, so every request is
finished with after fewer than `2 ^ m` forwards. -/
theorem routing_progress (nodes : Nat → ι → DAENode)
    (howns : ∀ t i, R.Owns i (nodes t i)) (hlive : ∀ t i, R.Live (nodes t i))
    (hk : k < R.size) (i : ι) :
    (∀ t, (nodes t i).id ≠ k →
      (nodes t i).isRightTightInRange (nodes t i).id k (nodes t i).successor
        = false →
      (nodes t i).findClosestPrecedingNode k ≠ (nodes t i).id) ∧
    (∀ t ip port index, ∃ p,
      (nodes t i).handleFindSuccessor ip port index k = .directSend p ∧
      (p.header.id = .internalReplyFindSuccessor ∨
       (p.header.id = .internalJoinFindSuccessor ∧
        ∃ j, p.dest = R.addr j ∧
          cw R.size (R.id j) k < cw R.size (R.id i) k))) ∧
    (∀ t (x : DAENode.ExternalMsg), x.destId = k → ∃ p,
      (nodes t i).handleExternalMessaging x = .safeSend p ∧
      (p.header.isDest = true ∨
       (p.header.isDest = false ∧
        ∃ j, p.dest = R.addr j ∧
          cw R.size (R.id j) k < cw R.size (R.id i) k))) ∧
    ∀ q : Request, q.key = k → q.Stops →
      (∃ ps, Trace R nodes 1 (q.handledBy (nodes 0 i)) ps) ∧
      ∀ ps, Trace R nodes 1 (q.handledBy (nodes 0 i)) ps →
        ps.countP onTheWay < 2 ^ R.m := by
  have hcloser : ∀ {t : Nat} {j : ι}, (nodes t i).id ≠ k →
      Between R.size (R.id i) (R.id j) k →
      cw R.size (R.id j) k < cw R.size (R.id i) k :=
    fun hne hbtw => cw_lt_of_between (R.id_lt_size i) hk
      ((howns _ i).id ▸ hne) hbtw
  refine ⟨fun t => closest_ne_self (howns t i) (hlive t i) hk, ?_, ?_, ?_⟩
  · intro t ip port index
    obtain ⟨p, hp, hcase⟩ := lookup_cases (howns t i) (hlive t i) hk ip port index
    refine ⟨p, hp, ?_⟩
    rcases hcase with ⟨hrep, _⟩ | ⟨hrep, _⟩ | ⟨hfwd, hne, j, hdest, hbtw, _⟩
    · exact Or.inl hrep.id
    · exact Or.inl hrep.id
    · exact Or.inr ⟨hfwd.id, j, hdest, hcloser hne hbtw⟩
  · rintro t x rfl
    obtain ⟨p, hp, _, hcase⟩ := mail_cases (howns t i) (hlive t i) x hk
    refine ⟨p, hp, ?_⟩
    rcases hcase with ⟨hd, _⟩ | ⟨hd, _⟩ | ⟨hd, hne, _, j, hdest, hbtw⟩
    · exact Or.inl hd
    · exact Or.inl hd
    · exact Or.inr ⟨hd, j, hdest, hcloser hne hbtw⟩
  · rintro q rfl hq
    refine ⟨trace_exists howns hlive _ 1 i q (Nat.le_refl _) hk hq (howns 0 i)
      (hlive 0 i), fun ps hps => ?_⟩
    have hlen := trace_length howns hlive _ 1 i q ps (Nat.le_refl _) hk hq
      (howns 0 i) (hlive 0 i) hps
    exact Nat.lt_of_le_of_lt hlen (cw_lt (R.id_lt_size i) hk)

theorem routing_progress_pair :
    ∃ ps, Trace pairRoster (fun _ => pairNodes) 1
      ((pairNodes 0).handleFindSuccessor "10.22.1.16" 3011 0 1) ps := by
  obtain ⟨_, _, _, htrace⟩ := routing_progress (fun _ => pairNodes)
    (fun _ => pairNodes_owns) (fun _ => pairNodes_live) (k := 1) (by decide) 0
  exact (htrace (.lookup "10.22.1.16" 3011 0 1) rfl trivial).1

end Daenet.Proofs
