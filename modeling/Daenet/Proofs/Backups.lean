import Daenet.Lib.Chain
import Daenet.Proofs.Maintenance

/-!
# The backup list

`fetch_successor_list` asks the successor, which answers with its own successor
and hands the question on, six nodes in all; a counter in the question says how
many are left. The answers come back over six different paths, each with the
counter it was given, and the one who asked appends every answer and cuts its
list from the front to `6 - counter`: to one entry at the first node's answer,
and to six at the last one's.

This is the chain of `Lib.Chain`, and a round of the protocol plays it
(`delivers_plays`). If the answers arrive as they were sent, the list is what it
is meant to be, whatever it held before. If they do not, its head need not be
the nearest backup: an answer from near the beginning of the chain that arrives
late cuts it off.
-/

namespace Daenet.Proofs

open Daenet.Lib Daenet.Ref Daenet.Spec

variable {ι : Type} {R : Roster ι}

/-- Every node with its own identity and the next node for its first finger. -/
structure Linked (R : Roster ι) (s : System ι) : Prop where
  cfg : ∀ i, (s.relays i).cfg = R.cfg i
  owns : ∀ i, R.Owns i (s.nodes i)
  next : ∀ i, R.PointsNext i (s.nodes i)

/-- Datagrams delivered one at a time, each one `allowed` says so of and of those
sent before it that are still in flight. -/
inductive Delivers [DecidableEq ι]
    (allowed : AnonymousPacket → List AnonymousPacket → Prop) :
    System ι → List AnonymousPacket → System ι → Prop where
  | done (s : System ι) : Delivers allowed s [] s
  | next {s s' : System ι} {p : AnonymousPacket}
      {before after ps : List AnonymousPacket} {j : ι}
      (hnet : s.net = before ++ p :: after)
      (hdest : p.dest = (s.relays j).addr) (hok : allowed p before)
      (h : Delivers allowed (s.step (.deliver j before.length)) ps s') :
      Delivers allowed s (p :: ps) s'

/-- The question of a round, and an answer to it. -/
def isListFetch (p : AnonymousPacket) : Bool :=
  p.header.id = .internalFetchSuccessorList

def isListReply (p : AnonymousPacket) : Bool :=
  p.header.id = .internalReplySuccessorList

/-- Replies arrive in the order they were sent: none overtakes another. -/
def InOrder (p : AnonymousPacket) (before : List AnonymousPacket) : Prop :=
  isListReply p = true → ∀ q ∈ before, isListReply q = false

/-! ## The packets of a round -/

/-- The messages of the chain, as the nodes `S 0`, `S 1`, … send them: `S 0` is
the one who asks. -/
def roundPacket (R : Roster ι) (S : Nat → ι) : Letter → AnonymousPacket
  | .ask k => .internal .internalFetchSuccessorList
      (R.cfg (S (k - 1))).relayIp (R.id (S (k - 1)))
      (R.cfg (S k)).relayIp noId (R.cfg (S k)).relayPort
      (R.cfg (S 0)).relayIp (if k = 1 then R.id (S 0) else noId)
      (R.cfg (S 0)).relayPort
      (R.cfg (S 0)).relayIp (if k = 1 then R.id (S 0) else noId)
      (R.cfg (S 0)).relayPort
      (6 - k) true
  | .answer k => .internal .internalReplySuccessorList
      (R.cfg (S k)).relayIp (R.id (S k))
      (R.cfg (S 0)).relayIp noId (R.cfg (S 0)).relayPort
      (R.cfg (S 0)).relayIp noId (R.cfg (S 0)).relayPort
      (R.cfg (S (k + 1))).relayIp (R.id (S (k + 1)))
      (R.cfg (S (k + 1))).relayPort
      (6 - k) true

/-- The node a message goes to. -/
def receiver (S : Nat → ι) : Letter → ι
  | .ask k => S k
  | .answer _ => S 0

/-- The member of the chain a message is about. -/
def member : Letter → Nat
  | .ask k => k
  | .answer k => k

section

variable {S : Nat → ι} {n : DAENode} {k : Nat} {e : Letter}

theorem roundPacket_dest : (roundPacket R S e).dest = R.addr (receiver S e) := by
  cases e <;> rfl

theorem isListReply_roundPacket : isListReply (roundPacket R S e) = e.answers.isSome := by
  cases e <;> rfl

theorem isListFetch_roundPacket : isListFetch (roundPacket R S e) = e.asks.isSome := by
  cases e <;> rfl

/-- The question leaves. -/
theorem fetch_eq (hown : R.Owns (S 0) n)
    (hnext : (n.fingerTable 0).peer = R.peer (S 1)) :
    n.fetchSuccessorList = [.directSend (roundPacket R S (.ask 1))] := by
  have hip : (n.fingerTable 0).ip = (R.cfg (S 1)).relayIp :=
    congrArg PeerPair.ip hnext
  have hport : (n.fingerTable 0).port = (R.cfg (S 1)).relayPort :=
    congrArg PeerPair.port hnext
  unfold DAENode.fetchSuccessorList DAEService.fetchBackupSuccessor
  rw [hip, hport, hown.ip, hown.port, hown.id]
  rfl

/-- Member `k` answers and hands the question on. -/
theorem receive_question (hown : R.Owns (S k) n)
    (hnext : (n.fingerTable 0).peer = R.peer (S (k + 1))) (hk : 1 ≤ k)
    (hk' : k ≤ 6) :
    n.receive (roundPacket R S (.ask k)) =
      (n, (Letter.brings 6 (.ask k)).map fun e =>
        .directSend (roundPacket R S e)) := by
  have hip : (n.fingerTable 0).ip = (R.cfg (S (k + 1))).relayIp :=
    congrArg PeerPair.ip hnext
  have hport : (n.fingerTable 0).port = (R.cfg (S (k + 1))).relayPort :=
    congrArg PeerPair.port hnext
  have hsucc : (n.fingerTable 0).successor = R.id (S (k + 1)) :=
    congrArg PeerPair.relayId hnext
  show (n, n.handleFetchSuccessorList (6 - k) (R.cfg (S 0)).relayIp
    (R.cfg (S 0)).relayPort) = _
  unfold DAENode.handleFetchSuccessorList DAEService.fetchBackupSuccessor
    DAEService.replyBackupSuccessor
  rw [hip, hport, hsucc, hown.ip, hown.id]
  by_cases hlt : k < 6
  · have hcount : (6 : Int) - k - 1 = 6 - (k + 1 : Nat) := by omega
    rw [if_pos (by omega), Letter.brings, if_pos hlt, hcount]
    simp only [List.map_cons, List.map_nil, roundPacket, Nat.add_sub_cancel,
      if_neg (show k + 1 ≠ 1 by omega)]
    rfl
  · rw [if_neg (by omega), Letter.brings, if_neg hlt]
    rfl

/-- The one who asked keeps the answer of member `k`. -/
theorem receive_answer (hown : R.Owns (S 0) n) (hne : S (k + 1) ≠ S 0)
    (hk' : k ≤ 6) :
    n.receive (roundPacket R S (.answer k)) =
      ({ n with successorList := push n.successorList (R.peer (S (k + 1)), k) },
        []) := by
  show (n.handleReplySuccessorList (R.id (S (k + 1)))
    (R.cfg (S (k + 1))).relayIp (R.cfg (S (k + 1))).relayPort (6 - k), []) = _
  have hbound : ((6 - (6 - k : Int)) % 2 ^ 64).toNat = k := by omega
  unfold DAENode.handleReplySuccessorList
  rw [if_pos (by rw [hown.id]; exact R.id_ne hne), hbound]
  rfl

end

/-! ## A round plays the chain -/

/-- During a round of `S 0`: what is in flight, and the list after the answers of
`order`. -/
structure InRound (R : Roster ι) (S : Nat → ι) (old : List PeerPair)
    (s : System ι) (flight : List Letter) (order : List Nat) : Prop where
  linked : Linked R s
  net : s.net = flight.map (roundPacket R S)
  range : ∀ e ∈ flight, 1 ≤ member e ∧ member e ≤ 6
  list : (s.nodes (S 0)).successorList =
    pushAll old (order.map fun k => (R.peer (S (k + 1)), k))

theorem brings_range {e f : Letter} (h : 1 ≤ member e ∧ member e ≤ 6)
    (hf : f ∈ e.brings 6) : 1 ≤ member f ∧ member f ≤ 6 := by
  cases e with
  | ask k =>
      rw [Letter.brings] at hf
      rcases List.mem_cons.mp hf with rfl | hf
      · exact h
      · split at hf
        · next hlt =>
            rw [List.mem_singleton.mp hf]
            exact ⟨Nat.le_add_left 1 k, hlt⟩
        · cases hf
  | answer k => cases hf

theorem Linked.addr {s : System ι} (h : Linked R s) (i : ι) :
    (s.relays i).addr = R.addr i := by
  rw [Relay.addr, h.cfg]
  rfl

/-- The first finger along the walk. -/
theorem Linked.points {s : System ι} {S : Nat → ι} (h : Linked R s)
    (hS : ∀ k, R.IsNext (S k) (S (k + 1))) (k : Nat) :
    ((s.nodes (S k)).fingerTable 0).peer = R.peer (S (k + 1)) := by
  obtain ⟨j, hj, hpeer⟩ := h.next (S k)
  rw [hpeer, R.isNext_unique hj (hS k)]

section

variable [DecidableEq ι] {S : Nat → ι} {old : List PeerPair} {s s' : System ι}
  {flight before after : List Letter} {order : List Nat} {e : Letter}
  {allowed : AnonymousPacket → List AnonymousPacket → Prop}

theorem eraseIdx_middle {α : Type} (xs ys : List α) (x : α) :
    (xs ++ x :: ys).eraseIdx xs.length = xs ++ ys := by
  rw [List.eraseIdx_append_of_length_le (Nat.le_refl _), Nat.sub_self]
  rfl

theorem getElem?_middle {α : Type} (xs ys : List α) (x : α) :
    (xs ++ x :: ys)[xs.length]? = some x := by
  rw [List.getElem?_append_right (Nat.le_refl _), Nat.sub_self]
  rfl

/-- A node that changes nothing but its backup list. -/
theorem Linked.keeps (h : Linked R s) {i : ι} {r : DAENode × List Effect}
    {net : List AnonymousPacket} {list : List PeerPair}
    (ha : After s s' i r net)
    (hr : r.1 = { s.nodes i with successorList := list }) : Linked R s' := by
  refine ⟨fun j => (ha.cfg j).trans (h.cfg j), fun j => ?_, fun j => ?_⟩
  · rw [ha.nodes]
    by_cases hj : j = i
    · subst hj
      rw [Function.update_self, hr]
      have hown := h.owns j
      exact ⟨hown.m, hown.id, hown.ip, hown.port⟩
    · rw [Function.update_of_ne hj]
      exact h.owns j
  · rw [ha.nodes]
    by_cases hj : j = i
    · subst hj
      rw [Function.update_self, hr]
      exact h.next j
    · rw [Function.update_of_ne hj]
      exact h.next j

variable (hS : ∀ k, R.IsNext (S k) (S (k + 1)))

include hS

/-- One message arrives. -/
theorem InRound.step (hcard : 8 ≤ Nat.card ι)
    (h : InRound R S old s (before ++ e :: after) order) :
    InRound R S old (s.step (.deliver (receiver S e) before.length))
      (before ++ after ++ e.brings 6) (order ++ answersOf [e]) := by
  have hrange := h.range e (by simp)
  have hnet : s.net = before.map (roundPacket R S) ++
      roundPacket R S e :: after.map (roundPacket R S) := by
    rw [h.net, List.map_append, List.map_cons]
  have hlen : (before.map (roundPacket R S)).length = before.length :=
    List.length_map ..
  have hk : s.net[before.length]? = some (roundPacket R S e) := by
    rw [hnet, ← hlen]
    exact getElem?_middle ..
  have herase : s.net.eraseIdx before.length =
      (before ++ after).map (roundPacket R S) := by
    rw [hnet, ← hlen, List.map_append]
    exact eraseIdx_middle ..
  have hdest : (roundPacket R S e).dest = (s.relays (receiver S e)).addr := by
    rw [roundPacket_dest, h.linked.addr]
  have hmap : (before ++ after ++ e.brings 6).map (roundPacket R S) =
      (before ++ after).map (roundPacket R S) ++
        (e.brings 6).map (roundPacket R S) :=
    List.map_append
  have hflight : ∀ f ∈ before ++ after ++ e.brings 6,
      1 ≤ member f ∧ member f ≤ 6 := by
    intro f hf
    rcases List.mem_append.mp hf with hf | hf
    · refine h.range f ?_
      rcases List.mem_append.mp hf with hf | hf
      · exact List.mem_append_left _ hf
      · exact List.mem_append_right _ (List.mem_cons_of_mem _ hf)
    · exact brings_range hrange hf
  cases e with
  | ask k =>
      change (roundPacket R S (.ask k)).dest = (s.relays (S k)).addr at hdest
      show InRound R S old (s.step (.deliver (S k) before.length)) _ _
      have hrecv := receive_question (h.linked.owns (S k)) (h.linked.points hS k)
        hrange.1 hrange.2
      have ha := after_deliver hk hdest (by
        rw [hrecv]
        intro e he p
        obtain ⟨f, _, rfl⟩ := List.mem_map.mp he
        exact Effect.noConfusion)
      rw [hrecv, herase] at ha
      have hsame : (s.step (.deliver (S k) before.length)).nodes = s.nodes := by
        rw [ha.nodes]
        exact Function.update_eq_self ..
      refine ⟨h.linked.keeps ha rfl, ?_, hflight, ?_⟩
      · rw [ha.net, hmap, List.filterMap_map]
        exact congrArg _ (congrFun (List.filterMap_eq_map ..) _)
      · rw [hsame, h.list]
        exact congrArg _ (congrArg _ (List.append_nil _).symm)
  | answer k =>
      change (roundPacket R S (.answer k)).dest = (s.relays (S 0)).addr at hdest
      show InRound R S old (s.step (.deliver (S 0) before.length)) _ _
      have hne : S (k + 1) ≠ S 0 := by
        intro hback
        have := R.card_le_of_return hS (Nat.succ_pos k) hback
        have := hrange.2
        simp only [member] at this
        omega
      have hrecv := receive_answer (h.linked.owns (S 0)) hne hrange.2
      have ha := after_deliver hk hdest (by
        rw [hrecv]
        intro e he
        cases he)
      rw [hrecv, herase] at ha
      refine ⟨h.linked.keeps ha rfl, ?_, hflight, ?_⟩
      · rw [ha.net, hmap]
        rfl
      · rw [ha.nodes, Function.update_self]
        show push _ _ = _
        rw [h.list, List.map_append, pushAll_append]
        rfl

/-- Deliveries of a round are arrivals of the chain. -/
theorem delivers_plays (hcard : 8 ≤ Nat.card ι) {ps : List AnonymousPacket}
    (h : Delivers allowed s ps s') (hs : InRound R S old s flight order) :
    ∃ log last, Plays 6 (fun e es => allowed (roundPacket R S e)
        (es.map (roundPacket R S))) flight log last ∧
      ps = log.map (roundPacket R S) ∧
      InRound R S old s' last (order ++ answersOf log) := by
  induction h generalizing flight order with
  | done s =>
      refine ⟨[], flight, .done flight, rfl, ?_⟩
      rw [show answersOf [] = [] from rfl, List.append_nil]
      exact hs
  | @next s s' p before after ps j hnet hdest hok _ ih =>
      rw [hs.net] at hnet
      obtain ⟨before, tail, rfl, rfl, htail⟩ := List.map_eq_append_iff.mp hnet
      obtain ⟨e, after, rfl, rfl, rfl⟩ := List.map_eq_cons_iff.mp htail
      have hj : j = receiver S e := by
        rw [roundPacket_dest, hs.linked.addr] at hdest
        exact R.addr_inj hdest.symm
      subst hj
      rw [List.length_map] at ih
      obtain ⟨log, last, hplays, rfl, hlast⟩ := ih (hs.step hS hcard)
      refine ⟨e :: log, last, .next hok hplays, rfl, ?_⟩
      rw [List.append_assoc, ← answersOf_append] at hlast
      exact hlast

/-- Arrivals of the chain are deliveries of a round. -/
theorem plays_delivers (hcard : 8 ≤ Nat.card ι) {log last : List Letter}
    (h : Plays 6 (fun e es => allowed (roundPacket R S e)
        (es.map (roundPacket R S))) flight log last) (hs : InRound R S old s flight order) :
    ∃ s', Delivers allowed s (log.map (roundPacket R S)) s' ∧
      InRound R S old s' last (order ++ answersOf log) := by
  induction h generalizing s order with
  | done flight =>
      refine ⟨s, .done s, ?_⟩
      rw [show answersOf [] = [] from rfl, List.append_nil]
      exact hs
  | @next before after log last e hok _ ih =>
      obtain ⟨s', hdel, hlast⟩ := ih (hs.step hS hcard)
      rw [← List.length_map (roundPacket R S)] at hdel
      have hnet : s.net = before.map (roundPacket R S) ++
          roundPacket R S e :: after.map (roundPacket R S) := by
        rw [hs.net, List.map_append, List.map_cons]
      refine ⟨s', .next hnet ?_ hok hdel, ?_⟩
      · rw [roundPacket_dest, hs.linked.addr]
      · rw [List.append_assoc, ← answersOf_append] at hlast
        exact hlast

/-- A round begins. -/
theorem round_start (hs : Linked R s) (hnet : s.net = []) :
    InRound R S (s.nodes (S 0)).successorList
      (s.step (.fetchSuccessorList (S 0))) [.ask 1] [] := by
  have hfetch := fetch_eq (hs.owns (S 0)) (hs.points hS 0)
  have ha : After s (s.step (.fetchSuccessorList (S 0))) (S 0)
      (s.nodes (S 0), (s.nodes (S 0)).fetchSuccessorList) s.net := by
    refine after_handle (f := fun n => (n, n.fetchSuccessorList)) ?_
    simp only [hfetch]
    intro e he p
    rw [List.mem_singleton.mp he]
    exact Effect.noConfusion
  rw [hfetch, hnet] at ha
  refine ⟨hs.keeps ha rfl, ha.net, ?_, ?_⟩
  · intro e he
    rw [List.mem_singleton.mp he]
    exact ⟨Nat.le_refl 1, by decide⟩
  · rw [ha.nodes, Function.update_self]
    rfl

/-- A round that is over has played the chain to its end. -/
theorem round_end (hcard : 8 ≤ Nat.card ι) (hs : Linked R s) (hnet : s.net = [])
    {ps : List AnonymousPacket}
    (hdel : Delivers allowed (s.step (.fetchSuccessorList (S 0))) ps s')
    (hend : s'.net = []) :
    ∃ log, Plays 6 (fun e es => allowed (roundPacket R S e)
        (es.map (roundPacket R S))) [.ask 1] log [] ∧
      ps = log.map (roundPacket R S) ∧
      (s'.nodes (S 0)).successorList = pushAll (s.nodes (S 0)).successorList
        ((answersOf log).map fun k => (R.peer (S (k + 1)), k)) := by
  obtain ⟨log, last, hplays, hps, hlast⟩ :=
    delivers_plays hS hcard hdel (round_start hS hs hnet)
  have hnil : last = [] := by
    have hflight := hlast.net
    rw [hend] at hflight
    exact List.map_eq_nil_iff.mp hflight.symm
  subst hnil
  exact ⟨log, hplays, hps, hlast.list⟩

end

/-! ## What is collected -/

section

variable {S : Nat → ι} {log : List Letter}

theorem countP_isListReply :
    (log.map (roundPacket R S)).countP isListReply = (answersOf log).length := by
  induction log with
  | nil => rfl
  | cons e log ih =>
      rw [List.map_cons, List.countP_cons, ih, isListReply_roundPacket]
      cases e with
      | ask k => rfl
      | answer k => rfl

theorem countP_isListFetch :
    (log.map (roundPacket R S)).countP isListFetch = (asksOf log).length := by
  induction log with
  | nil => rfl
  | cons e log ih =>
      rw [List.map_cons, List.countP_cons, ih, isListFetch_roundPacket]
      cases e with
      | ask k => rfl
      | answer k => rfl

/-- The nodes named by the replies, in the order they arrived. -/
def named (ps : List AnonymousPacket) : List PeerPair :=
  (ps.filter isListReply).map AnonymousPacket.keyPeer

theorem named_roundPacket :
    named (log.map (roundPacket R S)) =
      (answersOf log).map fun k => R.peer (S (k + 1)) := by
  induction log with
  | nil => rfl
  | cons e log ih =>
      unfold named at ih ⊢
      rw [List.map_cons, List.filter_cons, isListReply_roundPacket]
      cases e with
      | ask k => exact ih
      | answer k => exact congrArg (_ :: ·) ih

/-- With replies in order, answers do not overtake each other. -/
theorem fifo_inOrder : Fifo fun e es =>
    InOrder (roundPacket R S e) (es.map (roundPacket R S)) := by
  intro k before hok
  refine List.filterMap_eq_nil_iff.mpr fun e he => ?_
  have := hok rfl (roundPacket R S e) (List.mem_map_of_mem he)
  rw [isListReply_roundPacket] at this
  exact Option.isNone_iff_eq_none.mp (by simpa using this)

variable [DecidableEq ι]

/-- **The backup list**: after a round of `fetch_successor_list` whose replies
arrive in the order they were sent, the list is the six nodes after the
successor, whatever it was before; six replies were sent, and the question was
asked once and handed on five times. Such a round can be completed. -/
theorem backup_list_in_order (R : Roster ι) (hcard : 8 ≤ Nat.card ι)
    (S : Nat → ι) (hS : ∀ k, R.IsNext (S k) (S (k + 1))) (s : System ι)
    (hs : Linked R s) (hnet : s.net = []) :
    (∃ ps s', Delivers InOrder (s.step (.fetchSuccessorList (S 0))) ps s' ∧
      s'.net = []) ∧
    ∀ ps s', Delivers InOrder (s.step (.fetchSuccessorList (S 0))) ps s' →
      s'.net = [] →
      (s'.nodes (S 0)).successorList =
          [R.peer (S 2), R.peer (S 3), R.peer (S 4), R.peer (S 5), R.peer (S 6),
            R.peer (S 7)] ∧
        ps.countP isListReply = 6 ∧ ps.countP isListFetch = 1 + 5 := by
  have hstart := round_start hS hs hnet
  refine ⟨?_, fun ps s' hdel hend => ?_⟩
  · obtain ⟨log, hplays⟩ := @plays_exists 6
      (fun e es => InOrder (roundPacket R S e) (es.map (roundPacket R S)))
      (by decide) fun e _ q hq => by cases hq
    obtain ⟨s', hdel, hlast⟩ := plays_delivers hS hcard hplays hstart
    exact ⟨_, s', hdel, hlast.net⟩
  · obtain ⟨log, hplays, rfl, hlist⟩ := round_end hS hcard hs hnet hdel hend
    obtain ⟨hasks, hperm, hord⟩ := plays_complete (by decide) hplays
    refine ⟨?_, ?_, ?_⟩
    · rw [hlist, hord fifo_inOrder]
      exact pushAll_inOrder _ (fun k => R.peer (S (k + 1))) 5
    · rw [countP_isListReply, hperm.length_eq]
      rfl
    · rw [countP_isListFetch, hasks]
      rfl

end

/-- Eight nodes, one at every place of the ring. -/
def octRoster : Roster (Fin 8) where
  m := 3
  cfg := fun i =>
    { relayIp := "10.22.1.16"
      relayPort := 3010 + i.val
      relayId := i.val
      ringBits := 3
      initPeers := ⟨"10.22.1.16", 3010, 0⟩ }
  bits_pos := by decide
  bits_le := by decide
  ringBits := fun _ => rfl
  id_lt := by decide
  id_inj := by unfold Function.Injective; decide
  addr_inj := by unfold Function.Injective; decide

/-- The eight nodes, each with the next one as successor and two backups that
are no use. -/
def octSystem : System (Fin 8) where
  relays := fun i =>
    let r := Relay.new (octRoster.cfg i)
    { r with node := { r.node.setFinger 0 (octRoster.peer (i + 1)) with
        successorList := [octRoster.peer i, octRoster.peer (i + 1)] } }
  net := []

/-- The walk from node 0. -/
def octWalk (k : Nat) : Fin 8 := Fin.ofNat 8 k

theorem oct_isNext (i : Fin 8) : octRoster.IsNext i (i + 1) := by
  unfold Roster.IsNext
  revert i
  decide

theorem octWalk_isNext (k : Nat) :
    octRoster.IsNext (octWalk k) (octWalk (k + 1)) := by
  have hnext : octWalk (k + 1) = octWalk k + 1 := by
    apply Fin.ext
    simp [octWalk, Fin.val_add]
  rw [hnext]
  exact oct_isNext _

theorem octSystem_linked : Linked octRoster octSystem :=
  ⟨fun _ => rfl, fun _ => ⟨rfl, rfl, rfl, rfl⟩,
    fun i => ⟨i + 1, oct_isNext i, DAENode.setFinger_peer _ 0 _⟩⟩

theorem oct_card : 8 ≤ Nat.card (Fin 8) := by
  rw [Nat.card_eq_fintype_card]
  exact Nat.le_of_eq (Fintype.card_fin 8).symm

theorem backup_list_in_order_oct :
    (octSystem.nodes 0).successorList = [octRoster.peer 0, octRoster.peer 1] ∧
    ∃ ps s', Delivers InOrder (octSystem.step (.fetchSuccessorList 0)) ps s' ∧
      s'.net = [] ∧
      (s'.nodes 0).successorList =
        [octRoster.peer 2, octRoster.peer 3, octRoster.peer 4, octRoster.peer 5,
          octRoster.peer 6, octRoster.peer 7] ∧
      ps.countP isListReply = 6 ∧ ps.countP isListFetch = 1 + 5 := by
  obtain ⟨⟨ps, s', hdel, hend⟩, hall⟩ := backup_list_in_order octRoster oct_card
    octWalk octWalk_isNext octSystem octSystem_linked rfl
  exact ⟨rfl, ps, s', hdel, hend, hall ps s' hdel hend⟩

/-! ## Replies out of order -/

section

variable {S : Nat → ι} (hS : ∀ k, R.IsNext (S k) (S (k + 1)))

include hS

/-- The first eight nodes of the walk are eight nodes. -/
theorem walk_inj (hcard : 8 ≤ Nat.card ι) {i j : Nat} (hi : i < 8) (hj : j < 8)
    (h : S i = S j) : i = j := by
  have key : ∀ a b, a < b → b < 8 → S a ≠ S b := by
    intro a b hab hb he
    have hback : (fun k => S (a + k)) (b - a) = (fun k => S (a + k)) 0 := by
      show S (a + (b - a)) = S a
      rw [Nat.add_sub_cancel' (Nat.le_of_lt hab), he]
    have := R.card_le_of_return (S := fun k => S (a + k)) (fun k => hS (a + k))
      (Nat.sub_pos_of_lt hab) hback
    omega
  rcases Nat.lt_trichotomy i j with hlt | heq | hgt
  · exact absurd h (key i j hlt hj)
  · exact heq
  · exact absurd h.symm (key j i hgt hi)

/-- Where the answers after the first member's come to stand. -/
theorem head_iff (hcard : 8 ≤ Nat.card ι) (old : List PeerPair)
    {before after : List Nat}
    (hperm : (before ++ 1 :: after).Perm (List.range' 1 6)) :
    (pushAll old ((before ++ 1 :: after).map fun k =>
        (R.peer (S (k + 1)), k))).head? = some (R.peer (S 2)) ↔
      ∀ r k, after[r]? = some k → r + 2 ≤ k := by
  have hrange : ∀ k ∈ after, 1 < k ∧ k ≤ 6 := by
    intro k hk
    have hmem := List.mem_range'_1.mp (hperm.mem_iff.mp
      (List.mem_append_right before (List.mem_cons_of_mem 1 hk)))
    have hnodup : (1 :: after).Nodup :=
      (hperm.nodup_iff.mpr List.nodup_range').of_append_right
    have hne : k ≠ 1 := fun he => (List.nodup_cons.mp hnodup).1 (he ▸ hk)
    omega
  have hone : push (pushAll old (before.map fun k => (R.peer (S (k + 1)), k)))
      (R.peer (S 2), 0 + 1) = [R.peer (S 2)] := by
    rw [push_succ, List.rtake_zero, List.nil_append]
  rw [List.map_append, pushAll_append, List.map_cons]
  show (pushAll (push _ (R.peer (S 2), 0 + 1)) _).head? = _ ↔ _
  rw [hone, head_pushAll (List.not_mem_nil) ?_ ?_]
  · constructor
    · intro h r k hk
      have := h r (R.peer (S (k + 1)), k) (by rw [List.getElem?_map, hk]; rfl)
      simp only [List.length_nil] at this
      omega
    · intro h r p hp
      rw [List.getElem?_map] at hp
      obtain ⟨k, hk, rfl⟩ := Option.map_eq_some_iff.mp hp
      have := h r k hk
      simp only [List.length_nil]
      omega
  · intro p hp he
    obtain ⟨k, hk, rfl⟩ := List.mem_map.mp hp
    have := hrange k hk
    have := walk_inj hS hcard (by omega) (by omega) (R.peer_inj he)
    omega
  · intro p hp
    obtain ⟨k, hk, rfl⟩ := List.mem_map.mp hp
    exact Nat.lt_of_succ_lt (hrange k hk).1

end

/-- The replies arrive with room for the nearest backup: the one that names
`S k` at most `k - 2` places after the one that names `S 2`, if after it at
all. -/
def InTime (R : Roster ι) (S : Nat → ι) (replies : List PeerPair) : Prop :=
  ∀ before after, replies = before ++ R.peer (S 2) :: after →
    ∀ r k, 3 ≤ k → k ≤ 7 → after[r]? = some (R.peer (S k)) → r + 3 ≤ k

/-- **The first backup**: after a round of `fetch_successor_list`, whatever the
list was and in whatever order the replies arrived, its head is the node after
the successor exactly when the replies came in time. -/
theorem first_backup_nearest_iff [DecidableEq ι] (R : Roster ι)
    (hcard : 8 ≤ Nat.card ι) (S : Nat → ι)
    (hS : ∀ k, R.IsNext (S k) (S (k + 1))) (s : System ι) (hs : Linked R s)
    (hnet : s.net = []) (ps : List AnonymousPacket) (s' : System ι)
    (hdel : Delivers (fun _ _ => True) (s.step (.fetchSuccessorList (S 0))) ps s')
    (hend : s'.net = []) :
    (s'.nodes (S 0)).successorList.head? = some (R.peer (S 2)) ↔
      InTime R S (named ps) := by
  obtain ⟨log, hplays, rfl, hlist⟩ := round_end hS hcard hs hnet hdel hend
  obtain ⟨_, hperm, _⟩ := plays_complete (by decide) hplays
  rw [hlist, named_roundPacket]
  generalize answersOf log = answers at hperm
  have hmem : ∀ k ∈ answers, 1 ≤ k ∧ k ≤ 6 := by
    intro k hk
    have := List.mem_range'_1.mp (hperm.mem_iff.mp hk)
    omega
  constructor
  · intro hhead before after hsplit r k hk hk' hat
    obtain ⟨before, tail, rfl, rfl, htail⟩ := List.map_eq_append_iff.mp hsplit
    obtain ⟨one, after, rfl, hone, rfl⟩ := List.map_eq_cons_iff.mp htail
    have hbound := hmem one (by simp)
    have : one + 1 = 2 :=
      walk_inj hS hcard (by omega) (by decide) (R.peer_inj hone)
    obtain rfl : one = 1 := by omega
    rw [List.getElem?_map] at hat
    obtain ⟨j, hj, hpeer⟩ := Option.map_eq_some_iff.mp hat
    have hbound := hmem j (List.mem_append_right _ (List.mem_cons_of_mem _
      (List.mem_of_getElem? hj)))
    have := walk_inj hS hcard (by omega) (by omega) (R.peer_inj hpeer)
    have := (head_iff hS hcard _ hperm).mp hhead r j hj
    omega
  · intro htime
    have hone : 1 ∈ answers := hperm.mem_iff.mpr (by decide)
    obtain ⟨before, after, rfl⟩ := List.append_of_mem hone
    refine (head_iff hS hcard _ hperm).mpr fun r k hk => ?_
    have hbound := hmem k (List.mem_append_right _ (List.mem_cons_of_mem _
      (List.mem_of_getElem? hk)))
    by_cases hk1 : k = 1
    · -- Member 1 answered once.
      subst hk1
      have hnodup : (1 :: after).Nodup :=
        (hperm.nodup_iff.mpr List.nodup_range').of_append_right
      exact absurd (List.mem_of_getElem? hk) (List.nodup_cons.mp hnodup).1
    · have := htime _ _ (by rw [List.map_append, List.map_cons]) r (k + 1)
        (by omega) (by omega) (by rw [List.getElem?_map, hk]; rfl)
      omega

/-- A round of the eight nodes with the letters in a given order. -/
theorem oct_round {log : List Letter}
    (h : Plays 6 (fun _ _ => True) [.ask 1] log []) :
    ∃ s', Delivers (fun _ _ => True) (octSystem.step (.fetchSuccessorList 0))
        (log.map (roundPacket octRoster octWalk)) s' ∧ s'.net = [] ∧
      (s'.nodes 0).successorList = pushAll (octSystem.nodes 0).successorList
        ((answersOf log).map fun k => (octRoster.peer (octWalk (k + 1)), k)) := by
  have hstart := round_start octWalk_isNext octSystem_linked rfl
  have hround : ∃ s', Delivers (fun _ _ => True) _ _ s' ∧
      InRound octRoster octWalk _ s' [] ([] ++ answersOf log) :=
    plays_delivers octWalk_isNext oct_card h hstart
  obtain ⟨s', hdel, hlast⟩ := hround
  exact ⟨s', hdel, hlast.net, hlast.list⟩

/-- The second answer overtakes the first one. -/
theorem oct_swapped : Plays 6 (fun _ _ => True) [.ask 1]
    [.ask 1, .ask 2, .answer 2, .answer 1, .ask 3, .answer 3, .ask 4, .answer 4,
      .ask 5, .answer 5, .ask 6, .answer 6] [] := by
  refine @Plays.next 6 _ [] [] _ _ _ trivial ?_
  refine @Plays.next 6 _ [.answer 1] [] _ _ _ trivial ?_
  refine @Plays.next 6 _ [.answer 1] [.ask 3] _ _ _ trivial ?_
  refine @Plays.next 6 _ [] [.ask 3] _ _ _ trivial ?_
  refine @Plays.next 6 _ [] [] _ _ _ trivial ?_
  refine @Plays.next 6 _ [] [.ask 4] _ _ _ trivial ?_
  refine @Plays.next 6 _ [] [] _ _ _ trivial ?_
  refine @Plays.next 6 _ [] [.ask 5] _ _ _ trivial ?_
  refine @Plays.next 6 _ [] [] _ _ _ trivial ?_
  refine @Plays.next 6 _ [] [.ask 6] _ _ _ trivial ?_
  refine @Plays.next 6 _ [] [] _ _ _ trivial ?_
  exact @Plays.next 6 _ [] [] _ _ _ trivial (.done [])

theorem first_backup_nearest_iff_swapped :
    ∃ ps s', Delivers (fun _ _ => True) (octSystem.step (.fetchSuccessorList 0))
        ps s' ∧
      s'.net = [] ∧ (s'.nodes 0).successorList.head? = some (octRoster.peer 2) ∧
      InTime octRoster octWalk (named ps) := by
  obtain ⟨s', hdel, hend, hlist⟩ := oct_round oct_swapped
  have hhead : (s'.nodes 0).successorList.head? = some (octRoster.peer 2) := by
    rw [hlist]
    decide
  exact ⟨_, s', hdel, hend, hhead, (first_backup_nearest_iff octRoster oct_card
    octWalk octWalk_isNext octSystem octSystem_linked rfl _ s' hdel hend).mp hhead⟩

/-- The second answer is late: the third one has come in its place. -/
theorem oct_late : Plays 6 (fun _ _ => True) [.ask 1]
    [.ask 1, .answer 1, .ask 2, .ask 3, .answer 3, .answer 2, .ask 4, .answer 4,
      .ask 5, .answer 5, .ask 6, .answer 6] [] := by
  refine @Plays.next 6 _ [] [] _ _ _ trivial ?_
  refine @Plays.next 6 _ [] [.ask 2] _ _ _ trivial ?_
  refine @Plays.next 6 _ [] [] _ _ _ trivial ?_
  refine @Plays.next 6 _ [.answer 2] [] _ _ _ trivial ?_
  refine @Plays.next 6 _ [.answer 2] [.ask 4] _ _ _ trivial ?_
  refine @Plays.next 6 _ [] [.ask 4] _ _ _ trivial ?_
  refine @Plays.next 6 _ [] [] _ _ _ trivial ?_
  refine @Plays.next 6 _ [] [.ask 5] _ _ _ trivial ?_
  refine @Plays.next 6 _ [] [] _ _ _ trivial ?_
  refine @Plays.next 6 _ [] [.ask 6] _ _ _ trivial ?_
  refine @Plays.next 6 _ [] [] _ _ _ trivial ?_
  exact @Plays.next 6 _ [] [] _ _ _ trivial (.done [])

/-- One answer that arrives one place late evicts the nearest backup. -/
theorem late_answer_evicts_nearest :
    ¬ ∀ (R : Roster (Fin 8)) (S : Nat → Fin 8),
      (∀ k, R.IsNext (S k) (S (k + 1))) → ∀ s : System (Fin 8), Linked R s →
      s.net = [] → ∀ ps s',
      Delivers (fun _ _ => True) (s.step (.fetchSuccessorList (S 0))) ps s' →
      s'.net = [] →
      (s'.nodes (S 0)).successorList.head? = some (R.peer (S 2)) := by
  intro hall
  obtain ⟨s', hdel, hend, hlist⟩ := oct_round oct_late
  have hhead := hall octRoster octWalk octWalk_isNext octSystem octSystem_linked
    rfl _ s' hdel hend
  have : (s'.nodes (octWalk 0)).successorList.head? = some (octRoster.peer 4) := by
    show (s'.nodes 0).successorList.head? = _
    rw [hlist]
    decide
  rw [this] at hhead
  exact absurd hhead (by decide)

end Daenet.Proofs
