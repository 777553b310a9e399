import Daenet.Proofs.Routing

/-!
# Rendezvous: on correct successors, one key means one node

Once every node's first finger is the next node clockwise, the two ways a
request can end — the key is this node's id, or it lies on the arc up to the
successor — both name the node responsible for the key. The other fingers may
be any nodes at all: they choose the path, and the last hop does not depend on
it.

`lookup_answer` and `mail_answer` are the one-hop forms, the ones an invariant
over packets in flight can use; `rendezvous` follows the path to its end.
-/

namespace Daenet.Proofs

open Daenet.Lib Daenet.Ref Daenet.Spec

variable {ι : Type} {R : Roster ι} {i : ι} {n : DAENode} {k : Nat}

/-- The arc up to a correct successor belongs to that successor. -/
theorem isSucc_of_arc {j : ι} (hnext : R.IsNext i j) (hk : k < R.size)
    (hj : (n.fingerTable 0).peer = R.peer j)
    (harc : k = n.successor ∨ Between R.size (R.id i) k n.successor) :
    R.IsSucc k j := by
  rw [successor_of_peer hj] at harc
  exact R.isSucc_of_isNext hnext hk harc

/-- A lookup is answered with the node responsible for the key, or passed on. -/
theorem lookup_answer (hown : R.Owns i n) (hlive : R.Live n)
    (hnext : R.PointsNext i n) (hk : k < R.size) (ip : String)
    (port index : Int) :
    ∃ p, n.handleFindSuccessor ip port index k = .directSend p ∧
      ((IsReply (ip, port) index p ∧ ∃ s, R.IsSucc k s ∧ p.keyPeer = R.peer s) ∨
       (IsForward (ip, port) index k p ∧ ∃ j, p.dest = R.addr j)) := by
  obtain ⟨p, hp, hcase⟩ := lookup_cases hown hlive hk ip port index
  refine ⟨p, hp, ?_⟩
  rcases hcase with ⟨hrep, hid, hkey⟩ | ⟨hrep, _, harc, hkey⟩ |
    ⟨hfwd, _, j, hdest, _⟩
  · refine Or.inl ⟨hrep, i, ?_, hkey⟩
    rw [← hid, hown.id]
    exact R.isSucc_id i
  · obtain ⟨j, hj, hfj⟩ := hnext
    exact Or.inl ⟨hrep, j, isSucc_of_arc hj hk hfj harc, hkey.trans hfj⟩
  · exact Or.inr ⟨hfwd, j, hdest⟩

/-- A message goes to the node responsible for its key marked `is_dest`, or to
some node unmarked. -/
theorem mail_answer (hown : R.Owns i n) (hlive : R.Live n)
    (hnext : R.PointsNext i n) (x : DAENode.ExternalMsg)
    (hk : x.destId < R.size) :
    ∃ p, n.handleExternalMessaging x = .safeSend p ∧ Carries x p ∧
      ((p.header.isDest = true ∧ ∃ s, R.IsSucc x.destId s ∧ p.dest = R.addr s) ∨
       (p.header.isDest = false ∧ ∃ j, p.dest = R.addr j)) := by
  obtain ⟨p, hp, hcar, hcase⟩ := mail_cases hown hlive x hk
  refine ⟨p, hp, hcar, ?_⟩
  rcases hcase with ⟨hd, hid, hdest⟩ | ⟨hd, _, harc, hdest⟩ |
    ⟨hd, _, _, j, hdest, _⟩
  · refine Or.inl ⟨hd, i, ?_, hdest⟩
    rw [← hid, hown.id]
    exact R.isSucc_id i
  · obtain ⟨j, hj, hfj⟩ := hnext
    refine Or.inl ⟨hd, j, isSucc_of_arc hj hk hfj harc, ?_⟩
    rw [hdest]
    exact Prod.ext (congrArg PeerPair.ip hfj) (congrArg PeerPair.port hfj)
  · exact Or.inr ⟨hd, j, hdest⟩

section Static

variable {nodes : ι → DAENode} (howns : ∀ i, R.Owns i (nodes i))
  (hlive : ∀ i, R.Live (nodes i)) (hnext : ∀ i, R.PointsNext i (nodes i))

include howns hlive hnext

/-- A lookup's packets: forwards, then one reply to the requester. -/
theorem lookup_trace_end (hk : k < R.size) {ip : String} {port index : Int}
    {t : Nat} {e : Effect} {ps : List AnonymousPacket}
    (htr : Trace R (fun _ => nodes) t e ps) :
    ∀ {i : ι}, e = (nodes i).handleFindSuccessor ip port index k →
      ∃ qs p, ps = qs ++ [p] ∧
        (∀ q ∈ qs, q.header.id = .internalJoinFindSuccessor) ∧
        IsReply (ip, port) index p ∧ ∃ s, R.IsSucc k s ∧ p.keyPeer = R.peer s := by
  induction htr with
  | @done t e p he h =>
      rintro i rfl
      obtain ⟨p', hp', hanswer⟩ := lookup_answer (howns i) (hlive i) (hnext i) hk
        ip port index
      have hpp : p' = p := by
        rw [hp'] at he
        injection he
      subst hpp
      rcases hanswer with hrep | ⟨hfwd, _⟩
      · exact ⟨[], p', rfl, by simp, hrep⟩
      · rw [hfwd.onTheWay] at h
        cases h
  | @hop t e e' p j ps he h hdest hrecv _ ih =>
      rintro i rfl
      obtain ⟨p', hp', hanswer⟩ := lookup_answer (howns i) (hlive i) (hnext i) hk
        ip port index
      have hpp : p' = p := by
        rw [hp'] at he
        injection he
      subst hpp
      rcases hanswer with ⟨hrep, _⟩ | ⟨hfwd, _⟩
      · rw [hrep.not_onTheWay] at h
        cases h
      · rw [receive_forward hfwd] at hrecv
        obtain ⟨qs, p, hps, hqs, hend⟩ := ih (i := j) (by simpa using hrecv.symm)
        refine ⟨p' :: qs, p, by rw [hps]; rfl, ?_, hend⟩
        intro q hq
        rcases List.mem_cons.mp hq with rfl | hq
        · exact hfwd.id
        · exact hqs q hq

/-- A message's packets: unmarked ones, then one marked `is_dest`, at the node
responsible for the key, and all of them carrying the message. -/
theorem mail_trace_end {x : DAENode.ExternalMsg} (hk : x.destId < R.size)
    (hx : DeaddropKind x) {t : Nat} {e : Effect} {ps : List AnonymousPacket}
    (htr : Trace R (fun _ => nodes) t e ps) :
    ∀ {i : ι} {y : DAENode.ExternalMsg},
      e = (nodes i).handleExternalMessaging y → y.msgType = x.msgType →
      y.destId = x.destId → (∀ q, Carries y q → Carries x q) →
      ∃ qs p, ps = qs ++ [p] ∧ (∀ q ∈ qs, q.header.isDest = false) ∧
        p.header.isDest = true ∧ Carries x p ∧
        ∃ s, R.IsSucc x.destId s ∧ p.dest = R.addr s := by
  induction htr with
  | @done t e p he h =>
      rintro i y rfl hty hdy hcarry
      have hdk : DeaddropKind y := by rw [DeaddropKind, hty]; exact hx
      obtain ⟨p', hp', hcar, hanswer⟩ := mail_answer (howns i) (hlive i) (hnext i) y
        (hdy ▸ hk)
      have hpp : p' = p := by
        rw [hp'] at he
        injection he
      subst hpp
      rcases hanswer with ⟨hd, s, hs, hdest⟩ | ⟨hd, _⟩
      · exact ⟨[], p', rfl, by simp, hd, hcarry p' hcar, s, hdy ▸ hs, hdest⟩
      · rw [hcar.onTheWay hdk, hd] at h
        cases h
  | @hop t e e' p j ps he h hdest hrecv _ ih =>
      rintro i y rfl hty hdy hcarry
      have hdk : DeaddropKind y := by rw [DeaddropKind, hty]; exact hx
      obtain ⟨p', hp', hcar, hanswer⟩ := mail_answer (howns i) (hlive i) (hnext i) y
        (hdy ▸ hk)
      have hpp : p' = p := by
        rw [hp'] at he
        injection he
      subst hpp
      rcases hanswer with ⟨hd, _⟩ | ⟨hd, _⟩
      · rw [hcar.onTheWay hdk, hd] at h
        cases h
      · rw [receive_passOn hcar hdk hd] at hrecv
        obtain ⟨qs, p, hps, hqs, hend⟩ := ih (i := j)
          (y := DAENode.passOn p') (by simpa using hrecv.symm)
          (hcar.id.trans hty) (hcar.key.trans hdy)
          (fun q hq => hcarry q (hcar.passOn hq))
        refine ⟨p' :: qs, p, by rw [hps]; rfl, ?_, hend⟩
        intro q hq
        rcases List.mem_cons.mp hq with rfl | hq
        · exact hd
        · exact hqs q hq

end Static

/-- Rendezvous. Over correct successors and otherwise arbitrary tables, every
dead-drop message and every lookup ends, from every starting node, at the one
node responsible for the key. -/
theorem rendezvous {nodes : ι → DAENode} (howns : ∀ i, R.Owns i (nodes i))
    (hlive : ∀ i, R.Live (nodes i)) (hnext : ∀ i, R.PointsNext i (nodes i))
    (hk : k < R.size) (i : ι) :
    ∃ s, R.IsSucc k s ∧ (∀ s', R.IsSucc k s' → s' = s) ∧
      (∀ (j : ι) (x : DAENode.ExternalMsg), x.destId = k → DeaddropKind x →
        (∃ ps, Trace R (fun _ => nodes) 0
          ((nodes j).handleExternalMessaging x) ps) ∧
        ∀ ps, Trace R (fun _ => nodes) 0
            ((nodes j).handleExternalMessaging x) ps →
          ∃ qs p, ps = qs ++ [p] ∧ (∀ q ∈ qs, q.header.isDest = false) ∧
            p.header.isDest = true ∧ p.dest = R.addr s ∧ Carries x p) ∧
      (∀ (j : ι) (ip : String) (port index : Int),
        (∃ ps, Trace R (fun _ => nodes) 0
          ((nodes j).handleFindSuccessor ip port index k) ps) ∧
        ∀ ps, Trace R (fun _ => nodes) 0
            ((nodes j).handleFindSuccessor ip port index k) ps →
          ∃ qs p, ps = qs ++ [p] ∧
            (∀ q ∈ qs, q.header.id = .internalJoinFindSuccessor) ∧
            p.header.id = .internalReplyFindSuccessor ∧ p.dest = (ip, port) ∧
            p.header.index = index ∧ p.keyPeer = R.peer s) := by
  have hlookup : ∀ (j : ι) (ip : String) (port index : Int), ∃ ps,
      Trace R (fun _ => nodes) 0
        ((nodes j).handleFindSuccessor ip port index k) ps :=
    fun j ip port index => trace_exists (fun _ => howns) (fun _ => hlive) _ 0 j
      (.lookup ip port index k) (Nat.le_refl _) hk trivial (howns j) (hlive j)
  obtain ⟨ps, hps⟩ := hlookup i "" 0 0
  obtain ⟨_, _, _, _, _, s, hs, _⟩ :=
    lookup_trace_end howns hlive hnext hk hps rfl
  have huniq : ∀ s', R.IsSucc k s' → s' = s :=
    fun s' hs' => R.isSucc_unique hk hs' hs
  refine ⟨s, hs, huniq, ?_, ?_⟩
  · rintro j x rfl hx
    refine ⟨trace_exists (fun _ => howns) (fun _ => hlive) _ 0 j (.mail x)
      (Nat.le_refl _) hk hx (howns j) (hlive j), fun ps hps => ?_⟩
    obtain ⟨qs, p, hsplit, hqs, hd, hcar, s', hs', hdest⟩ :=
      mail_trace_end howns hlive hnext hk hx hps rfl rfl rfl (fun _ h => h)
    exact ⟨qs, p, hsplit, hqs, hd, huniq s' hs' ▸ hdest, hcar⟩
  · intro j ip port index
    refine ⟨hlookup j ip port index, fun ps hps => ?_⟩
    obtain ⟨qs, p, hsplit, hqs, hrep, s', hs', hkey⟩ :=
      lookup_trace_end howns hlive hnext hk hps rfl
    exact ⟨qs, p, hsplit, hqs, hrep.id, hrep.dest, hrep.index,
      huniq s' hs' ▸ hkey⟩

theorem rendezvous_pair :
    ∃ s, pairRoster.IsSucc 1 s ∧ ∀ s', pairRoster.IsSucc 1 s' → s' = s := by
  obtain ⟨s, hs, huniq, _⟩ := rendezvous pairNodes_owns pairNodes_live
    pairNodes_pointsNext (k := 1) (by decide) 0
  exact ⟨s, hs, huniq⟩

end Daenet.Proofs
