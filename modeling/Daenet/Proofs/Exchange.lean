import Daenet.Proofs.DeadDrop
import Daenet.Proofs.Maintenance
import Daenet.Proofs.Pool
import Daenet.Proofs.Swaps
import Mathlib.Algebra.BigOperators.Group.Finset.Basic
import Mathlib.Algebra.Order.Group.Multiset

/-!
# The exchange, end to end

Every step of the system — a `send`, a batch of a pool, a datagram handed to a
node — is a move of the session's view, and so the invariant of the view holds
in every state reached. What this takes is conservation: a packet handed to the
pool is in the pool or on the wire, never both and never gone.

The pool does drop packets: one whose address is neither a finger's nor the
node's own is logged and lost. No packet of the session is, because the router
only ever addresses fingers or the node itself; packets of other sessions are
not promised this much, since nothing is known about their keys.
-/

namespace Daenet.Proofs

open Daenet.Lib Daenet.Ref Daenet.Spec

variable {ι : Type} {R : Roster ι} {S : Session ι}

/-! ## Sending through the pool -/

/-- The node's own address or a finger's. -/
def Reaches (r : Relay) (p : AnonymousPacket) : Prop :=
  p.dest = r.addr ∨ ∃ t < r.node.m, p.dest = (r.node.fingerTable t).addr

/-- What a relay leaves behind when it is given the packets `ps`: nothing of it
has changed but the pool, and of the session's packets none is lost. -/
structure Ships (S : Session ι) (r : Relay) (a : Relay × List AnonymousPacket)
    (ps : List AnonymousPacket) : Prop where
  node : a.1.node = r.node
  cfg : a.1.cfg = r.cfg
  sockets : a.1.sockets = r.sockets
  slots : a.1.pool.length = r.pool.length
  mem : ∀ q ∈ a.2 ++ held a.1.pool, q ∈ ps ∨ q ∈ held r.pool
  mail : ((a.2 ++ held a.1.pool).filter S.Mail).Perm
    ((ps ++ held r.pool).filter S.Mail)

theorem ships_refl (S : Session ι) (r : Relay) : Ships S r (r, []) [] where
  node := rfl
  cfg := rfl
  sockets := rfl
  slots := rfl
  mem := fun _ hq => Or.inr hq
  mail := List.Perm.refl _

/-- One packet: filed under a finger, sent at once, or dropped. -/
theorem perform_ships {r : Relay} {p : AnonymousPacket}
    (hslots : r.node.m ≤ r.pool.length) (hreach : S.Mail p → Reaches r p) :
    Ships S r (r.perform (.safeSend p)) [p] := by
  have hdirect : Ships S r
      ({ r with counters := r.counters.directSend p }, [p]) [p] :=
    ⟨rfl, rfl, rfl, rfl, fun q hq => List.mem_append.mp hq, List.Perm.refl _⟩
  simp only [Relay.perform]
  split
  · unfold ShufflePool.send
    cases hslot : ShufflePool.slotFor r.node.fingerTable p.dest 0 r.node.m with
    | some j =>
        obtain ⟨_, hj, _⟩ := slotFor_some hslot
        have hperm := held_push (p := p) (show j < r.pool.length by omega)
        refine ⟨rfl, rfl, rfl, List.length_modify .., ?_, hperm.filter _⟩
        intro q hq
        rcases List.mem_cons.mp (hperm.subset hq) with rfl | hq
        · exact Or.inl (by simp)
        · exact Or.inr hq
    | none =>
        by_cases hown : p.dest = (r.cfg.relayIp, r.cfg.relayPort)
        · simp only [if_pos hown]
          exact hdirect
        · simp only [if_neg hown]
          -- Dropped, so it reaches nobody and is not the session's.
          have hno : ¬ S.Mail p := by
            intro hmail
            rcases hreach hmail with hself | ⟨t, ht, hfinger⟩
            · exact hown hself
            · exact slotFor_ne_none (Nat.zero_le t) (by omega) hfinger hslot
          refine ⟨rfl, rfl, rfl, rfl, fun q hq => Or.inr hq, ?_⟩
          simp [hno]
  · exact hdirect

theorem Ships.trans {r : Relay} {a b : Relay × List AnonymousPacket}
    {ps qs : List AnonymousPacket} (ha : Ships S r a ps) (hb : Ships S a.1 b qs) :
    Ships S r (b.1, a.2 ++ b.2) (ps ++ qs) := by
  refine ⟨hb.node.trans ha.node, hb.cfg.trans ha.cfg, hb.sockets.trans ha.sockets,
    hb.slots.trans ha.slots, ?_, ?_⟩
  · intro q hq
    rw [List.append_assoc] at hq
    rcases List.mem_append.mp hq with hq | hq
    · exact (ha.mem q (by simp [hq])).imp (fun h => by simp [h]) id
    · rcases hb.mem q hq with hq | hq
      · exact Or.inl (by simp [hq])
      · exact (ha.mem q (by simp [hq])).imp (fun h => by simp [h]) id
  · have hmail := hb.mail
    have hmail' := ha.mail
    simp only [List.filter_append, List.append_assoc] at hmail hmail' ⊢
    calc a.2.filter S.Mail ++ (b.2.filter S.Mail ++ (held b.1.pool).filter S.Mail)
        _ |>.Perm (a.2.filter S.Mail ++
            (qs.filter S.Mail ++ (held a.1.pool).filter S.Mail)) :=
              hmail.append_left _
        _ |>.Perm (qs.filter S.Mail ++
            (a.2.filter S.Mail ++ (held a.1.pool).filter S.Mail)) :=
              List.perm_append_comm_assoc ..
        _ |>.Perm (qs.filter S.Mail ++
            (ps.filter S.Mail ++ (held r.pool).filter S.Mail)) :=
              hmail'.append_left _
        _ |>.Perm (ps.filter S.Mail ++
            (qs.filter S.Mail ++ (held r.pool).filter S.Mail)) :=
              List.perm_append_comm_assoc ..

/-- Packets one after the other. -/
theorem performAll_ships {ps : List AnonymousPacket} {r : Relay}
    (hslots : r.node.m ≤ r.pool.length) (hreach : ∀ p ∈ ps, S.Mail p → Reaches r p) :
    Ships S r (r.performAll (ps.map .safeSend)) ps := by
  induction ps generalizing r with
  | nil => exact ships_refl S r
  | cons p ps ih =>
      have hhead := perform_ships hslots (hreach p (by simp))
      have hrest : Ships S (r.perform (.safeSend p)).1
          ((r.perform (.safeSend p)).1.performAll (ps.map .safeSend)) ps := by
        refine ih ?_ ?_
        · rw [hhead.node, hhead.slots]
          exact hslots
        · intro q hq hmail
          unfold Reaches Relay.addr
          rw [hhead.node, hhead.cfg]
          exact hreach q (by simp [hq]) hmail
      exact hhead.trans hrest

/-- A batch gives out what the pool held, and dummies. -/
theorem sendBatch_ships (S : Session ι) (r : Relay) (accept : Nat → Bool)
    (draws : Nat → ShufflePool.Draw) (due : Bool) :
    ∃ ds : List AnonymousPacket, (∀ d ∈ ds, ∃ f, d = ShufflePool.dummy f) ∧
      Ships S r (r.sendBatch accept draws due) ds := by
  unfold Relay.sendBatch
  split
  · obtain ⟨hlen, ds, released, hds, hout, hheld⟩ := sendBatch_split r.pool
      r.node.fingerTable accept draws r.cfg.sendDummy r.cfg.debugShuffle due
      r.counters
    refine ⟨ds, fun d hd => (hds d hd).2, ?_⟩
    have hperm := (hout.append_right _).trans
      ((List.append_assoc ds released _ ▸ hheld.symm.append_left ds))
    exact ⟨rfl, rfl, rfl, hlen, fun q hq => List.mem_append.mp (hperm.subset hq),
      hperm.filter _⟩
  · exact ⟨[], fun d hd => (by cases hd), ships_refl S r⟩

/-! ## The view of a state -/

section Transit

variable [Fintype ι]

/-- Everything under way: on the wire or in a pool. -/
def transit (s : System ι) : Multiset AnonymousPacket :=
  (s.net : Multiset AnonymousPacket) +
    ∑ i, (held (s.relays i).pool : Multiset AnonymousPacket)

/-- What a session can be seen in. -/
def view (S : Session ι) (s : System ι) : View ι where
  mail := (transit s).filter S.Mail
  table i seq := (s.nodes i).recvListDeaddrop (S.id, seq)
  box i := (s.nodes i).recvListUser.filter S.Mail

theorem mem_transit {s : System ι} {p : AnonymousPacket} :
    p ∈ transit s ↔ p ∈ s.net ∨ ∃ i, p ∈ held (s.relays i).pool := by
  simp [transit, Multiset.mem_sum]

theorem transit_erase {s : System ι} {k : Nat} {p : AnonymousPacket}
    (hk : s.net[k]? = some p) :
    transit s = p ::ₘ transit { s with net := s.net.eraseIdx k } := by
  obtain ⟨hlt, rfl⟩ := List.getElem?_eq_some_iff.mp hk
  have hnet : (s.net : Multiset AnonymousPacket) =
      s.net[k] ::ₘ (s.net.eraseIdx k : Multiset AnonymousPacket) :=
    Multiset.coe_eq_coe.mpr (List.getElem_cons_eraseIdx_perm hlt).symm
  unfold transit
  rw [hnet, Multiset.cons_add]

variable [DecidableEq ι]

/-- The pools together, after one of them has changed. -/
theorem sum_update (relays : ι → Relay) (i : ι) (r : Relay) :
    (∑ j, (held (Function.update relays i r j).pool : Multiset AnonymousPacket)) +
        held (relays i).pool =
      (∑ j, (held (relays j).pool : Multiset AnonymousPacket)) + held r.pool := by
  have hleft := Finset.add_sum_erase Finset.univ (fun j =>
    (held (Function.update relays i r j).pool : Multiset AnonymousPacket))
    (Finset.mem_univ i)
  have hright := Finset.add_sum_erase Finset.univ (fun j =>
    (held (relays j).pool : Multiset AnonymousPacket)) (Finset.mem_univ i)
  have hrest : ∑ j ∈ Finset.univ.erase i,
      (held (Function.update relays i r j).pool : Multiset AnonymousPacket) =
        ∑ j ∈ Finset.univ.erase i, (held (relays j).pool : Multiset _) := by
    refine Finset.sum_congr rfl ?_
    intro j hj
    rw [Function.update_of_ne (Finset.ne_of_mem_erase hj)]
  rw [← hleft, ← hright, hrest]
  simp only [Function.update_self]
  ac_rfl

/-- The view after a relay has been given packets. -/
theorem view_move {s : System ι} (net : List AnonymousPacket) {i : ι} {r : Relay}
    {a : Relay × List AnonymousPacket} {ps : List AnonymousPacket}
    (hships : Ships S r a ps) (hpool : r.pool = (s.relays i).pool) :
    view S (System.move { s with net := net } i a) =
      { mail := (ps.filter S.Mail : Multiset AnonymousPacket) +
          (transit { s with net := net }).filter S.Mail
        table := Function.update (view S s).table i
          fun seq => r.node.recvListDeaddrop (S.id, seq)
        box := Function.update (view S s).box i (r.node.recvListUser.filter S.Mail) } := by
  have hnode : ∀ j, (System.move { s with net := net } i a).nodes j =
      if j = i then r.node else s.nodes j := by
    intro j
    show (Function.update s.relays i a.1 j).node = _
    by_cases hj : j = i
    · subst hj
      rw [if_pos rfl, Function.update_self, hships.node]
    · rw [if_neg hj, Function.update_of_ne hj]
      rfl
  refine View.ext ?_ ?_ ?_
  · have htransit : transit (System.move { s with net := net } i a) +
        held r.pool = ↑(a.2 ++ held a.1.pool) + transit { s with net := net } := by
      have hsum := sum_update s.relays i a.1
      rw [hpool]
      simp only [transit, System.move, ← Multiset.coe_add] at hsum ⊢
      rw [add_assoc, hsum]
      ac_rfl
    have hmail : ((a.2 ++ held a.1.pool : List _) : Multiset AnonymousPacket).filter
        S.Mail = ((ps ++ held r.pool : List _) : Multiset AnonymousPacket).filter
          S.Mail := Multiset.coe_eq_coe.mpr hships.mail
    have hfilter := congrArg (Multiset.filter S.Mail) htransit
    rw [Multiset.filter_add, Multiset.filter_add, hmail, ← Multiset.coe_add,
      Multiset.filter_add] at hfilter
    refine add_right_cancel (b := Multiset.filter S.Mail (held r.pool : Multiset _)) ?_
    show Multiset.filter S.Mail (transit _) + _ = (↑(ps.filter S.Mail) +
      Multiset.filter S.Mail (transit _)) + _
    rw [hfilter, Multiset.filter_coe]
    ac_rfl
  · funext j
    simp only [view, hnode]
    by_cases hj : j = i
    · subst hj
      rw [Function.update_self]
      funext seq
      rw [if_pos rfl]
    · rw [Function.update_of_ne hj]
      funext seq
      rw [if_neg hj]
  · funext j
    simp only [view, hnode]
    by_cases hj : j = i
    · subst hj
      rw [Function.update_self, if_pos rfl]
    · rw [Function.update_of_ne hj, if_neg hj]

/-- Packets of other sessions do not show. -/
theorem view_move_same {s : System ι} (net : List AnonymousPacket) {i : ι}
    {r : Relay} {a : Relay × List AnonymousPacket} {ps : List AnonymousPacket}
    (hships : Ships S r a ps) (hpool : r.pool = (s.relays i).pool)
    (hps : ps.filter S.Mail = [])
    (hnet : (transit { s with net := net }).filter S.Mail =
      (transit s).filter S.Mail)
    (htable : ∀ seq, r.node.recvListDeaddrop (S.id, seq) =
      (s.nodes i).recvListDeaddrop (S.id, seq))
    (hbox : r.node.recvListUser.filter S.Mail =
      (s.nodes i).recvListUser.filter S.Mail) :
    view S (System.move { s with net := net } i a) = view S s := by
  have hentry : (fun seq => r.node.recvListDeaddrop (S.id, seq)) =
      (view S s).table i := funext htable
  have hqueue : r.node.recvListUser.filter S.Mail = (view S s).box i := hbox
  rw [view_move net hships hpool, hps, hnet, hentry, hqueue, Function.update_eq_self,
    Function.update_eq_self]
  exact View.ext (zero_add _) rfl rfl

end Transit

/-! ## Receiving and routing -/

/-- A relay of the ring with its tables as they should be. -/
structure Fit (R : Roster ι) (i : ι) (r : Relay) : Prop where
  cfg : r.cfg = R.cfg i
  owns : R.Owns i r.node
  live : R.Live r.node
  next : R.PointsNext i r.node
  slots : r.pool.length = R.m

theorem Fit.addr {i : ι} {r : Relay} (h : Fit R i r) : r.addr = R.addr i := by
  rw [Relay.addr, h.cfg]
  rfl

/-- No reception touches the tables. -/
theorem Receipt.fit {i : ι} {r : Relay} {p : AnonymousPacket}
    {a : DAENode × List DAENode.ExternalMsg} (ha : Receipt r.node p a)
    (h : Fit R i r) : Fit R i { r with node := a.1 } := by
  have hsame : ∀ n : DAENode, n.m = r.node.m → n.id = r.node.id →
      n.nodeIp = r.node.nodeIp → n.port = r.node.port →
      n.fingerTable = r.node.fingerTable → Fit R i { r with node := n } := by
    intro n hm hid hip hport htable
    refine ⟨h.cfg, ⟨hm.trans h.owns.m, hid.trans h.owns.id, hip.trans h.owns.ip,
      hport.trans h.owns.port⟩, ?_, ?_, h.slots⟩
    · show R.Live n
      unfold Roster.Live
      rw [htable]
      exact h.live
    · show R.PointsNext i n
      unfold Roster.PointsNext
      rw [htable]
      exact h.next
  cases ha with
  | ignored _ _ => exact h
  | passed _ => exact h
  | dropped _ _ =>
      cases htable : r.node.recvListDeaddrop (dropKey p) with
      | none =>
          rw [handleDeaddrop_first htable]
          exact hsame _ rfl rfl rfl rfl rfl
      | some q =>
          rw [handleDeaddrop_second htable]
          exact hsame _ rfl rfl rfl rfl rfl
  | taken _ _ => exact hsame _ rfl rfl rfl rfl rfl

/-- Routing makes one packet of every message, addressed within reach and, for
a key on the ring, rightly marked. -/
theorem Fit.route {i : ι} {r : Relay} (h : Fit R i r) (x : DAENode.ExternalMsg) :
    ∃ p, r.node.handleExternalMessaging x = .safeSend p ∧ Carries x p ∧
      (x.destId < R.size → Reaches r p ∧ Flies R x p) := by
  by_cases hk : x.destId < R.size
  · obtain ⟨p, hp, hcar, hcase⟩ := mail_cases h.owns h.live x hk
    obtain ⟨q, hq, _, haim⟩ := mail_answer h.owns h.live h.next x hk
    obtain rfl : p = q := by
      rw [hp] at hq
      injection hq
    refine ⟨p, hp, hcar, fun _ => ⟨?_, hcar, ?_⟩⟩
    · unfold Reaches
      rw [h.addr, h.owns.m]
      rcases hcase with ⟨_, _, hdest⟩ | ⟨_, _, _, hdest⟩ | ⟨_, _, hfinger, _⟩
      · exact Or.inl hdest
      · exact Or.inr ⟨0, R.bits_pos, hdest⟩
      · exact Or.inr hfinger
    · intro hd
      rcases haim with ⟨_, haim⟩ | ⟨hno, _⟩
      · exact haim
      · rw [hd] at hno
        cases hno
  · have hcar : ∀ (isDest : Bool) (id : Nat) (ip : String) (port : Int),
        Carries x (.external x.msgType r.node.nodeIp r.node.id ip id port ip
          x.clientKey port ip x.destId port x.seq false x.ctPackage x.size isDest
          x.session) :=
      fun _ _ _ _ => ⟨rfl, rfl, rfl, rfl, rfl, rfl, rfl, rfl⟩
    unfold DAENode.handleExternalMessaging
    split_ifs <;> exact ⟨_, rfl, hcar _ _ _ _, fun hlt => absurd hlt hk⟩

theorem Carries.mail_iff {x : DAENode.ExternalMsg} {p : AnonymousPacket}
    (h : Carries x p) : S.Mail p ↔ x.session = S.id ∧ DeaddropKind x := by
  unfold Session.Mail DeaddropKind
  rw [h.session, h.id]

/-- Messages routed one after the other, and the packets they become. -/
theorem Fit.route_all {i : ι} {r : Relay} (h : Fit R i r)
    (xs : List DAENode.ExternalMsg)
    (hkeys : ∀ x ∈ xs, x.session = S.id → DeaddropKind x → x.destId < R.size) :
    ∃ f : DAENode.ExternalMsg → AnonymousPacket,
      (∀ x, Carries x (f x) ∧ (x.destId < R.size → Flies R x (f x))) ∧
      Ships S r (r.performAll (xs.map r.node.handleExternalMessaging)) (xs.map f) := by
  choose f hf using h.route
  have hmap : xs.map r.node.handleExternalMessaging = (xs.map f).map .safeSend := by
    rw [List.map_map]
    exact List.map_congr_left fun x _ => (hf x).1
  refine ⟨f, fun x => ⟨(hf x).2.1, fun hk => ((hf x).2.2 hk).2⟩, ?_⟩
  rw [hmap]
  refine performAll_ships (by rw [h.owns.m, h.slots]) ?_
  intro p hp hmail
  obtain ⟨x, hx, rfl⟩ := List.mem_map.mp hp
  obtain ⟨hses, hkind⟩ := (hf x).2.1.mail_iff.mp hmail
  exact ((hf x).2.2 (hkeys x hx hses hkind)).1

/-- A packet of another session leaves nothing in this one's view. -/
theorem Receipt.foreign {n : DAENode} {p : AnonymousPacket}
    {a : DAENode × List DAENode.ExternalMsg} (h : Receipt n p a) (hp : ¬ S.Mail p) :
    (∀ x ∈ a.2, ¬ (x.session = S.id ∧ DeaddropKind x)) ∧
      (∀ seq, a.1.recvListDeaddrop (S.id, seq) = n.recvListDeaddrop (S.id, seq)) ∧
      a.1.recvListUser.filter S.Mail = n.recvListUser.filter S.Mail := by
  cases h with
  | ignored _ _ => exact ⟨fun x hx => (by cases hx), fun _ => rfl, rfl⟩
  | passed _ =>
      refine ⟨?_, fun _ => rfl, rfl⟩
      intro x hx
      rw [List.mem_singleton.mp hx]
      exact hp
  | dropped hid hd =>
      have hses : p.header.sessionId ≠ S.id := fun he => hp ⟨he, Or.inl hid⟩
      have htable := fun seq => handleDeaddrop_table n p (S.id, seq)
      have hother : ∀ seq, dropKey p ≠ (S.id, seq) :=
        fun seq he => hses (congrArg Prod.fst he)
      cases hentry : n.recvListDeaddrop (dropKey p) with
      | none =>
          refine ⟨?_, fun seq => (htable seq).trans (if_neg (hother seq)), ?_⟩
          · rw [handleDeaddrop_first hentry]
            exact fun x hx => (by cases hx)
          · rw [handleDeaddrop_first hentry]
      | some q =>
          refine ⟨?_, fun seq => (htable seq).trans (if_neg (hother seq)), ?_⟩
          · rw [handleDeaddrop_second hentry]
            intro x hx hmail
            have hsession : x.session = p.header.sessionId := by
              rcases List.mem_cons.mp hx with rfl | hx
              · rfl
              · rw [List.mem_singleton.mp hx]
                rfl
            exact hses (hsession.symm.trans hmail.1)
          · rw [handleDeaddrop_second hentry]
  | taken hid hd =>
      refine ⟨fun x hx => (by cases hx), fun _ => rfl, ?_⟩
      simp [hp]

/-- Whatever the session routes has a key on the ring. -/
theorem Letters.keys {w : Payloads} {v : View ι} {n : DAENode} {p : AnonymousPacket}
    (h : Letters R S w v) (hp : p ∈ v.mail) (hmail : S.Mail p) {i : ι}
    (htable : ∀ seq, v.table i seq = n.recvListDeaddrop (S.id, seq))
    {a : DAENode × List DAENode.ExternalMsg} (ha : Receipt n p a) :
    ∀ x ∈ a.2, x.destId < R.size := by
  cases ha with
  | ignored _ _ => exact fun x hx => (by cases hx)
  | passed _ =>
      intro x hx
      rw [List.mem_singleton.mp hx]
      show p.header.keyId < R.size
      obtain ⟨_, y, k, hask | hbring⟩ := h.mail p hp
      · rw [hask.key]
        exact S.drop_lt R k
      · rw [hbring.key]
        exact R.id_lt_size _
  | dropped hid hd =>
      obtain ⟨y, k, hask⟩ := h.asks hp hid
      cases hentry : n.recvListDeaddrop (dropKey p) with
      | none =>
          rw [handleDeaddrop_first hentry]
          exact fun x hx => (by cases hx)
      | some q =>
          rw [handleDeaddrop_second hentry]
          have hq : v.table i p.header.index = some q := by
            rw [htable, ← hmail.1]
            exact hentry
          obtain ⟨z, _, _, hwait⟩ := h.table i _ q hq
          intro x hx
          rcases List.mem_cons.mp hx with rfl | hx
          · show p.header.relayReplyId < R.size
            rw [hask.client]
            exact R.id_lt_size _
          · rw [List.mem_singleton.mp hx]
            show q.header.relayReplyId < R.size
            rw [hwait.client]
            exact R.id_lt_size _
  | taken _ _ => exact fun x hx => (by cases hx)

/-- A table write, as the session sees it. -/
theorem session_update (t : Int × Int → Option AnonymousPacket) (σ seq : Int)
    (e : Option AnonymousPacket) :
    (fun a => Function.update t (σ, seq) e (σ, a)) =
      Function.update (fun a => t (σ, a)) seq e := by
  funext a
  by_cases ha : a = seq
  · subst ha
    rw [Function.update_self, Function.update_self]
  · rw [Function.update_of_ne ha, Function.update_of_ne]
    exact fun he => ha (congrArg Prod.snd he)

/-! ## The invariant of the system -/

/-- The actions of an exchange; a payload fits a datagram behind the header. -/
def Exchanges : Act ι → Prop
  | .send _ _ buf => buf.length ≤ maxMtu - sizeofHeader
  | .sendBatch _ _ _ _ => True
  | .deliver _ _ => True
  | _ => False

/-- The system under the session's view. -/
structure Ground (R : Roster ι) (S : Session ι) (w : Payloads) (s : System ι) :
    Prop where
  fit : ∀ i, Fit R i (s.relays i)
  net : ∀ p ∈ s.net, Harmless p
  pools : ∀ i, ∀ p ∈ held (s.relays i).pool, Harmless p
  own : ∀ x, (s.relays (S.node x)).sockets[S.sock x]? =
    some (S.socket R x (w x).length)
  others : ∀ i j t, (s.relays i).sockets[j]? = some t → t.sessionId = S.id →
    ∃ x, i = S.node x ∧ j = S.sock x

section Step

variable [DecidableEq ι]

/-- A relay that has been given packets, with its sockets as `w'` says. -/
theorem ground_move {w w' : Payloads} {s : System ι} (net : List AnonymousPacket)
    {i : ι} {r : Relay} {a : Relay × List AnonymousPacket}
    {ps : List AnonymousPacket} (hs : Ground R S w s) (hships : Ships S r a ps)
    (hfit : Fit R i r) (hpool : r.pool = (s.relays i).pool)
    (hnet : ∀ p ∈ net, p ∈ s.net) (hps : ∀ p ∈ ps, Harmless p)
    (hown : ∀ x, S.node x = i →
      r.sockets[S.sock x]? = some (S.socket R x (w' x).length))
    (hsame : ∀ x, S.node x ≠ i → w' x = w x)
    (hothers : ∀ j t, r.sockets[j]? = some t → t.sessionId = S.id →
      ∃ x, i = S.node x ∧ j = S.sock x) :
    Ground R S w' (System.move { s with net := net } i a) := by
  have hself : (System.move { s with net := net } i a).relays i = a.1 :=
    Function.update_self ..
  have hother : ∀ j, j ≠ i →
      (System.move { s with net := net } i a).relays j = s.relays j :=
    fun j hj => Function.update_of_ne hj ..
  have hgiven : ∀ p ∈ a.2 ++ held a.1.pool, Harmless p := by
    intro p hp
    rcases hships.mem p hp with hp | hp
    · exact hps p hp
    · rw [hpool] at hp
      exact hs.pools i p hp
  refine ⟨?_, ?_, ?_, ?_, ?_⟩
  · intro j
    by_cases hj : j = i
    · subst hj
      rw [hself]
      exact ⟨hships.cfg.trans hfit.cfg, hships.node ▸ hfit.owns,
        hships.node ▸ hfit.live, hships.node ▸ hfit.next,
        hships.slots.trans hfit.slots⟩
    · rw [hother j hj]
      exact hs.fit j
  · intro p hp
    rcases List.mem_append.mp hp with hp | hp
    · exact hs.net p (hnet p hp)
    · exact hgiven p (by simp [hp])
  · intro j p hp
    by_cases hj : j = i
    · subst hj
      rw [hself] at hp
      exact hgiven p (by simp [hp])
    · rw [hother j hj] at hp
      exact hs.pools j p hp
  · intro x
    by_cases hx : S.node x = i
    · rw [hx, hself, hships.sockets]
      exact hown x hx
    · rw [hother _ hx, hsame x hx]
      exact hs.own x
  · intro j l t ht
    by_cases hj : j = i
    · subst hj
      rw [hself, hships.sockets] at ht
      exact hothers l t ht
    · rw [hother j hj] at ht
      exact hs.others j l t ht

/-! ## Every step is a move -/

variable {home : Nat → ι} {w : Payloads} {s : System ι} {i : ι}

/-- What a received packet of the session does to the view. -/
theorem Receipt.moves {v : View ι} {n : DAENode} {p : AnonymousPacket}
    {a : DAENode × List DAENode.ExternalMsg} (ha : Receipt n p a) (hmail : S.Mail p)
    (hdest : p.dest = R.addr i) {rest : Multiset AnonymousPacket}
    (hlist : v.mail = p ::ₘ rest)
    (htable : (fun seq => n.recvListDeaddrop (S.id, seq)) = v.table i)
    (hbox : n.recvListUser.filter S.Mail = v.box i)
    {f : DAENode.ExternalMsg → AnonymousPacket} (hf : ∀ x ∈ a.2, Flies R x (f x)) :
    Moves R S w v w
      { mail := ((a.2.map f).filter S.Mail : Multiset AnonymousPacket) + rest
        table := Function.update v.table i
          fun seq => a.1.recvListDeaddrop (S.id, seq)
        box := Function.update v.box i (a.1.recvListUser.filter S.Mail) } := by
  have hsent : ∀ x ∈ a.2, x.session = S.id → DeaddropKind x → S.Mail (f x) :=
    fun x hx hses hkind => (hf x hx).carries.mail_iff.mpr ⟨hses, hkind⟩
  cases ha with
  | ignored hdrop hrep => exact absurd hmail.2 (by simp [hdrop, hrep])
  | passed h =>
      have hd : p.header.isDest = false :=
        h.resolve_left fun hno => hmail.2.elim hno.1 hno.2
      have hq := hsent (DAENode.passOn p) (by simp) hmail.1 hmail.2
      rw [htable, hbox, Function.update_eq_self, Function.update_eq_self]
      simp only [List.map_cons, List.map_nil, List.filter_cons, hq, decide_true,
        if_true, List.filter_nil, Multiset.coe_singleton, Multiset.singleton_add]
      exact .hop p _ rest hlist hd (hf _ (by simp))
  | dropped hid hd =>
      have hkey : dropKey p = (S.id, p.header.index) := by
        rw [dropKey, hmail.1]
      have hslot : v.table i p.header.index = n.recvListDeaddrop (dropKey p) := by
        rw [← htable, hkey]
      cases hentry : n.recvListDeaddrop (dropKey p) with
      | none =>
          rw [handleDeaddrop_first hentry]
          simp only [hkey, session_update, htable, hbox, Function.update_eq_self,
            List.map_nil, List.filter_nil, Multiset.coe_nil, zero_add]
          exact .wait i p rest hlist hid hd hdest (hslot.trans hentry)
      | some q =>
          rw [handleDeaddrop_second hentry] at hf hsent ⊢
          have hp' := hsent (DAENode.swapReply p q p.header.relayReplyId) (by simp)
            hmail.1 (Or.inr rfl)
          have hq' := hsent (DAENode.swapReply p p q.header.relayReplyId) (by simp)
            hmail.1 (Or.inr rfl)
          simp only [hkey, session_update, htable, hbox, Function.update_eq_self,
            List.map_cons, List.map_nil, List.filter_cons, hp', hq', decide_true,
            if_true, List.filter_nil, ← Multiset.cons_coe, Multiset.coe_nil,
            Multiset.cons_add, zero_add]
          exact .swap i p q _ _ rest hlist hid hd hdest (hslot.trans hentry)
            (hf _ (by simp)) (hf _ (by simp))
  | taken hid hd =>
      simp only [htable, Function.update_eq_self, List.map_nil, List.filter_nil,
        Multiset.coe_nil, zero_add, List.filter_append, hbox, List.filter_cons, hmail,
        decide_true, if_true]
      exact .take i p rest hlist hid hd hdest

/-- What the parties have sent after one more action. -/
def posted (S : Session ι) (w : Payloads) (a : Act ι) : Payloads :=
  fun x => w x ++ (S.sentBy x a).toList

theorem posted_of_not {w : Payloads} {a : Act ι} (h : ∀ x, S.sentBy x a = none) :
    posted S w a = w := by
  funext x
  simp [posted, h x]

theorem posted_send (w : Payloads) (x : Bool) (buf : List UInt8) :
    posted S w (.send (S.node x) (S.sock x) buf) =
      Function.update w x (w x ++ [buf]) := by
  funext y
  by_cases hy : y = x
  · subst hy
    rw [Function.update_self]
    simp [posted, Session.sentBy]
  · have hne : S.node x ≠ S.node y := fun he => hy (S.node_inj he).symm
    rw [Function.update_of_ne hy]
    simp [posted, Session.sentBy, hne]

variable [Fintype ι]

theorem deliver_moves (hs : Ground R S w s)
    (hx : Exchanged R S home w (view S s)) {k : Nat} {p : AnonymousPacket}
    (hk : s.net[k]? = some p) (hdest : p.dest = (s.relays i).addr) :
    Ground R S w (s.step (.deliver i k)) ∧
      Moves R S w (view S s) w (view S (s.step (.deliver i k))) := by
  obtain ⟨⟨n, xs⟩, hrec, hrecv⟩ := receipt (n := s.nodes i)
    (hs.net p (List.mem_of_getElem? hk))
  have hstep : s.step (.deliver i k) =
      System.move { s with net := s.net.eraseIdx k } i
        ({ s.relays i with node := n }.performAll
          (xs.map n.handleExternalMessaging)) := by
    simp only [System.step, System.deliver, hk, if_pos hdest, System.handle,
      Relay.handle]
    rw [show (s.relays i).node.receive p = _ from hrecv]
  have hfit : Fit R i { s.relays i with node := n } := hrec.fit (hs.fit i)
  have htransit := transit_erase hk
  generalize hrest : (transit { s with net := s.net.eraseIdx k }).filter S.Mail = rest
  have hlist : S.Mail p → (view S s).mail = p ::ₘ rest := by
    intro hmail
    show (transit s).filter S.Mail = _
    rw [htransit, Multiset.filter_cons_of_pos _ hmail, hrest]
  have hkeys : ∀ x ∈ xs, x.session = S.id → DeaddropKind x → x.destId < R.size := by
    intro x hxs hses hkind
    by_cases hmail : S.Mail p
    · exact hx.letters.keys (by simp [hlist hmail]) hmail (fun _ => rfl) hrec x hxs
    · exact absurd ⟨hses, hkind⟩ ((hrec.foreign hmail).1 x hxs)
  obtain ⟨f, hf, hships⟩ := hfit.route_all xs hkeys
  have hview := view_move (s := s) (s.net.eraseIdx k) (i := i) hships rfl
  rw [← hstep, hrest] at hview
  refine ⟨?_, ?_⟩
  · rw [hstep]
    refine ground_move _ hs hships hfit rfl (fun q hq => List.mem_of_mem_eraseIdx hq) ?_
      (fun x hi => hi ▸ hs.own x) (fun _ _ => rfl) (hs.others i)
    intro q hq
    obtain ⟨x, _, rfl⟩ := List.mem_map.mp hq
    exact Or.inl (hf x).1.msgType
  · by_cases hmail : S.Mail p
    · rw [hview]
      refine hrec.moves hmail ?_ (hlist hmail) rfl rfl ?_
      · rw [hdest, (hs.fit i).addr]
      · intro x hxs
        exact (hf x).2 (hx.letters.keys (by simp [hlist hmail]) hmail (fun _ => rfl)
          hrec x hxs)
    · obtain ⟨hout, htable, hbox⟩ := hrec.foreign hmail
      have hnone : (xs.map f).filter S.Mail = [] := by
        rw [List.filter_eq_nil_iff]
        intro q hq
        obtain ⟨x, hxs, rfl⟩ := List.mem_map.mp hq
        simpa using fun hm => hout x hxs ((hf x).1.mail_iff.mp hm)
      have hrest' : (transit { s with net := s.net.eraseIdx k }).filter S.Mail =
          (transit s).filter S.Mail := by
        rw [htransit, Multiset.filter_cons_of_neg _ hmail]
      have hsame := view_move_same _ hships rfl hnone hrest' htable hbox
      rw [hstep, hsame]
      exact .rest

theorem sendBatch_moves (hs : Ground R S w s) (accept : Nat → Bool)
    (draws : Nat → ShufflePool.Draw) (due : Bool) :
    Ground R S w (s.step (.sendBatch i accept draws due)) ∧
      Moves R S w (view S s) w (view S (s.step (.sendBatch i accept draws due))) := by
  obtain ⟨ds, hds, hships⟩ := sendBatch_ships S (s.relays i) accept draws due
  have hnone : ds.filter S.Mail = [] := by
    rw [List.filter_eq_nil_iff]
    intro d hd
    obtain ⟨f, rfl⟩ := hds d hd
    simp [Session.Mail, ShufflePool.dummy]
  have hsame : view S (s.step (.sendBatch i accept draws due)) = view S s :=
    view_move_same s.net hships rfl hnone rfl (fun _ => rfl) rfl
  refine ⟨ground_move s.net hs hships (hs.fit i) rfl (fun _ hp => hp) ?_
    (fun x hx => hx ▸ hs.own x) (fun _ _ => rfl) (hs.others i), ?_⟩
  · intro d hd
    obtain ⟨f, rfl⟩ := hds d hd
    exact Or.inr rfl
  · rw [hsame]
    exact .rest

/-- A `send` of one of the two parties. -/
theorem send_moves_own (hs : Ground R S w s) (x : Bool) (buf : List UInt8) :
    Ground R S (Function.update w x (w x ++ [buf]))
        (s.step (.send (S.node x) (S.sock x) buf)) ∧
      Moves R S w (view S s) (Function.update w x (w x ++ [buf]))
        (view S (s.step (.send (S.node x) (S.sock x) buf))) := by
  have hsock := hs.own x
  generalize hr : { s.relays (S.node x) with
    sockets := (s.relays (S.node x)).sockets.set (S.sock x)
      (S.socket R x ((w x).length + 1)) } = r
  have hstep : s.step (.send (S.node x) (S.sock x) buf) =
      System.move { s with net := s.net } (S.node x) (r.performAll
        ([S.request R x (w x).length buf].map r.node.handleExternalMessaging)) := by
    simp only [System.step, Relay.socketSend, hsock, Session.socket_send, Relay.handle,
      ← hr, List.map_cons, List.map_nil]
  have hfit : Fit R (S.node x) r := by
    have hold := hs.fit (S.node x)
    subst hr
    exact ⟨hold.cfg, hold.owns, hold.live, hold.next, hold.slots⟩
  have hkey : (S.request R x (w x).length buf).destId < R.size := S.drop_lt R _
  obtain ⟨f, hf, hships⟩ := hfit.route_all (S := S) [S.request R x (w x).length buf]
    (fun y hy _ _ => by rw [List.mem_singleton.mp hy]; exact hkey)
  have hcar := (hf (S.request R x (w x).length buf)).1
  have hmail : S.Mail (f (S.request R x (w x).length buf)) :=
    hcar.mail_iff.mpr ⟨rfl, Or.inl rfl⟩
  refine ⟨?_, ?_⟩
  · rw [hstep]
    refine ground_move _ hs hships hfit (by rw [← hr]) (fun _ hp => hp) ?_ ?_ ?_ ?_
    · intro q hq
      rw [List.mem_singleton.mp hq]
      exact Or.inl hcar.msgType
    · intro y hy
      obtain rfl := S.node_inj hy
      obtain ⟨hlt, _⟩ := List.getElem?_eq_some_iff.mp hsock
      rw [← hr, Function.update_self, List.length_append, List.length_singleton]
      exact List.getElem?_set_self hlt
    · intro y hy
      exact Function.update_of_ne (fun he => hy (by rw [he])) _ _
    · intro j t ht hses
      by_cases hj : S.sock x = j
      · exact ⟨x, rfl, hj.symm⟩
      · rw [← hr, List.getElem?_set_ne hj] at ht
        exact hs.others _ j t ht hses
  · have hview := view_move (s := s) s.net (i := S.node x) hships (by rw [← hr])
    rw [hstep, hview, ← hr]
    simp only [List.map_cons, List.map_nil, List.filter_cons, hmail, decide_true,
      if_true, List.filter_nil, Multiset.coe_singleton, Multiset.singleton_add]
    rw [show (fun seq => (s.relays (S.node x)).node.recvListDeaddrop (S.id, seq)) =
        (view S s).table (S.node x) from rfl,
      show (s.relays (S.node x)).node.recvListUser.filter S.Mail =
        (view S s).box (S.node x) from rfl,
      Function.update_eq_self, Function.update_eq_self]
    exact .post x buf _ ((hf _).2 hkey)

/-- A `send` on a socket of another session. -/
theorem send_moves_other (hs : Ground R S w s) {j : Nat}
    (hij : ∀ x, ¬ (i = S.node x ∧ j = S.sock x)) (buf : List UInt8) :
    Ground R S w (s.step (.send i j buf)) ∧
      Moves R S w (view S s) w (view S (s.step (.send i j buf))) := by
  cases hsock : (s.relays i).sockets[j]? with
  | none =>
      have hstep : s.step (.send i j buf) =
          System.move { s with net := s.net } i (s.relays i, []) := by
        simp only [System.step, Relay.socketSend, hsock]
      rw [hstep]
      refine ⟨ground_move _ hs (ships_refl S _) (hs.fit i) rfl (fun _ hp => hp)
        (fun p hp => (by cases hp)) (fun x hx => hx ▸ hs.own x) (fun _ _ => rfl)
        (hs.others i), ?_⟩
      rw [view_move_same _ (ships_refl S _) rfl rfl rfl (fun _ => rfl) rfl]
      exact .rest
  | some t =>
      have hses : t.sessionId ≠ S.id := fun he => by
        obtain ⟨x, hi, hj⟩ := hs.others i j t hsock he
        exact hij x ⟨hi, hj⟩
      -- The generator's arithmetic plays no part here.
      obtain ⟨hkept, hforeign⟩ := Session.send_session t buf
      generalize hout : t.send buf = out at hkept hforeign
      rw [← hforeign] at hses
      generalize hr : { s.relays i with
        sockets := (s.relays i).sockets.set j out.1 } = r
      have hstep : s.step (.send i j buf) = System.move { s with net := s.net } i
          (r.performAll ([out.2].map r.node.handleExternalMessaging)) := by
        simp only [System.step, Relay.socketSend, hsock, Relay.handle, hout, ← hr,
          List.map_cons, List.map_nil]
      have hfit : Fit R i r := by
        have hold := hs.fit i
        subst hr
        exact ⟨hold.cfg, hold.owns, hold.live, hold.next, hold.slots⟩
      obtain ⟨f, hf, hships⟩ := hfit.route_all (S := S) [out.2]
        (fun y hy he _ => by
          rw [List.mem_singleton.mp hy] at he
          exact absurd he hses)
      have hcar := (hf out.2).1
      have hnone : ([out.2].map f).filter S.Mail = [] := by
        rw [List.filter_eq_nil_iff]
        intro q hq
        rw [List.mem_singleton.mp hq]
        simpa using fun hm => hses (hcar.mail_iff.mp hm).1
      rw [hstep]
      refine ⟨?_, ?_⟩
      · refine ground_move _ hs hships hfit (by rw [← hr]) (fun _ hp => hp) ?_ ?_
          (fun _ _ => rfl) ?_
        · intro q hq
          rw [List.mem_singleton.mp hq]
          exact Or.inl hcar.msgType
        · intro x hx
          have hne : j ≠ S.sock x := fun he => hij x ⟨hx.symm, he⟩
          rw [← hr, List.getElem?_set_ne hne, ← hx]
          exact hs.own x
        · intro l t' ht' hses'
          rw [← hr] at ht'
          by_cases hl : j = l
          · subst hl
            obtain ⟨hlt, _⟩ := List.getElem?_eq_some_iff.mp hsock
            rw [List.getElem?_set_self hlt] at ht'
            rw [← Option.some.inj ht', hkept, ← hforeign] at hses'
            exact absurd hses' hses
          · rw [List.getElem?_set_ne hl] at ht'
            exact hs.others i l t' ht' hses'
      · rw [view_move_same _ hships (by rw [← hr]) hnone rfl (by rw [← hr]; exact
          fun _ => rfl) (by rw [← hr]; rfl)]
        exact .rest

/-- Every action of an exchange is a move of the view. -/
theorem step_moves (hs : Ground R S w s) (hx : Exchanged R S home w (view S s))
    {a : Act ι} (ha : Exchanges a) :
    Ground R S (posted S w a) (s.step a) ∧
      Moves R S w (view S s) (posted S w a) (view S (s.step a)) := by
  cases a with
  | send i j buf =>
      by_cases hij : ∃ x, i = S.node x ∧ j = S.sock x
      · obtain ⟨x, rfl, rfl⟩ := hij
        rw [posted_send]
        exact send_moves_own hs x buf
      · have hother : ∀ x, ¬ (i = S.node x ∧ j = S.sock x) := fun x h => hij ⟨x, h⟩
        have hnone : ∀ x, S.sentBy x (.send i j buf) = none := fun x => if_neg (hother x)
        rw [posted_of_not hnone]
        exact send_moves_other hs hother buf
  | sendBatch i accept draws due =>
      rw [posted_of_not fun _ => rfl]
      exact sendBatch_moves hs accept draws due
  | deliver i k =>
      rw [posted_of_not fun _ => rfl]
      cases hk : s.net[k]? with
      | none =>
          have hstep : s.step (.deliver i k) = s := by
            simp only [System.step, System.deliver, hk]
          rw [hstep]
          exact ⟨hs, .rest⟩
      | some p =>
          by_cases hdest : p.dest = (s.relays i).addr
          · exact deliver_moves hs hx hk hdest
          · rw [deliver_elsewhere hk hdest]
            exact ⟨hs, .rest⟩
  | _ => exact ha.elim

/-- The induction over runs. -/
theorem run_moves (hhome : ∀ k, R.IsSucc (S.drop R k) (home k))
    (acts : List (Act ι)) (hacts : ∀ a ∈ acts, Exchanges a) :
    ∀ w s, Ground R S w s → Exchanged R S home w (view S s) →
      Exchanged R S home (fun x => w x ++ S.sends x acts) (view S (s.run acts)) := by
  induction acts with
  | nil =>
      intro w s _ hx
      have hsends : (fun x => w x ++ S.sends x []) = w := by
        funext x
        exact List.append_nil _
      rw [hsends]
      exact hx
  | cons a acts ih =>
      intro w s hs hx
      obtain ⟨hs', hmove⟩ := step_moves hs hx (hacts a (by simp))
      have hrest := ih (fun b hb => hacts b (by simp [hb])) (posted S w a) (s.step a)
        hs' (hx.move hhome hmove)
      have hsends : (fun x => posted S w a x ++ S.sends x acts) =
          fun x => w x ++ S.sends x (a :: acts) := by
        funext x
        simp only [posted, Session.sends, List.filterMap_cons, List.append_assoc]
        cases S.sentBy x a <;> rfl
      rw [hsends] at hrest
      exact hrest

end Step

/-! ## The exchange -/

/-- A session opens: the ring is as it should be and carries application traffic
only, the two sockets are new, and no packet of the session is anywhere. What
other sessions have sent is not restricted. -/
structure Opens (R : Roster ι) (S : Session ι) (s : System ι) : Prop where
  fit : ∀ i, Fit R i (s.relays i)
  net : ∀ p ∈ s.net, Harmless p ∧ ¬ S.Mail p
  pools : ∀ i, ∀ p ∈ held (s.relays i).pool, Harmless p ∧ ¬ S.Mail p
  tables : ∀ i seq, (s.nodes i).recvListDeaddrop (S.id, seq) = none
  boxes : ∀ i, ∀ p ∈ (s.nodes i).recvListUser, ¬ S.Mail p
  own : ∀ x, (s.relays (S.node x)).sockets[S.sock x]? =
    some (DAESocket.new (s.nodes (S.node x)) S.id S.seed)
  others : ∀ i j t, (s.relays i).sockets[j]? = some t → t.sessionId = S.id →
    ∃ x, i = S.node x ∧ j = S.sock x

theorem Opens.ground {s : System ι} (h : Opens R S s) :
    Ground R S (fun _ => []) s where
  fit := h.fit
  net := fun p hp => (h.net p hp).1
  pools := fun i p hp => (h.pools i p hp).1
  own := fun x => (h.own x).trans
    (congrArg some (S.socket_new R (h.fit (S.node x)).owns))
  others := h.others

theorem Opens.exchanged [Fintype ι] {s : System ι} (h : Opens R S s)
    (home : Nat → ι) : Exchanged R S home (fun _ => []) (view S s) := by
  have hmail : (view S s).mail = 0 := by
    show (transit s).filter S.Mail = 0
    rw [Multiset.filter_eq_nil]
    intro p hp
    rcases mem_transit.mp hp with hp | ⟨i, hp⟩
    · exact (h.net p hp).2
    · exact (h.pools i p hp).2
  have hbox : ∀ i, (view S s).box i = [] := by
    intro i
    show (s.nodes i).recvListUser.filter S.Mail = []
    rw [List.filter_eq_nil_iff]
    intro p hp
    simpa using h.boxes i p hp
  have htable : ∀ i seq, (view S s).table i seq = none := h.tables
  refine ⟨⟨?_, ?_, ?_⟩, ?_⟩
  · intro p hp
    rw [hmail] at hp
    cases Multiset.notMem_zero p hp
  · intro i seq p hp
    rw [htable] at hp
    cases hp
  · intro i p hp
    rw [hbox] at hp
    cases hp
  · intro k
    refine Or.inl ⟨?_, ?_, ?_, ?_, ?_⟩
    all_goals simp [cell, hmail, hbox, htable]

/-- The end-to-end exchange. Over any ring with correct successors and otherwise
arbitrary fingers, whatever else is sent and in whatever order packets are
released and delivered, a party receives under each number at most one packet
of the session, with the payload the other party sent under that number; and
when no packet of the session is on the wire or in a pool, it has received
exactly the payloads of the numbers both have sent. -/
theorem deaddrop_exchange [DecidableEq ι] (R : Roster ι) (S : Session ι)
    {s : System ι} (hs : Opens R S s) (acts : List (Act ι)) (hacts : ∀ a ∈ acts, Exchanges a)
    (x : Bool) :
    let s' := s.run acts
    let received := (s'.nodes (S.node x)).recvListUser.filter S.Mail
    (∀ p ∈ received, ∃ k : Nat, p.header.index = k ∧
      (S.sends (!x) acts)[k]? = some p.payload) ∧
    (received.map fun p => p.header.index).Nodup ∧
    ((∀ p ∈ s'.net, ¬ S.Mail p) →
      (∀ i, ∀ p ∈ held (s'.relays i).pool, ¬ S.Mail p) →
      ∀ (k : Nat) (payload : List UInt8),
        (∃ p ∈ received, p.header.index = k ∧ p.payload = payload) ↔
          k < (S.sends x acts).length ∧ (S.sends (!x) acts)[k]? = some payload) := by
  intro s' received
  have := R.finite
  have := Fintype.ofFinite ι
  have : Nonempty ι := ⟨S.node x⟩
  choose home hhome using fun k => R.exists_isSucc (S.drop R k)
  have hend := run_moves hhome acts hacts _ s hs.ground (hs.exchanged home)
  simp only [List.nil_append] at hend
  have hpayload : ∀ p ∈ received, ∃ k : Nat, p.header.index = k ∧
      (S.sends (!x) acts)[k]? = some p.payload := by
    intro p hp
    obtain ⟨k, hbring⟩ := hend.received hp
    exact ⟨k, hbring.index, hbring.payload⟩
  refine ⟨hpayload, hend.once, ?_⟩
  intro hnet hpools k payload
  have hmail : (view S s').mail = 0 := by
    show (transit s').filter S.Mail = 0
    rw [Multiset.filter_eq_nil]
    intro p hp
    rcases mem_transit.mp hp with hp | ⟨i, hp⟩
    · exact hnet p hp
    · exact hpools i p hp
  have hboth := hend.complete (x := x) hmail k
  constructor
  · rintro ⟨p, hp, hidx, rfl⟩
    obtain ⟨a, ha, hw⟩ := hpayload p hp
    obtain rfl : a = k := by omega
    obtain ⟨hfalse, htrue⟩ := hboth.mp ⟨p, hp, hidx⟩
    refine ⟨?_, hw⟩
    cases x
    · exact hfalse
    · exact htrue
  · rintro ⟨hlt, hw⟩
    obtain ⟨hlt', _⟩ := List.getElem?_eq_some_iff.mp hw
    obtain ⟨p, hp, hidx⟩ := hboth.mpr (by
      cases x
      · exact ⟨hlt, hlt'⟩
      · exact ⟨hlt', hlt⟩)
    refine ⟨p, hp, hidx, ?_⟩
    obtain ⟨a, ha, hw'⟩ := hpayload p hp
    obtain rfl : a = k := by omega
    rw [hw'] at hw
    exact Option.some.inj hw

/-- Session 1 between the two nodes of the smallest ring. -/
def pairTalk : Session (Fin 2) where
  node x := if x then 1 else 0
  sock _ := 0
  id := 1
  seed := 7
  distinct := by decide

/-- The two nodes with one new socket each. -/
def pairOpen : System (Fin 2) where
  relays i :=
    { Relay.new (pairRoster.cfg i) with
      node := pairNodes i
      sockets := [DAESocket.new (pairNodes i) 1 7] }
  net := []

theorem pairOpen_opens : Opens pairRoster pairTalk pairOpen where
  fit i := ⟨rfl, pairNodes_owns i, pairNodes_live i, pairNodes_pointsNext i, rfl⟩
  net := fun p hp => by cases hp
  pools := by
    intro i p hp
    rw [show held (pairOpen.relays i).pool = [] from held_new 1] at hp
    cases hp
  tables := fun _ _ => rfl
  boxes := fun i p hp => by cases hp
  own := fun x => rfl
  others := by
    intro i j t ht _
    have hj : j = 0 := by
      obtain ⟨hlt, _⟩ := List.getElem?_eq_some_iff.mp ht
      exact Nat.lt_one_iff.mp hlt
    refine ⟨decide (i = 1), ?_, hj⟩
    clear ht
    revert i
    decide

/-- Both send once, the pools release, and everything is delivered. -/
def pairTalkRun : List (Act (Fin 2)) :=
  [.send 0 0 [7], .send 1 0 [8, 9],
    .sendBatch 0 (fun _ => true) (fun _ => ⟨0, 0⟩) false, .deliver 1 0, .deliver 1 0,
    .sendBatch 1 (fun _ => true) (fun _ => ⟨0, 0⟩) false, .deliver 1 0, .deliver 0 0]

theorem deaddrop_exchange_pair :
    ∃ p ∈ ((pairOpen.run pairTalkRun).nodes 0).recvListUser.filter pairTalk.Mail,
      p.header.index = 0 ∧ p.payload = [8, 9] := by
  have hacts : ∀ a ∈ pairTalkRun, Exchanges a := by
    simp [pairTalkRun, Exchanges, maxMtu, sizeofHeader]
  exact ((deaddrop_exchange pairRoster pairTalk pairOpen_opens pairTalkRun hacts
    false).2.2 (by decide +kernel) (by decide +kernel) 0 [8, 9]).mpr (by decide +kernel)

end Daenet.Proofs
