import Daenet.Proofs.Backups
import Daenet.Proofs.Converge
import Daenet.Proofs.Logarithmic
import Daenet.Proofs.Overwrite
import Daenet.Proofs.Steps

/-!
# `fix_fingers` repairs a table

One pass goes up the table. The next finger is copied from the one before it
when its start lies before that finger, and looked up otherwise; the answers come
later, so within a pass a stale finger can be copied upwards over a good one.

It cannot be when all the fingers below are good. Copying from a good finger is
exact (`copy_exact`): if there is no node between the one start and the finger,
there is none between the other start and the finger. And every answer to a
lookup is exact, whatever the tables on its way hold, as long as the first
fingers are right. So a pass makes one more finger good at least, from the first
one on, and `m` passes all of them; a good finger with good ones below it stays
good at every moment of a pass.
-/

namespace Daenet.Proofs

open Daenet.Lib Daenet.Ref Daenet.Spec

variable {ι : Type} {R : Roster ι} {i : ι} {n : DAENode}

/-- First fingers that are right, other fingers that are any nodes, and the
starts of the constructor. -/
structure Threaded (R : Roster ι) (s : System ι) : Prop extends Linked R s where
  live : ∀ j, R.Live (s.nodes j)
  starts : ∀ j, R.Starts j (s.nodes j)

/-- Finger `t` of node `i` is the node responsible for its start. -/
def Good (R : Roster ι) (i : ι) (n : DAENode) (t : Nat) : Prop :=
  ∃ j, R.IsSucc (R.start i t) j ∧ (n.fingerTable t).peer = R.peer j

/-! ## Copying and looking up -/

/-- The arc argument: a finger that is right for one start is right for a later
start that lies before it. -/
theorem copy_exact {j : ι} {t : Nat} (ht : t + 1 < R.m)
    (hj : R.IsSucc (R.start i t) j)
    (hbtw : Between R.size (R.id i) (R.start i (t + 1)) (R.id j)) :
    R.IsSucc (R.start i (t + 1)) j := by
  have hcw := R.cw_start i (Nat.lt_of_succ_lt ht)
  have hcw' := R.cw_start i ht
  have hne : R.start i t ≠ R.id i := by
    intro he
    rw [he, cw_self] at hcw
    exact absurd hcw.symm (Nat.ne_of_gt (Nat.two_pow_pos t))
  have hle : cw R.size (R.id i) (R.start i t) ≤
      cw R.size (R.id i) (R.start i (t + 1)) := by
    rw [hcw, hcw']
    exact Nat.pow_le_pow_right (by decide) (Nat.le_succ t)
  have horder : cw R.size (R.start i t) (R.start i (t + 1)) ≤
      cw R.size (R.start i t) (R.id j) :=
    cw_le_of_order (R.id_lt_size i) (R.id_lt_size j) (R.start_lt i _)
      (R.start_lt i _) hne hle hbtw.2
  exact fun l => cw_le_of_cw_le (R.start_lt i _) (R.id_lt_size j) (R.start_lt i _)
    (hj l) horder

theorem start_of_starts (hm : R.m ≤ 30) (hst : R.Starts i n) {t : Nat}
    (ht : t < R.m) : (n.fingerTable t).start = R.start i t :=
  (hst t ht).trans (R.start_new hm i ht)

/-- A turn of the loop that copies a good finger makes another. -/
theorem good_copy (hm : R.m ≤ 30) (hown : R.Owns i n) (hst : R.Starts i n)
    {t : Nat} (ht : t + 1 < R.m) (hgood : Good R i n t)
    (hin : n.isInRange n.id (n.fingerTable t).successor
      (n.fingerTable (t + 1 : Nat)).start = true) :
    Good R i (n.setFinger (t + 1 : Nat) (n.fingerTable t).peer) (t + 1) := by
  obtain ⟨j, hj, hpeer⟩ := hgood
  have hsucc : (n.fingerTable t).successor = R.id j :=
    congrArg PeerPair.relayId hpeer
  rw [start_of_starts hm hst ht, hsucc,
    inRange_iff hown (R.id_lt_size j) (R.start_lt i _)] at hin
  refine ⟨j, copy_exact ht hj hin, ?_⟩
  rw [DAENode.setFinger_peer]
  exact hpeer

/-- The first finger is good when it is the next node. -/
theorem good_zero (hnext : R.PointsNext i n) : Good R i n 0 := by
  obtain ⟨j, hj, hpeer⟩ := hnext
  exact ⟨j, R.isNext_iff_isSucc.mp hj, hpeer⟩

theorem pointsNext_of_good (h : Good R i n 0) : R.PointsNext i n := by
  obtain ⟨j, hj, hpeer⟩ := h
  exact ⟨j, R.isNext_iff_isSucc.mpr hj, hpeer⟩

theorem good_of_ne {k t : Nat} (hne : t ≠ k) (p : PeerPair) :
    Good R i (n.setFinger k p) t ↔ Good R i n t := by
  unfold Good
  rw [DAENode.setFinger_of_ne n p (by omega)]

/-- A lookup of node `i` for its finger `t` under way, or its answer. -/
inductive Seeking (R : Roster ι) (i : ι) (t : Nat) (p : AnonymousPacket) : Prop where
  | reply (h : IsReply (R.addr i) t p) {j : ι} (hj : R.IsSucc (R.start i t) j)
      (hkey : p.keyPeer = R.peer j)
  | forward (h : IsForward (R.addr i) t (R.start i t) p) {j : ι}
      (hdest : p.dest = R.addr j)

theorem Seeking.index {t : Nat} {p : AnonymousPacket} (h : Seeking R i t p) :
    p.header.index = t := by
  cases h with
  | reply h _ _ => exact h.index
  | forward h _ => exact h.index

/-- Whatever node handles the lookup, it answers with the right node or passes
the lookup on. -/
theorem seeking_lookup {j : ι} (hown : R.Owns j n) (hlive : R.Live n)
    (hnext : R.PointsNext j n) (t : Nat) :
    ∃ p, n.handleFindSuccessor (R.addr i).1 (R.addr i).2 t (R.start i t) =
      .directSend p ∧ Seeking R i t p := by
  obtain ⟨p, hp, hcase⟩ := lookup_answer hown hlive hnext (R.start_lt i t)
    (R.addr i).1 (R.addr i).2 t
  refine ⟨p, hp, ?_⟩
  rcases hcase with ⟨hrep, l, hl, hkey⟩ | ⟨hfwd, l, hdest⟩
  · exact .reply hrep hl hkey
  · exact .forward hfwd hdest

theorem seeking_own (hm : R.m ≤ 30) (hown : R.Owns i n) (hlive : R.Live n)
    (hnext : R.PointsNext i n) (hst : R.Starts i n) {t : Nat} (ht : t < R.m) :
    ∃ p, lookUp n t = .directSend p ∧ Seeking R i t p := by
  obtain ⟨p, hp, hseek⟩ := seeking_lookup (i := i) hown hlive hnext t
  refine ⟨p, ?_, hseek⟩
  rw [← hp, lookUp, start_of_starts hm hst ht, hown.ip, hown.port]
  rfl

/-! ## The handler -/

/-- After `k` turns of the loop, started on `n`. -/
structure Turned (R : Roster ι) (i : ι) (n : DAENode) (k : Nat) (n' : DAENode)
    (es : List Effect) : Prop where
  owns : R.Owns i n'
  live : R.Live n'
  next : R.PointsNext i n'
  starts : R.Starts i n'
  above : ∀ t, k < t → n'.fingerTable t = n.fingerTable t
  keeps : ∀ t < R.m, (∀ u ≤ t, Good R i n u) → Good R i n' t
  seeks : ∀ e ∈ es, ∃ t < R.m, ∃ p, e = .directSend p ∧ Seeking R i t p
  gains : ∀ t ≤ k, t < R.m → (∀ u < t, Good R i n u) →
    Good R i n' t ∨ ∃ p, .directSend p ∈ es ∧ Seeking R i t p

theorem fixFingers_turned (hm : R.m ≤ 30) (hown : R.Owns i n) (hlive : R.Live n)
    (hnext : R.PointsNext i n) (hst : R.Starts i n) :
    Turned R i n (R.m - 1) n.fixFingers.1 n.fixFingers.2 := by
  have hmn := hown.m
  rw [← hmn]
  refine fixFingers_loop ⟨hown, hlive, hnext, hst, fun _ _ => rfl,
    fun t _ h => h t (Nat.le_refl t), ?_, ?_⟩ ?_ ?_
  · intro e he
    obtain ⟨p, hp, hseek⟩ := seeking_own hm hown hlive hnext hst R.bits_pos
    exact ⟨0, R.bits_pos, p, (List.mem_singleton.mp he).trans hp, hseek⟩
  · intro t ht _ _
    rw [Nat.le_zero.mp ht]
    exact .inl (good_zero hnext)
  · -- A copy.
    intro n' es t ht h hin
    rw [hmn] at ht
    have hne : ∀ u, u ≠ t + 1 → ∀ p,
        Good R i (n'.setFinger (t + 1 : Nat) p) u ↔ Good R i n' u :=
      fun u hu p => good_of_ne hu p
    have hcopied : (∀ u ≤ t, Good R i n u) →
        Good R i (n'.setFinger (t + 1 : Nat) (n'.fingerTable t).peer) (t + 1) :=
      fun hgood => good_copy hm h.owns h.starts ht (h.keeps t (by omega) hgood) hin
    refine ⟨⟨h.owns.m, h.owns.id, h.owns.ip, h.owns.port⟩,
      live_setFinger h.live (h.live t (by omega)), ?_, starts_setFinger h.starts,
      ?_, ?_, h.seeks, ?_⟩
    · exact pointsNext_of_good ((hne 0 (by omega) _).mpr (good_zero h.next))
    · intro u hu
      rw [DAENode.setFinger_of_ne n' _ (by omega)]
      exact h.above u (by omega)
    · intro u hu hgood
      by_cases heq : u = t + 1
      · subst heq
        exact hcopied fun v hv => hgood v (by omega)
      · exact (hne u heq _).mpr (h.keeps u hu hgood)
    · intro u hu hum hgood
      by_cases heq : u = t + 1
      · subst heq
        exact .inl (hcopied fun v hv => hgood v (by omega))
      · rcases h.gains u (by omega) hum hgood with hg | hp
        · exact .inl ((hne u heq _).mpr hg)
        · exact .inr hp
  · -- A lookup.
    intro n' es t ht h _
    rw [hmn] at ht
    obtain ⟨p, hp, hseek⟩ := seeking_own hm h.owns h.live h.next h.starts ht
    refine ⟨h.owns, h.live, h.next, h.starts, fun u hu => h.above u (by omega),
      h.keeps, ?_, ?_⟩
    · intro e he
      rcases List.mem_append.mp he with he | he
      · exact h.seeks e he
      · exact ⟨t + 1, ht, p, (List.mem_singleton.mp he).trans hp, hseek⟩
    · intro u hu hum hgood
      by_cases heq : u = t + 1
      · subst heq
        refine .inr ⟨p, List.mem_append_right _ ?_, hseek⟩
        rw [hp]
        exact List.mem_singleton.mpr rfl
      · rcases h.gains u (by omega) hum hgood with hg | ⟨q, hq, hseek'⟩
        · exact .inl hg
        · exact .inr ⟨q, List.mem_append_left _ hq, hseek'⟩

/-! ## The answers -/

/-- During a pass of node `i`: the ring, with nothing in flight but its lookups
and their answers. -/
structure Repairing (R : Roster ι) (i : ι) (s : System ι) : Prop
    extends Threaded R s where
  flight : ∀ p ∈ s.net, ∃ t < R.m, Seeking R i t p

/-- Finger `t` is good, or will be when the lookup for it is answered. -/
def Assured (R : Roster ι) (i : ι) (s : System ι) (t : Nat) : Prop :=
  Good R i (s.nodes i) t ∨ ∃ p ∈ s.net, Seeking R i t p

/-- What a packet in flight still costs: its answer, or the distance it has to
go. -/
noncomputable def cost (R : Roster ι) (p : AnonymousPacket) : Nat :=
  open Classical in
  if h : p.header.id = .internalJoinFindSuccessor ∧ ∃ j, p.dest = R.addr j then
    cw R.size (R.id h.2.choose) p.header.keyId + 2
  else 1

theorem cost_reply {a : String × Int} {index : Int} {p : AnonymousPacket}
    (h : IsReply a index p) : cost R p = 1 := by
  refine dif_neg ?_
  rintro ⟨hid, _⟩
  rw [h.id] at hid
  cases hid

theorem cost_forward {a : String × Int} {index : Int} {k : Nat}
    {p : AnonymousPacket} (h : IsForward a index k p) {j : ι}
    (hdest : p.dest = R.addr j) : cost R p = cw R.size (R.id j) k + 2 := by
  have hex : p.header.id = .internalJoinFindSuccessor ∧ ∃ l, p.dest = R.addr l :=
    ⟨h.id, j, hdest⟩
  have hj : hex.2.choose = j := R.addr_inj (hex.2.choose_spec.symm.trans hdest)
  unfold cost
  rw [dif_pos hex, hj, h.key]

/-- The lookup handled by the node it reached: what it sends costs less. -/
theorem seeking_hop {j : ι} {t : Nat} {p : AnonymousPacket} (hown : R.Owns j n)
    (hlive : R.Live n) (hnext : R.PointsNext j n)
    (h : IsForward (R.addr i) t (R.start i t) p) (hdest : p.dest = R.addr j) :
    ∃ q, n.receive p = (n, [.directSend q]) ∧ Seeking R i t q ∧
      cost R q < cost R p := by
  obtain ⟨q, hq, hseek⟩ := seeking_lookup (i := i) hown hlive hnext t
  refine ⟨q, ?_, hseek, ?_⟩
  · rw [receive_forward h, hq]
  · obtain ⟨q', hq', hcase⟩ := request_step hown hlive
      (.lookup (R.addr i).1 (R.addr i).2 t (R.start i t)) (R.start_lt i t)
    have hsame : q' = q := by
      change packetOf (n.handleFindSuccessor _ _ _ _) = some q' at hq'
      rw [hq] at hq'
      exact (Option.some.inj hq').symm
    subst hsame
    rw [cost_forward h hdest]
    rcases hcase with hfin | ⟨hfwd, l, hl, hlt⟩
    · rw [cost_reply (show IsReply _ _ _ from hfin)]
      omega
    · rw [cost_forward (show IsForward _ _ _ _ from hfwd) hl]
      exact Nat.add_lt_add_right hlt 2

section Passes

variable [DecidableEq ι] {s s' : System ι}

/-- One packet arrives: fingers only get better, and less is left to do. -/
structure Progress (R : Roster ι) (i : ι) (s s' : System ι) : Prop where
  repairing : Repairing R i s'
  good : ∀ t, Good R i (s.nodes i) t → Good R i (s'.nodes i) t
  assured : ∀ t, Assured R i s t → Assured R i s' t
  cost : (s'.net.map (cost R)).sum < (s.net.map (cost R)).sum

theorem sum_eraseIdx {α : Type} (f : α → Nat) {l : List α} {k : Nat} {x : α}
    (hk : l[k]? = some x) :
    (l.map f).sum = f x + ((l.eraseIdx k).map f).sum := by
  obtain ⟨hlt, rfl⟩ := List.getElem?_eq_some_iff.mp hk
  rw [← ((List.getElem_cons_eraseIdx_perm hlt).map f).sum_eq, List.map_cons,
    List.sum_cons]

/-- The node that a packet changes only in one finger, or not at all. -/
theorem Threaded.after {j : ι} {r : DAENode × List Effect}
    {net : List AnonymousPacket} (h : Threaded R s) (ha : After s s' j r net)
    (hown : R.Owns j r.1) (hnext : R.PointsNext j r.1) (hlive : R.Live r.1)
    (hst : R.Starts j r.1) : Threaded R s' := by
  have hnode : ∀ l, s'.nodes l = if l = j then r.1 else s.nodes l := by
    intro l
    rw [ha.nodes, Function.update_apply]
  refine ⟨⟨fun l => (ha.cfg l).trans (h.cfg l), ?_, ?_⟩, ?_, ?_⟩
  all_goals
    intro l
    rw [hnode]
    split
    · next hl =>
        subst hl
        assumption
    · first
        | exact h.owns l
        | exact h.next l
        | exact h.live l
        | exact h.starts l

section Deliver

variable {k : Nat} {p : AnonymousPacket} (hk : s.net[k]? = some p)

include hk

omit [DecidableEq ι] in
/-- What was assured by another packet still is. -/
theorem assured_left {n : DAENode} {net : List AnonymousPacket} {t u : Nat}
    (hgood : Good R i (s.nodes i) u → Good R i n u)
    (hseek : Seeking R i t p)
    (hthis : u = t → Good R i n u ∨ ∃ q ∈ net, Seeking R i u q)
    (hnet : ∀ q ∈ s.net.eraseIdx k, q ∈ net) (h : Assured R i s u) :
    Good R i n u ∨ ∃ q ∈ net, Seeking R i u q := by
  rcases h with h | ⟨q, hq, hseek'⟩
  · exact .inl (hgood h)
  · by_cases hqp : q = p
    · subst hqp
      have hut := hseek'.index.symm.trans hseek.index
      exact hthis (by omega)
    · exact .inr ⟨q, hnet q (mem_eraseIdx_of_ne hq hk hqp), hseek'⟩

/-- An answer comes home. -/
theorem Repairing.answered (h : Repairing R i s) {t : Nat} {l : ι}
    (hrep : IsReply (R.addr i) t p) (hl : R.IsSucc (R.start i t) l)
    (hkey : p.keyPeer = R.peer l) : Progress R i s (s.step (.deliver i k)) := by
  have hrecv := receive_reply (n := s.nodes i) hrep
  have ha := after_deliver hk (by rw [h.toLinked.addr]; exact hrep.dest)
    (by rw [hrecv]; exact quiet_nil)
  rw [hrecv] at ha
  have hnet : (s.step (.deliver i k)).net = s.net.eraseIdx k :=
    ha.net.trans (List.append_nil _)
  have hnode : (s.step (.deliver i k)).nodes i =
      (s.nodes i).setFinger t p.keyPeer := by
    rw [ha.nodes, Function.update_self]
  have hset : Good R i ((s.nodes i).setFinger t p.keyPeer) t :=
    ⟨l, hl, (DAENode.setFinger_peer ..).trans hkey⟩
  have hgood : ∀ u, Good R i (s.nodes i) u →
      Good R i ((s.nodes i).setFinger t p.keyPeer) u := by
    intro u hu
    by_cases hut : u = t
    · rw [hut]
      exact hset
    · exact (good_of_ne hut _).mpr hu
  have hown := h.owns i
  refine ⟨⟨h.toThreaded.after ha ⟨hown.m, hown.id, hown.ip, hown.port⟩
    (pointsNext_of_good (hgood 0 (good_zero (h.next i))))
    (live_setFinger (h.live i) ⟨l, hkey.symm⟩) (starts_setFinger (h.starts i)), ?_⟩,
    ?_, ?_, ?_⟩
  · rw [hnet]
    exact fun q hq => h.flight q (List.mem_of_mem_eraseIdx hq)
  · rw [hnode]
    exact hgood
  · intro u hu
    unfold Assured
    rw [hnode, hnet]
    exact assured_left hk (hgood u) (.reply hrep hl hkey) (fun hut => .inl (hut ▸ hset))
      (fun _ hq => hq) hu
  · rw [hnet, sum_eraseIdx (cost R) hk, cost_reply hrep]
    omega

/-- A lookup comes to a node on its way. -/
theorem Repairing.passed (h : Repairing R i s) {t : Nat} (ht : t < R.m) {j : ι}
    (hfwd : IsForward (R.addr i) t (R.start i t) p) (hj : p.dest = R.addr j) :
    Progress R i s (s.step (.deliver j k)) := by
  obtain ⟨q, hrecv, hseek, hcost⟩ := seeking_hop (h.owns j) (h.live j) (h.next j)
    hfwd hj
  have ha := after_deliver hk (by rw [h.toLinked.addr]; exact hj)
    (by rw [hrecv]; exact quiet_send q)
  rw [hrecv] at ha
  have hnet : (s.step (.deliver j k)).net = s.net.eraseIdx k ++ [q] := ha.net
  have hsame : (s.step (.deliver j k)).nodes = s.nodes := by
    rw [ha.nodes]
    exact Function.update_eq_self ..
  have hnew : q ∈ s.net.eraseIdx k ++ [q] :=
    List.mem_append_right _ (List.mem_singleton.mpr rfl)
  refine ⟨⟨h.toThreaded.after ha (h.owns j) (h.next j) (h.live j) (h.starts j), ?_⟩,
    ?_, ?_, ?_⟩
  · rw [hnet]
    intro q' hq'
    rcases List.mem_append.mp hq' with hq' | hq'
    · exact h.flight q' (List.mem_of_mem_eraseIdx hq')
    · rw [List.mem_singleton.mp hq']
      exact ⟨t, ht, hseek⟩
  · rw [hsame]
    exact fun _ hu => hu
  · intro u hu
    unfold Assured
    rw [hsame, hnet]
    exact assured_left hk id (.forward hfwd hj)
      (fun hut => .inr ⟨q, hnew, hut ▸ hseek⟩)
      (fun _ hq => List.mem_append_left _ hq) hu
  · rw [hnet, sum_eraseIdx (cost R) hk, List.map_append, List.sum_append]
    simp only [List.map_cons, List.map_nil, List.sum_cons, List.sum_nil]
    omega

/-- The step lemma of the answers. -/
theorem Repairing.deliver (h : Repairing R i s) {j : ι}
    (hdest : p.dest = (s.relays j).addr) :
    Progress R i s (s.step (.deliver j k)) := by
  rw [h.toLinked.addr] at hdest
  obtain ⟨t, ht, hseek⟩ := h.flight p (List.mem_of_getElem? hk)
  cases hseek with
  | reply hrep hl hkey =>
      obtain rfl : j = i := R.addr_inj (hdest.symm.trans hrep.dest)
      exact Repairing.answered hk h hrep hl hkey
  | forward hfwd _ => exact Repairing.passed hk h ht hfwd hdest

end Deliver

/-- Deliveries, in any order, for a while. -/
inductive Arrives : System ι → System ι → Prop where
  | done (s : System ι) : Arrives s s
  | deliver {s s' : System ι} (j : ι) (k : Nat)
      (h : Arrives (s.step (.deliver j k)) s') : Arrives s s'

theorem Settles.arrives (h : Settles s s') : Arrives s s' := by
  induction h with
  | done _ => exact .done _
  | deliver j k _ ih => exact .deliver j k ih

/-- A delivery that does something, or nothing at all. -/
theorem deliver_cases (s : System ι) (j : ι) (k : Nat) :
    s.step (.deliver j k) = s ∨
      ∃ p, s.net[k]? = some p ∧ p.dest = (s.relays j).addr := by
  cases hk : s.net[k]? with
  | none =>
      refine .inl ?_
      simp only [System.step, System.deliver, hk]
  | some p =>
      by_cases hdest : p.dest = (s.relays j).addr
      · exact .inr ⟨p, rfl, hdest⟩
      · exact .inl (deliver_elsewhere hk hdest)

/-- The run lemma of the answers. -/
theorem Repairing.arrives (hs : Repairing R i s) (h : Arrives s s') :
    Repairing R i s' ∧
      (∀ t, Good R i (s.nodes i) t → Good R i (s'.nodes i) t) ∧
      ∀ t, Assured R i s t → Assured R i s' t := by
  induction h with
  | done s => exact ⟨hs, fun _ h => h, fun _ h => h⟩
  | @deliver s s' j k _ ih =>
      rcases deliver_cases s j k with hsame | ⟨p, hk, hdest⟩
      · rw [hsame] at ih
        exact ih hs
      · have hstep := Repairing.deliver hk hs hdest
        obtain ⟨hend, hgood, hcov⟩ := ih hstep.repairing
        exact ⟨hend, fun t ht => hgood t (hstep.good t ht),
          fun t ht => hcov t (hstep.assured t ht)⟩

/-- The answers all arrive: every delivery leaves less to do. -/
theorem Repairing.settles (hs : Repairing R i s) : ∃ s', Settles s s' := by
  induction hcost : (s.net.map (cost R)).sum using Nat.strong_induction_on
    generalizing s with
  | _ c ih =>
      cases hnet : s.net with
      | nil => exact ⟨s, .done hnet⟩
      | cons p net =>
          have hk : s.net[0]? = some p := by rw [hnet]; rfl
          obtain ⟨t, _, hseek⟩ := hs.flight p (List.mem_of_getElem? hk)
          obtain ⟨j, hj⟩ : ∃ j, p.dest = R.addr j := by
            cases hseek with
            | reply h _ _ => exact ⟨i, h.dest⟩
            | forward _ hdest => exact ⟨_, hdest⟩
          have hstep := Repairing.deliver hk hs (by rw [hs.toLinked.addr]; exact hj)
          obtain ⟨s', hs'⟩ := ih _ (hcost ▸ hstep.cost) hstep.repairing rfl
          exact ⟨s', .deliver j 0 hs'⟩

/-! ## Passes -/

/-- The handler of a pass has run. -/
theorem Threaded.fixFingers (hm : R.m ≤ 30) (hs : Threaded R s) (hnet : s.net = [])
    (i : ι) :
    Repairing R i (s.step (.fixFingers i)) ∧
      (∀ t < R.m, (∀ u ≤ t, Good R i (s.nodes i) u) →
        Good R i ((s.step (.fixFingers i)).nodes i) t) ∧
      ∀ t < R.m, (∀ u < t, Good R i (s.nodes i) u) →
        Assured R i (s.step (.fixFingers i)) t := by
  have hturned := fixFingers_turned hm (hs.owns i) (hs.live i) (hs.next i)
    (hs.starts i)
  have hquiet : ∀ e ∈ (s.nodes i).fixFingers.2, Quiet e := by
    intro e he
    obtain ⟨t, _, p, rfl, _⟩ := hturned.seeks e he
    exact fun _ => Effect.noConfusion
  have ha : After s (s.step (.fixFingers i)) i (s.nodes i).fixFingers s.net :=
    after_handle (f := DAENode.fixFingers) hquiet
  rw [hnet] at ha
  have hnode : (s.step (.fixFingers i)).nodes i = (s.nodes i).fixFingers.1 := by
    rw [ha.nodes, Function.update_self]
  have hsent : ∀ p, p ∈ (s.step (.fixFingers i)).net ↔
      Effect.directSend p ∈ (s.nodes i).fixFingers.2 := by
    intro p
    rw [ha.net, List.nil_append, List.mem_filterMap]
    constructor
    · rintro ⟨e, he, hp⟩
      obtain ⟨t, _, q, rfl, _⟩ := hturned.seeks e he
      cases hp
      exact he
    · intro he
      exact ⟨_, he, rfl⟩
  refine ⟨⟨hs.after ha hturned.owns hturned.next hturned.live hturned.starts, ?_⟩,
    ?_, ?_⟩
  · intro p hp
    obtain ⟨t, ht, q, hq, hseek⟩ := hturned.seeks _ ((hsent p).mp hp)
    cases hq
    exact ⟨t, ht, hseek⟩
  · rw [hnode]
    exact hturned.keeps
  · intro t ht hgood
    unfold Assured
    rw [hnode]
    rcases hturned.gains t (by omega) ht hgood with hg | ⟨p, hp, hseek⟩
    · exact .inl hg
    · exact .inr ⟨p, (hsent p).mpr hp, hseek⟩

/-- Node `i` runs `fix_fingers` so many times, with all lookups of a pass
answered before the next. -/
inductive Passes (i : ι) : Nat → System ι → System ι → Prop where
  | zero (s : System ι) : Passes i 0 s s
  | succ {k : Nat} {s s' s'' : System ι} (h : Passes i k s s')
      (hpass : Settles (s'.step (.fixFingers i)) s'') : Passes i (k + 1) s s''

/-- One more finger is good after every pass. -/
theorem Passes.good (hm : R.m ≤ 30) (hs : Threaded R s) (hnet : s.net = [])
    {k : Nat} (h : Passes i k s s') :
    Threaded R s' ∧ s'.net = [] ∧
      ∀ t ≤ k, t < R.m → Good R i (s'.nodes i) t := by
  induction h with
  | zero s =>
      refine ⟨hs, hnet, fun t ht _ => ?_⟩
      rw [Nat.le_zero.mp ht]
      exact good_zero (hs.next i)
  | @succ k s s' s'' _ hpass ih =>
      obtain ⟨hs', hnet', hgood⟩ := ih hs hnet
      obtain ⟨hrep, _, hcov⟩ := hs'.fixFingers hm hnet' i
      obtain ⟨hrep'', _, hcov''⟩ := hrep.arrives hpass.arrives
      have hempty := settles_net hpass
      refine ⟨hrep''.toThreaded, hempty, fun t ht htm => ?_⟩
      rcases hcov'' t (hcov t htm fun u hu => hgood u (by omega) (by omega)) with
        hg | ⟨p, hp, _⟩
      · exact hg
      · rw [hempty] at hp
        cases hp

theorem passes_exist (hm : R.m ≤ 30) (hs : Threaded R s) (hnet : s.net = [])
    (i : ι) (k : Nat) : ∃ s', Passes i k s s' := by
  induction k with
  | zero => exact ⟨s, .zero s⟩
  | succ k ih =>
      obtain ⟨s', h⟩ := ih
      obtain ⟨hs', hnet', _⟩ := h.good hm hs hnet
      obtain ⟨s'', hs''⟩ := (hs'.fixFingers hm hnet' i).1.settles
      exact ⟨s'', .succ h hs''⟩

/-- **`fix_fingers` repairs any table**: on right first fingers and any other
fingers, `m` passes of a node can be made, and however the packets of a pass are
delivered, they leave its table exact; and in no state during a pass is a finger
wrong that was good before it with all the fingers below. -/
theorem fix_fingers_repairs (R : Roster ι) (hm : R.m ≤ 30) (i : ι) (s : System ι)
    (hs : Threaded R s) (hnet : s.net = []) :
    (∃ s', Passes i R.m s s') ∧
    (∀ s', Passes i R.m s s' → Exact R i (s'.nodes i)) ∧
    ∀ k s', Passes i k s s' → ∀ s'', Arrives (s'.step (.fixFingers i)) s'' →
      ∀ t < R.m, (∀ u ≤ t, Good R i (s'.nodes i) u) → Good R i (s''.nodes i) t := by
  refine ⟨passes_exist hm hs hnet i R.m, ?_, ?_⟩
  · intro s' h t ht
    exact (h.good hm hs hnet).2.2 t (Nat.le_of_lt ht) ht
  · intro k s' h s'' harr t ht hgood
    obtain ⟨hs', hnet', _⟩ := h.good hm hs hnet
    obtain ⟨hrep, hkeep, _⟩ := hs'.fixFingers hm hnet' i
    exact (hrep.arrives harr).2.1 t (hkeep t ht hgood)

end Passes

theorem octSystem_threaded : Threaded octRoster octSystem := by
  refine ⟨octSystem_linked, fun j => ?_, fun j => ?_⟩
  · exact live_setFinger (octRoster.live_new j) ⟨j + 1, rfl⟩
  · intro t _
    exact DAENode.setFinger_start ..

theorem fix_fingers_repairs_oct :
    (octSystem.nodes 0).fingerTable 2 ≠
      { start := 4, successor := 4, ip := "10.22.1.16", port := 3014 } ∧
    ∃ s', Passes 0 3 octSystem s' ∧ Exact octRoster 0 (s'.nodes 0) := by
  obtain ⟨⟨s', h⟩, hexact, _⟩ := fix_fingers_repairs octRoster (by decide) 0
    octSystem octSystem_threaded rfl
  exact ⟨by decide, s', h, hexact s' h⟩

end Daenet.Proofs
