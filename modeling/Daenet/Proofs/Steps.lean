import Daenet.Proofs.Identity
import Daenet.Proofs.Pool

/-!
# Every step, application traffic included

Application messages and dummies share the wire, the pools and the nodes with
the upkeep, but nothing the upkeep reads: they write only the two receive
lists, and what they send is more of the same. To the upkeep such a step is
noise, and every step of the system is noise or one handler of the upkeep.

So the identity invariant, proved for runs of the upkeep alone, holds in runs
with applications too.
-/

namespace Daenet.Proofs

open Daenet.Ref Daenet.Spec

variable {ι : Type} {R : Roster ι}

theorem SameTables.ok {i : ι} {n n' : DAENode} (h : SameTables n n')
    (hn : NodeOk R i n) : NodeOk R i n' := by
  obtain ⟨drops, user, rfl⟩ := h
  exact { hn with toOwns := ⟨hn.m, hn.id, hn.ip, hn.port⟩ }

/-- A step that the upkeep does not notice. -/
structure Noise (s s' : System ι) : Prop where
  tables : ∀ i, SameTables (s.nodes i) (s'.nodes i)
  cfg : ∀ i, (s'.relays i).cfg = (s.relays i).cfg
  tasks : ∀ i, (s'.relays i).tasks = (s.relays i).tasks
  kept : ∀ p ∈ s.net, p ∈ s'.net ∨ Harmless p
  net : ∀ p ∈ s'.net, p ∈ s.net ∨ Harmless p
  pools : ∀ i, ∀ p ∈ held (s'.relays i).pool, Harmless p

/-- The identity invariant, with application traffic about. -/
structure Sane (R : Roster ι) (s : System ι) : Prop where
  cfg : ∀ i, (s.relays i).cfg = R.cfg i
  node : ∀ i, NodeOk R i (s.nodes i)
  net : ∀ p ∈ s.net, Harmless p ∨ PacketOk R p
  pools : ∀ i, ∀ p ∈ held (s.relays i).pool, Harmless p

theorem sane_init : Sane R (System.init R.cfg) where
  cfg := fun _ => rfl
  node := nodeOk_new
  net := fun p hp => by cases hp
  pools := fun i p hp => by
    rw [show (System.init R.cfg).relays i = Relay.new (R.cfg i) from rfl,
      Relay.new, held_new] at hp
    cases hp

theorem noise_refl {s : System ι}
    (hpools : ∀ i, ∀ p ∈ held (s.relays i).pool, Harmless p) : Noise s s :=
  ⟨fun _ => sameTables_refl _, fun _ => rfl, fun _ => rfl, fun _ h => .inl h,
    fun _ h => .inl h, hpools⟩

theorem Noise.sane {s s' : System ι} (h : Noise s s') (hs : Sane R s) :
    Sane R s' where
  cfg := fun i => (h.cfg i).trans (hs.cfg i)
  node := fun i => (h.tables i).ok (hs.node i)
  net := fun p hp => (h.net p hp).elim (hs.net p) .inl
  pools := h.pools

/-- What is not taken out is still there. -/
theorem mem_eraseIdx_of_ne {α : Type} {l : List α} {k : Nat} {x y : α}
    (hx : x ∈ l) (hk : l[k]? = some y) (hne : x ≠ y) : x ∈ l.eraseIdx k := by
  obtain ⟨j, hj⟩ := List.mem_iff_getElem?.mp hx
  refine List.mem_eraseIdx_iff_getElem?.mpr ⟨j, ?_, hj⟩
  rintro rfl
  rw [hk] at hj
  injection hj with hj
  exact hne hj.symm

/-! ## What application traffic does to a relay -/

/-- A relay after it has sent application packets only. -/
structure Murmurs (r : Relay) (a : Relay × List AnonymousPacket) : Prop where
  node : a.1.node = r.node
  cfg : a.1.cfg = r.cfg
  tasks : a.1.tasks = r.tasks
  out : ∀ p ∈ a.2, Harmless p
  pool : (∀ p ∈ held r.pool, Harmless p) → ∀ p ∈ held a.1.pool, Harmless p

theorem murmurs_refl (r : Relay) : Murmurs r (r, []) :=
  ⟨rfl, rfl, rfl, fun _ hp => (by cases hp), fun h => h⟩

theorem perform_murmurs (r : Relay) {p : AnonymousPacket} (hp : Harmless p) :
    Murmurs r (r.perform (.safeSend p)) := by
  have hdirect : Murmurs r ({ r with counters := r.counters.directSend p }, [p]) :=
    ⟨rfl, rfl, rfl, fun q hq => List.mem_singleton.mp hq ▸ hp, fun h => h⟩
  simp only [Relay.perform]
  split
  · unfold ShufflePool.send
    cases hslot : ShufflePool.slotFor r.node.fingerTable p.dest 0 r.node.m with
    | some j =>
        refine ⟨rfl, rfl, rfl, fun q hq => (by cases hq), fun h q hq => ?_⟩
        rcases mem_held_push hq with rfl | hq
        · exact hp
        · exact h q hq
    | none =>
        by_cases hown : p.dest = (r.cfg.relayIp, r.cfg.relayPort)
        · simp only [if_pos hown]
          exact hdirect
        · simp only [if_neg hown]
          exact murmurs_refl r
  · exact hdirect

theorem Murmurs.trans {r : Relay} {a b : Relay × List AnonymousPacket}
    (ha : Murmurs r a) (hb : Murmurs a.1 b) : Murmurs r (b.1, a.2 ++ b.2) where
  node := hb.node.trans ha.node
  cfg := hb.cfg.trans ha.cfg
  tasks := hb.tasks.trans ha.tasks
  out := fun p hp => (List.mem_append.mp hp).elim (ha.out p) (hb.out p)
  pool := fun h => hb.pool (ha.pool h)

/-- The router makes an application packet of a message. -/
theorem route_harmless (n : DAENode) (x : DAENode.ExternalMsg) :
    ∃ p, n.handleExternalMessaging x = .safeSend p ∧ Harmless p := by
  unfold DAENode.handleExternalMessaging
  split_ifs <;> exact ⟨_, rfl, .inl rfl⟩

theorem performAll_murmurs (n : DAENode) (xs : List DAENode.ExternalMsg)
    (r : Relay) : Murmurs r (r.performAll (xs.map n.handleExternalMessaging)) := by
  induction xs generalizing r with
  | nil => exact murmurs_refl r
  | cons x xs ih =>
      obtain ⟨p, hp, hharm⟩ := route_harmless n x
      rw [List.map_cons, hp]
      exact (perform_murmurs r hharm).trans (ih _)

/-- A batch gives out what the pool held, and dummies. -/
theorem sendBatch_murmurs {r : Relay} (h : ∀ p ∈ held r.pool, Harmless p)
    (accept : Nat → Bool) (draws : Nat → ShufflePool.Draw) (due : Bool) :
    Murmurs r (r.sendBatch accept draws due) := by
  unfold Relay.sendBatch
  split
  · obtain ⟨_, ds, released, hds, hout, hheld⟩ := sendBatch_split r.pool
      r.node.fingerTable accept draws r.cfg.sendDummy r.cfg.debugShuffle due
      r.counters
    refine ⟨rfl, rfl, rfl, fun p hp => ?_, fun _ p hp => ?_⟩
    · rcases List.mem_append.mp (hout.subset hp) with hp | hp
      · obtain ⟨_, f, rfl⟩ := hds p hp
        exact .inr rfl
      · exact h p (hheld.symm.subset (by simp [hp]))
    · exact h p (hheld.symm.subset (List.mem_append_right _ hp))
  · exact murmurs_refl r

variable [DecidableEq ι]

/-- Application traffic of one relay, seen from the system. -/
theorem noise_move {s : System ι} {i : ι} {r : Relay} {net : List AnonymousPacket}
    {a : Relay × List AnonymousPacket}
    (hpools : ∀ i, ∀ p ∈ held (s.relays i).pool, Harmless p)
    (hnode : SameTables (s.nodes i) r.node) (hcfg : r.cfg = (s.relays i).cfg)
    (htasks : r.tasks = (s.relays i).tasks) (hpool : r.pool = (s.relays i).pool)
    (hsub : ∀ p ∈ net, p ∈ s.net) (hkept : ∀ p ∈ s.net, p ∈ net ∨ Harmless p)
    (ha : Murmurs r a) : Noise s (System.move { s with net := net } i a) := by
  have hself : (System.move { s with net := net } i a).relays i = a.1 :=
    Function.update_self ..
  have hother : ∀ j, j ≠ i →
      (System.move { s with net := net } i a).relays j = s.relays j :=
    fun j hj => Function.update_of_ne hj ..
  refine ⟨?_, ?_, ?_, ?_, ?_, ?_⟩
  · intro j
    by_cases hj : j = i
    · subst hj
      rw [System.nodes, System.nodes, hself, ha.node]
      exact hnode
    · rw [System.nodes, System.nodes, hother j hj]
      exact sameTables_refl _
  · intro j
    by_cases hj : j = i
    · subst hj
      rw [hself, ha.cfg, hcfg]
    · rw [hother j hj]
  · intro j
    by_cases hj : j = i
    · subst hj
      rw [hself, ha.tasks, htasks]
    · rw [hother j hj]
  · intro p hp
    exact (hkept p hp).imp (fun h => List.mem_append_left _ h) id
  · intro p hp
    rcases List.mem_append.mp hp with hp | hp
    · exact .inl (hsub p hp)
    · exact .inr (ha.out p hp)
  · intro j
    by_cases hj : j = i
    · subst hj
      rw [hself]
      exact ha.pool (hpool ▸ hpools j)
    · rw [hother j hj]
      exact hpools j

/-- An application packet delivered. -/
theorem noise_deliver {s : System ι} {i : ι} {k : Nat} {p : AnonymousPacket}
    (hpools : ∀ i, ∀ p ∈ held (s.relays i).pool, Harmless p)
    (hk : s.net[k]? = some p) (hdest : p.dest = (s.relays i).addr)
    (hp : Harmless p) : Noise s (s.step (.deliver i k)) := by
  obtain ⟨b, hb, hrecv⟩ := receipt (n := s.nodes i) hp
  have htables : SameTables (s.nodes i) b.1 := by
    cases hb with
    | ignored _ _ => exact sameTables_refl _
    | passed _ => exact sameTables_refl _
    | dropped _ _ =>
        unfold DAENode.handleDeaddrop
        simp only
        split
        · exact ⟨_, _, rfl⟩
        · exact ⟨_, _, rfl⟩
    | taken _ _ => exact ⟨_, _, rfl⟩
  simp only [System.step, System.deliver, hk, if_pos hdest, System.handle]
  refine noise_move (r := { s.relays i with node := b.1 }) hpools htables rfl rfl
    rfl (fun q hq => List.mem_of_mem_eraseIdx hq) ?_ ?_
  · intro q hq
    by_cases hqp : q = p
    · exact .inr (hqp ▸ hp)
    · exact .inl (mem_eraseIdx_of_ne hq hk hqp)
  · show Murmurs _ (Relay.handle _ _)
    rw [Relay.handle, show (s.relays i).node.receive p = _ from hrecv]
    exact performAll_murmurs b.1 b.2 _

/-- An application sends. -/
theorem noise_send {s : System ι} {i : ι} {j : Nat} {buf : List UInt8}
    (hpools : ∀ i, ∀ p ∈ held (s.relays i).pool, Harmless p) :
    Noise s (s.step (.send i j buf)) := by
  simp only [System.step, Relay.socketSend]
  cases hsock : (s.relays i).sockets[j]? with
  | none =>
      exact noise_move hpools (sameTables_refl _) rfl rfl rfl (fun _ h => h)
        (fun _ h => .inl h) (murmurs_refl _)
  | some sock =>
      refine noise_move (r := { s.relays i with
        sockets := (s.relays i).sockets.set j (sock.send buf).1 }) hpools
        (sameTables_refl _) rfl rfl rfl (fun _ h => h) (fun _ h => .inl h) ?_
      exact performAll_murmurs (s.nodes i) [(sock.send buf).2] _

/-! ## One handler, exactly -/

/-- The tasks an action leaves alone at the node that takes it. -/
def leftTasks (s : System ι) (i : ι) : Act ι → List Task
  | .runTask _ k => (s.relays i).tasks.eraseIdx k
  | _ => (s.relays i).tasks

/-- A firing, with what `After` leaves out: the other relays and the pool are
untouched, and the tasks are exactly those left alone and those scheduled. -/
structure Fired (s s' : System ι) (a : Act ι) (i : ι)
    (f : DAENode → DAENode × List Effect) (net : List AnonymousPacket) : Prop where
  fires : Fires s a i f net
  after : After s s' i (f (s.nodes i)) net
  others : ∀ j, j ≠ i → s'.relays j = s.relays j
  tasks : (s'.relays i).tasks =
    leftTasks s i a ++ (f (s.nodes i)).2.filterMap scheduled
  pool : (s'.relays i).pool = (s.relays i).pool

theorem performAll_pool {es : List Effect} {r : Relay} (h : ∀ e ∈ es, Quiet e) :
    (r.performAll es).1.pool = r.pool := by
  induction es generalizing r with
  | nil => rfl
  | cons e es ih =>
      rw [Relay.performAll]
      refine (ih fun x hx => h x (by simp [hx])).trans ?_
      cases e with
      | directSend p => rfl
      | safeSend p => exact absurd rfl (h _ (by simp) p)
      | schedule t => rfl

/-- The relay that runs a handler. -/
theorem move_handle {s : System ι} {i : ι} {r : Relay} (net : List AnonymousPacket)
    {f : DAENode → DAENode × List Effect} (hnode : r.node = s.nodes i)
    (hquiet : ∀ e ∈ (f (s.nodes i)).2, Quiet e) :
    let s' := System.move { s with net := net } i (r.handle f)
    (∀ j, j ≠ i → s'.relays j = s.relays j) ∧
      (s'.relays i).tasks = r.tasks ++ (f (s.nodes i)).2.filterMap scheduled ∧
      (s'.relays i).pool = r.pool := by
  intro s'
  have hself : s'.relays i = (r.handle f).1 := Function.update_self ..
  refine ⟨fun j hj => Function.update_of_ne hj .., ?_, ?_⟩
  · rw [hself, Relay.handle, hnode]
    exact (performAll_quiet hquiet).2.2.2.1
  · rw [hself, Relay.handle, hnode]
    exact performAll_pool hquiet

theorem fired {s : System ι} {a : Act ι} {i : ι}
    {f : DAENode → DAENode × List Effect} {net : List AnonymousPacket}
    (hf : Fires s a i f net) (ha : After s (s.step a) i (f (s.nodes i)) net)
    (hquiet : ∀ e ∈ (f (s.nodes i)).2, Quiet e) : Fired s (s.step a) a i f net := by
  have hplain : ∀ r : Relay, r.node = s.nodes i → r.pool = (s.relays i).pool →
      r.tasks = leftTasks s i a →
      s.step a = System.move { s with net := net } i (r.handle f) →
      Fired s (s.step a) a i f net := by
    intro r hnode hpool htasks hstep
    obtain ⟨hothers, htask, hp⟩ := move_handle net hnode hquiet
    rw [← hstep] at hothers htask hp
    exact ⟨hf, ha, hothers, htasks ▸ htask, hp.trans hpool⟩
  cases hf with
  | join h =>
      refine hplain { s.relays i with started := true } rfl rfl rfl ?_
      simp only [System.step, System.join, h, Bool.false_eq_true, if_false]
  | stabilize _ => exact hplain (s.relays i) rfl rfl rfl rfl
  | fixFingers _ => exact hplain (s.relays i) rfl rfl rfl rfl
  | fetchSuccessorList _ => exact hplain (s.relays i) rfl rfl rfl rfl
  | checkPredecessorFailure _ => exact hplain (s.relays i) rfl rfl rfl rfl
  | checkSuccessorFailure _ => exact hplain (s.relays i) rfl rfl rfl rfl
  | @runTask _ k t h =>
      refine hplain { s.relays i with tasks := (s.relays i).tasks.eraseIdx k }
        rfl rfl rfl ?_
      simp only [System.step, System.runTask, h]
  | deliver hk hdest =>
      refine hplain (s.relays i) rfl rfl rfl ?_
      simp only [System.step, System.deliver, hk, if_pos hdest, System.handle]

/-- Every step but a loss is noise or one handler of the upkeep. -/
theorem step_split {s : System ι} (hs : Sane R s) (a : Act ι)
    (hlose : ∀ k, a ≠ .lose k) :
    Noise s (s.step a) ∨ ∃ i f net, Fired s (s.step a) a i f net ∧
      ∀ k p, a = .deliver i k → s.net[k]? = some p → PacketOk R p := by
  by_cases happ : ∃ i k p, a = .deliver i k ∧ s.net[k]? = some p ∧ Harmless p
  · obtain ⟨i, k, p, rfl, hk, hp⟩ := happ
    by_cases hdest : p.dest = (s.relays i).addr
    · exact .inl (noise_deliver hs.pools hk hdest hp)
    · rw [deliver_elsewhere hk hdest]
      exact .inl (noise_refl hs.pools)
  have hpacket : ∀ i k p, a = .deliver i k → s.net[k]? = some p → PacketOk R p := by
    intro i k p hak hk
    refine (hs.net p (List.mem_of_getElem? hk)).resolve_left fun hp => ?_
    exact happ ⟨i, k, p, hak, hk, hp⟩
  have hquiet : ∀ i f net, Fires s a i f net → ∀ e ∈ (f (s.nodes i)).2, Quiet e :=
    fun i f net hf e he => ((fires_keeps (hs.node i) (hpacket i) hf).2 e he).quiet
  cases hup : a.Upkeep with
  | true =>
      rcases step_cases hup hquiet with hidle | ⟨i, f, net, hf, hafter⟩
      · refine .inl ?_
        cases a with
        | lose k => exact absurd rfl (hlose k)
        | duplicate k =>
            refine ⟨fun _ => sameTables_refl _, fun _ => rfl, fun _ => rfl,
              fun p hp => .inl (List.mem_append_left _ hp),
              fun p hp => .inl (hidle.net p hp), hs.pools⟩
        | _ =>
            rw [hidle.still rfl]
            exact noise_refl hs.pools
      · exact .inr ⟨i, f, net, fired hf hafter (hquiet i f net hf), hpacket i⟩
  | false =>
      refine .inl ?_
      cases a with
      | send i j buf => exact noise_send hs.pools
      | sendBatch i accept draws due =>
          exact noise_move hs.pools (sameTables_refl _) rfl rfl rfl (fun _ h => h)
            (fun _ h => .inl h) (sendBatch_murmurs (hs.pools i) accept draws due)
      | _ => cases hup

theorem Fired.sane {s s' : System ι} {a : Act ι} {i : ι}
    {f : DAENode → DAENode × List Effect} {net : List AnonymousPacket}
    (h : Fired s s' a i f net) (hs : Sane R s)
    (hpacket : ∀ k p, a = .deliver i k → s.net[k]? = some p → PacketOk R p) :
    Sane R s' := by
  have hkeeps := fires_keeps (hs.node i) hpacket h.fires
  refine ⟨fun j => (h.after.cfg j).trans (hs.cfg j), ?_, ?_, ?_⟩
  · intro j
    rw [h.after.nodes]
    by_cases hj : j = i
    · subst hj
      rw [Function.update_self]
      exact hkeeps.1
    · rw [Function.update_of_ne hj]
      exact hs.node j
  · intro p hp
    rw [h.after.net] at hp
    rcases List.mem_append.mp hp with hold | hnew
    · exact hs.net p (h.fires.net_subset p hold)
    · exact .inr (tame_sent hkeeps.2 p hnew)
  · intro j
    by_cases hj : j = i
    · subst hj
      rw [h.pool]
      exact hs.pools j
    · rw [h.others j hj]
      exact hs.pools j

end Daenet.Proofs
