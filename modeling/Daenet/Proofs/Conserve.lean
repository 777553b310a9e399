import Daenet.Proofs.Pool
import Daenet.Proofs.Routing

/-!
# The pool neither loses nor misdirects

A relay with a shuffle pool, its routing calls, its batches and the changes of
its finger table, in any order. Two facts carry the argument.

The address scan of `ShufflePool::send` knows every address the router can
choose: the node's own, or the address of a finger inside the table, because
the router took it from the same table a moment before. So the branch that
logs an error and forgets the packet is dead, whatever the table holds.

And from then on the table does not matter: a packet leaves for the address in
its own header, unchanged, so a finger that moves while a packet waits in its
slot does not redirect it.
-/

namespace Daenet.Proofs

open Daenet.Ref Daenet.Spec

/-- What can happen to a relay and its pool. -/
inductive PoolAct where
  | route (x : DAENode.ExternalMsg)
  | sendBatch (accept : Nat → Bool) (draws : Nat → ShufflePool.Draw) (due : Bool)
  | setTable (fingerTable : Int → ChordFinger)

/-- A relay, the packets its router has handed to `ShufflePool::send` so far,
and the packets passed to `DAE_direct_send` so far. -/
structure PoolRun where
  relay : Relay
  handed : List AnonymousPacket
  passed : List AnonymousPacket

namespace PoolRun

/-- A relay at its start. -/
def init (cfg : RelayConfig) : PoolRun := ⟨Relay.new cfg, [], []⟩

/-- One step; the routing call and the `send` it triggers are one. -/
def step (s : PoolRun) : PoolAct → PoolRun
  | .route x =>
      let a := s.relay.handle fun n => (n, [n.handleExternalMessaging x])
      { relay := a.1
        handed := s.handed ++
          (packetOf (s.relay.node.handleExternalMessaging x)).toList
        passed := s.passed ++ a.2 }
  | .sendBatch accept draws due =>
      let a := s.relay.sendBatch accept draws due
      { s with relay := a.1, passed := s.passed ++ a.2 }
  | .setTable ft =>
      { s with relay :=
          { s.relay with node := { s.relay.node with fingerTable := ft } } }

/-- A run. -/
def run (s : PoolRun) (acts : List PoolAct) : PoolRun := acts.foldl step s

/-- The packets the relay's pool holds. -/
def waiting (s : PoolRun) : List AnonymousPacket := held s.relay.pool

/-- What `ShufflePool::send` does with a packet now. -/
def sendNow (s : PoolRun) (p : AnonymousPacket) : ShufflePool.Sent :=
  ShufflePool.send s.relay.pool s.relay.node.fingerTable s.relay.node.m
    s.relay.cfg.relayIp s.relay.cfg.relayPort p

end PoolRun

/-- The parts of a relay that no step changes, and the size of its pool. -/
structure Fixed (cfg : RelayConfig) (r : Relay) : Prop where
  config : r.cfg = cfg
  m : r.node.m = cfg.ringBits
  ip : r.node.nodeIp = cfg.relayIp
  port : r.node.port = cfg.relayPort
  slots : r.pool.length = cfg.ringBits

/-- Every packet passed on is a dummy or was handed in, and what was handed in
was passed on once or waits in one queue. -/
def Conserved (s : PoolRun) : Prop :=
  ∃ ds released : List AnonymousPacket,
    (∀ d ∈ ds, s.relay.cfg.sendDummy = true ∧ ∃ f, d = ShufflePool.dummy f) ∧
      s.passed.Perm (ds ++ released) ∧ s.handed.Perm (released ++ s.waiting)

section

variable {cfg : RelayConfig} {n : DAENode} {r : Relay} {s : PoolRun}

theorem fixed_new (cfg : RelayConfig) : Fixed cfg (Relay.new cfg) :=
  ⟨rfl, rfl, rfl, rfl, List.length_replicate⟩

/-- The router chooses the node's own address or that of a finger, on any
table. -/
theorem route_addr (hm : 0 < n.m) (x : DAENode.ExternalMsg) :
    ∃ p, n.handleExternalMessaging x = .safeSend p ∧
      (p.dest = (n.nodeIp, n.port) ∨
        ∃ t < n.m, p.dest = (n.fingerTable t).addr) := by
  unfold DAENode.handleExternalMessaging
  split_ifs with hid htight hself
  · exact ⟨_, rfl, Or.inl rfl⟩
  · exact ⟨_, rfl, Or.inr ⟨0, hm, rfl⟩⟩
  · exact ⟨_, rfl, Or.inr ⟨0, hm, rfl⟩⟩
  · cases hscan : n.closestFinger x.destId n.m with
    | none =>
        refine absurd ?_ hself
        simp only [DAENode.findClosestPrecedingNode, hscan, Option.map_none,
          Option.getD_none]
    | some f =>
        obtain ⟨t, ht, rfl, _⟩ := closestFinger_some hscan
        obtain ⟨_, hip, hport⟩ := findClosest_of_scan hscan
        rw [hip, hport]
        exact ⟨_, rfl, Or.inr ⟨t, ht, rfl⟩⟩

/-- So `ShufflePool::send` queues the packet or sends it to the node itself. -/
theorem send_not_dropped (hr : Fixed cfg r) {p : AnonymousPacket}
    (hp : p.dest = (r.node.nodeIp, r.node.port) ∨
      ∃ t < r.node.m, p.dest = (r.node.fingerTable t).addr) :
    (∃ pool, ShufflePool.send r.pool r.node.fingerTable r.node.m
        r.cfg.relayIp r.cfg.relayPort p = .queued pool ∧
      pool.length = r.pool.length ∧ (held pool).Perm (p :: held r.pool)) ∨
    ShufflePool.send r.pool r.node.fingerTable r.node.m
      r.cfg.relayIp r.cfg.relayPort p = .direct := by
  unfold ShufflePool.send
  cases hslot : ShufflePool.slotFor r.node.fingerTable p.dest 0 r.node.m with
  | some j =>
      obtain ⟨_, hj, _⟩ := slotFor_some hslot
      refine Or.inl ⟨_, rfl, List.length_modify _ _ _, held_push ?_⟩
      rw [hr.slots, ← hr.m]
      omega
  | none =>
      rcases hp with hown | ⟨t, ht, hfinger⟩
      · refine Or.inr (if_pos ?_)
        rw [hown, hr.ip, hr.port, hr.config]
      · refine absurd hslot (slotFor_ne_none (Nat.zero_le t) ?_ hfinger)
        rwa [Nat.zero_add]

/-- A routing call keeps its packet in the pool or passes it on at once. -/
theorem route_cases_pool (hshuffle : cfg.shuffle = true)
    (hm : 0 < cfg.ringBits) (hr : Fixed cfg r) (x : DAENode.ExternalMsg) :
    ∃ p, packetOf (r.node.handleExternalMessaging x) = some p ∧
      ((∃ pool, pool.length = r.pool.length ∧
          (held pool).Perm (p :: held r.pool) ∧
          r.handle (fun n => (n, [n.handleExternalMessaging x])) =
            ({ r with pool := pool }, [])) ∨
        r.handle (fun n => (n, [n.handleExternalMessaging x])) =
          ({ r with counters := r.counters.directSend p }, [p])) := by
  obtain ⟨p, hp, haddr⟩ := route_addr (hr.m ▸ hm) x (n := r.node)
  refine ⟨p, congrArg packetOf hp, ?_⟩
  have hsh : r.cfg.shuffle = true := hr.config ▸ hshuffle
  simp only [Relay.handle, Relay.performAll, hp, Relay.perform, hsh, if_true]
  rcases send_not_dropped hr haddr with ⟨pool, hsend, hlen, hperm⟩ | hsend
  · exact Or.inl ⟨pool, hlen, hperm, by rw [hsend]; rfl⟩
  · exact Or.inr (by rw [hsend]; rfl)

theorem step_conserved (hshuffle : cfg.shuffle = true)
    (hm : 0 < cfg.ringBits) (hr : Fixed cfg s.relay) (hc : Conserved s)
    (a : PoolAct) : Fixed cfg (s.step a).relay ∧ Conserved (s.step a) := by
  obtain ⟨ds, released, hds, hpassed, hhanded⟩ := hc
  cases a with
  | route x =>
      obtain ⟨p, hp, ⟨pool, hlen, hheld, hstep⟩ | hstep⟩ :=
        route_cases_pool hshuffle hm hr x
      · simp only [PoolRun.step, hstep, hp, Option.toList_some, List.append_nil]
        refine ⟨⟨hr.config, hr.m, hr.ip, hr.port, hlen.trans hr.slots⟩,
          ds, released, hds, hpassed, ?_⟩
        calc s.handed ++ [p]
            _ |>.Perm (p :: (released ++ s.waiting)) :=
                (List.perm_append_singleton p _).trans (hhanded.cons p)
            _ |>.Perm (released ++ (p :: s.waiting)) := List.perm_middle.symm
            _ |>.Perm (released ++ held pool) := hheld.symm.append_left released
      · simp only [PoolRun.step, hstep, hp, Option.toList_some]
        refine ⟨⟨hr.config, hr.m, hr.ip, hr.port, hr.slots⟩,
          ds, released ++ [p], hds, ?_, ?_⟩
        · rw [← List.append_assoc]
          exact hpassed.append_right [p]
        · calc s.handed ++ [p]
              _ |>.Perm ((released ++ s.waiting) ++ [p]) := hhanded.append_right [p]
              _ |>.Perm ((released ++ [p]) ++ s.waiting) := by
                  rw [List.append_assoc, List.append_assoc]
                  exact List.perm_append_comm.append_left released
  | sendBatch accept draws due =>
      have hsh : s.relay.cfg.shuffle = true := hr.config ▸ hshuffle
      obtain ⟨hlen, ds', released', hds', hout, hheld⟩ := sendBatch_split
        s.relay.pool s.relay.node.fingerTable accept draws
        s.relay.cfg.sendDummy s.relay.cfg.debugShuffle due s.relay.counters
      simp only [PoolRun.step, Relay.sendBatch, hsh, if_true]
      refine ⟨⟨hr.config, hr.m, hr.ip, hr.port, hlen.trans hr.slots⟩,
        ds ++ ds', released ++ released', ?_, ?_, ?_⟩
      · intro d hd
        rcases List.mem_append.mp hd with hd | hd
        · exact hds d hd
        · exact hds' d hd
      · calc s.passed ++ _
            _ |>.Perm ((ds ++ released) ++ (ds' ++ released')) :=
                hpassed.append hout
            _ |>.Perm ((ds ++ ds') ++ (released ++ released')) := by
                simp only [List.append_assoc]
                exact (List.perm_append_comm_assoc ..).append_left ds
      · refine hhanded.trans ?_
        rw [List.append_assoc]
        exact hheld.append_left released
  | setTable ft =>
      exact ⟨⟨hr.config, hr.m, hr.ip, hr.port, hr.slots⟩, ds, released, hds,
        hpassed, hhanded⟩

theorem run_conserved (hshuffle : cfg.shuffle = true) (hm : 0 < cfg.ringBits)
    (acts : List PoolAct) :
    ∀ s : PoolRun, Fixed cfg s.relay → Conserved s →
      Fixed cfg (s.run acts).relay ∧ Conserved (s.run acts) := by
  induction acts with
  | nil => exact fun s hr hc => ⟨hr, hc⟩
  | cons a acts ih =>
      intro s hr hc
      obtain ⟨hr', hc'⟩ := step_conserved hshuffle hm hr hc a
      exact ih (s.step a) hr' hc'

/-- After any run of a relay with a shuffle pool: the error branch of `send` is
not reached by the next routing call either, whatever it routes; the packets
passed to `DAE_direct_send` are dummies and packets handed in, unchanged; and
the packets handed in are those passed on and those waiting, each once. -/
theorem pool_conserves (hshuffle : cfg.shuffle = true) (hm : 0 < cfg.ringBits)
    (acts : List PoolAct) :
    let s := (PoolRun.init cfg).run acts
    (∀ x, ∃ p, s.relay.node.handleExternalMessaging x = .safeSend p ∧
      s.sendNow p ≠ .dropped) ∧
    ∃ dummies released : List AnonymousPacket,
      (∀ d ∈ dummies, cfg.sendDummy = true ∧ ∃ f, d = ShufflePool.dummy f) ∧
        s.passed.Perm (dummies ++ released) ∧
        s.handed.Perm (released ++ s.waiting) := by
  have hinit : Conserved (PoolRun.init cfg) := by
    refine ⟨[], [], fun d hd => (by cases hd), List.Perm.refl _, ?_⟩
    show [].Perm ([] ++ held (ShufflePool.new cfg.ringBits))
    rw [held_new]
    exact List.Perm.refl _
  obtain ⟨hr, ds, released, hds, hpassed, hhanded⟩ :=
    run_conserved hshuffle hm acts (PoolRun.init cfg) (fixed_new cfg) hinit
  refine ⟨fun x => ?_, ds, released, ?_, hpassed, hhanded⟩
  · obtain ⟨p, hp, haddr⟩ := route_addr (hr.m ▸ hm) x
    refine ⟨p, hp, ?_⟩
    rcases send_not_dropped hr haddr with ⟨pool, hsend, _⟩ | hsend
    · rw [PoolRun.sendNow, hsend]
      exact fun h => by cases h
    · rw [PoolRun.sendNow, hsend]
      exact fun h => by cases h
  · rw [← hr.config]
    exact hds

end

/-- Node 0 routes a message for node 1, loses its finger and then releases the
message. -/
def pairRelease : List PoolAct :=
  [.setTable (pairNodes 0).fingerTable,
    .route ⟨false, 1, 0, .externalDeaddropMessaging, 1, 0, [7], 1⟩,
    .setTable (DAENode.new (pairRoster.cfg 0)).fingerTable,
    .sendBatch (fun _ => true) (fun _ => ⟨0, 0⟩) false]

theorem pool_conserves_pair :
    let s := (PoolRun.init (pairRoster.cfg 0)).run pairRelease
    s.passed.map AnonymousPacket.dest = [pairRoster.addr 1] ∧
      ∃ dummies released : List AnonymousPacket,
        (∀ d ∈ dummies, (pairRoster.cfg 0).sendDummy = true ∧
          ∃ f, d = ShufflePool.dummy f) ∧
          s.passed.Perm (dummies ++ released) ∧
          s.handed.Perm (released ++ s.waiting) :=
  ⟨by decide, (pool_conserves rfl (by decide) pairRelease).2⟩

end Daenet.Proofs
