import Daenet.Spec.Ring

/-!
# Steps of the ring's upkeep

A step of the system that is not about application messages runs one handler
at one node: a timer's, a task's, or the receive loop's on a datagram that was
in flight. `Fires` says which handler an action runs, and `step_cases` says
everything such a step leaves behind — one node replaced, the handler's
datagrams added, the rest as before. No proof below looks into `step` again.

The handlers of the upkeep send directly and never through the pool
(`Quiet`), so the pools play no part.

`Holds` is the plainest kind of invariant, one predicate for the nodes, one
for the datagrams and one for the pending tasks; `run_holds` is the induction
over runs, done once.
-/

namespace Daenet.Ref

/-- The actions that are not about application messages. -/
def Act.Upkeep {ι : Type} : Act ι → Bool
  | .send _ _ _ => false
  | .sendBatch _ _ _ _ => false
  | _ => true

/-- The actions that leave every datagram in flight exactly once. -/
def Act.Reliable {ι : Type} : Act ι → Bool
  | .lose _ => false
  | .duplicate _ => false
  | _ => true

/-- The states of the nodes. -/
def System.nodes {ι : Type} (s : System ι) (i : ι) : DAENode := (s.relays i).node

end Daenet.Ref

namespace Daenet.Proofs

open Daenet.Ref Daenet.Spec

variable {ι : Type}

/-! ## Effects -/

/-- The datagram an effect sends at once. -/
def sent : Effect → Option AnonymousPacket
  | .directSend p => some p
  | .safeSend _ => none
  | .schedule _ => none

/-- The task an effect leaves for later. -/
def scheduled : Effect → Option Task
  | .directSend _ => none
  | .safeSend _ => none
  | .schedule t => some t

/-- An effect that does not go through the pool. -/
def Quiet (e : Effect) : Prop := ∀ p, e ≠ .safeSend p

theorem perform_quiet {r : Relay} {e : Effect} (h : Quiet e) :
    (r.perform e).1.node = r.node ∧ (r.perform e).1.cfg = r.cfg ∧
      (r.perform e).1.started = r.started ∧
      (r.perform e).1.tasks = r.tasks ++ (scheduled e).toList ∧
      (r.perform e).2 = (sent e).toList := by
  cases e with
  | directSend p => simp [Relay.perform, sent, scheduled]
  | safeSend p => exact absurd rfl (h p)
  | schedule t => simp [Relay.perform, sent, scheduled]

theorem performAll_quiet {es : List Effect} {r : Relay} (h : ∀ e ∈ es, Quiet e) :
    (r.performAll es).1.node = r.node ∧ (r.performAll es).1.cfg = r.cfg ∧
      (r.performAll es).1.started = r.started ∧
      (r.performAll es).1.tasks = r.tasks ++ es.filterMap scheduled ∧
      (r.performAll es).2 = es.filterMap sent := by
  induction es generalizing r with
  | nil => simp [Relay.performAll]
  | cons e es ih =>
      obtain ⟨hnode, hcfg, hstart, htask, hout⟩ := perform_quiet (r := r)
        (h e (by simp))
      obtain ⟨hnode', hcfg', hstart', htask', hout'⟩ := ih (r := (r.perform e).1)
        (fun x hx => h x (by simp [hx]))
      rw [Relay.performAll]
      refine ⟨hnode'.trans hnode, hcfg'.trans hcfg, hstart'.trans hstart, ?_, ?_⟩
      · rw [htask', htask, List.append_assoc]
        cases hs : scheduled e <;> simp [hs]
      · show (r.perform e).2 ++ ((r.perform e).1.performAll es).2 = _
        rw [hout, hout']
        cases hs : sent e <;> simp [hs]

/-! ## What a step leaves -/

/-- The handler an action runs: at which node, and with which datagrams left in
flight when it starts. -/
inductive Fires (s : System ι) :
    Act ι → ι → (DAENode → DAENode × List Effect) → List AnonymousPacket → Prop where
  | join {i : ι} (h : (s.relays i).started = false) :
      Fires s (.join i) i (fun n => n.join (s.relays i).cfg.initPeers) s.net
  | stabilize (i : ι) : Fires s (.stabilize i) i DAENode.stabilize s.net
  | fixFingers (i : ι) : Fires s (.fixFingers i) i DAENode.fixFingers s.net
  | fetchSuccessorList (i : ι) :
      Fires s (.fetchSuccessorList i) i (fun n => (n, n.fetchSuccessorList)) s.net
  | checkPredecessorFailure (i : ι) :
      Fires s (.checkPredecessorFailure i) i DAENode.checkPredecessorFailure s.net
  | checkSuccessorFailure (i : ι) :
      Fires s (.checkSuccessorFailure i) i DAENode.checkSuccessorFailure s.net
  | runTask {i : ι} {k : Nat} {t : Task} (h : (s.relays i).tasks[k]? = some t) :
      Fires s (.runTask i k) i (fun n => n.runTask (s.relays i).cfg.initPeers t) s.net
  | deliver {i : ι} {k : Nat} {p : AnonymousPacket} (h : s.net[k]? = some p)
      (hdest : p.dest = (s.relays i).addr) :
      Fires s (.deliver i k) i (fun n => n.receive p) (s.net.eraseIdx k)

theorem Fires.net_subset {s : System ι} {a : Act ι} {i : ι}
    {f : DAENode → DAENode × List Effect} {net : List AnonymousPacket}
    (h : Fires s a i f net) : ∀ p ∈ net, p ∈ s.net := by
  cases h with
  | deliver h hdest => exact fun p hp => List.mem_of_mem_eraseIdx hp
  | _ => exact fun p hp => hp

/-- A step that runs no handler: a disabled action, a loss or a duplication. -/
structure Idle (s : System ι) (a : Act ι) (s' : System ι) : Prop where
  relays : s'.relays = s.relays
  net : ∀ p ∈ s'.net, p ∈ s.net
  still : a.Reliable = true → s' = s

theorem idle_refl (s : System ι) (a : Act ι) : Idle s a s :=
  ⟨rfl, fun _ h => h, fun _ => rfl⟩

variable [DecidableEq ι]

/-- Everything a firing leaves: `r` is what the handler answered. -/
structure After (s s' : System ι) (i : ι) (r : DAENode × List Effect)
    (net : List AnonymousPacket) : Prop where
  nodes : s'.nodes = Function.update s.nodes i r.1
  net : s'.net = net ++ r.2.filterMap sent
  cfg : ∀ j, (s'.relays j).cfg = (s.relays j).cfg
  started : ∀ j, (s.relays j).started = true → (s'.relays j).started = true
  tasks : ∀ j, ∀ t ∈ (s'.relays j).tasks,
    t ∈ (s.relays j).tasks ∨ (j = i ∧ t ∈ r.2.filterMap scheduled)

/-- A relay's handler, seen from the system. -/
theorem after_move (s : System ι) (i : ι) (r₀ : Relay)
    (net : List AnonymousPacket) (f : DAENode → DAENode × List Effect)
    (hnode : r₀.node = s.nodes i) (hcfg : r₀.cfg = (s.relays i).cfg)
    (hstart : (s.relays i).started = true → r₀.started = true)
    (htasks : ∀ t ∈ r₀.tasks, t ∈ (s.relays i).tasks)
    (hquiet : ∀ e ∈ (f (s.nodes i)).2, Quiet e) :
    After s (System.move { s with net := net } i (r₀.handle f)) i
      (f (s.nodes i)) net := by
  have hquiet' : ∀ e ∈ (f r₀.node).2, Quiet e := by
    rw [hnode]
    exact hquiet
  obtain ⟨hn, hc, hst, ht, hout⟩ :=
    performAll_quiet (r := { r₀ with node := (f r₀.node).1 }) hquiet'
  have hself : (System.move { s with net := net } i (r₀.handle f)).relays i =
      (r₀.handle f).1 := Function.update_self ..
  have hother : ∀ j, j ≠ i →
      (System.move { s with net := net } i (r₀.handle f)).relays j = s.relays j :=
    fun j hj => Function.update_of_ne hj ..
  refine ⟨?_, ?_, ?_, ?_, ?_⟩
  · funext j
    by_cases hj : j = i
    · subst hj
      rw [Function.update_self, System.nodes, hself]
      exact hn.trans (by rw [hnode])
    · rw [Function.update_of_ne hj, System.nodes, hother j hj, System.nodes]
  · rw [← hnode]
    exact congrArg (net ++ ·) hout
  · intro j
    by_cases hj : j = i
    · subst hj
      rw [hself]
      exact hc.trans hcfg
    · rw [hother j hj]
  · intro j hj
    by_cases hji : j = i
    · subst hji
      rw [hself]
      exact hst.trans (hstart hj)
    · rw [hother j hji]
      exact hj
  · intro j t hmem
    by_cases hji : j = i
    · subst hji
      rw [hself] at hmem
      rw [show (r₀.handle f).1.tasks = _ from ht, hnode] at hmem
      rcases List.mem_append.mp hmem with hold | hnew
      · exact Or.inl (htasks t hold)
      · exact Or.inr ⟨rfl, hnew⟩
    · rw [hother j hji] at hmem
      exact Or.inl hmem

/-- A handler run with everything else as it is. -/
theorem after_handle {s : System ι} {i : ι} {f : DAENode → DAENode × List Effect}
    (hquiet : ∀ e ∈ (f (s.nodes i)).2, Quiet e) :
    After s (s.handle i f) i (f (s.nodes i)) s.net :=
  after_move s i (s.relays i) s.net f rfl rfl id (fun _ h => h) hquiet

/-- A datagram handed to the node it is addressed to. -/
theorem after_deliver {s : System ι} {i : ι} {k : Nat} {p : AnonymousPacket}
    (hk : s.net[k]? = some p) (hdest : p.dest = (s.relays i).addr)
    (hquiet : ∀ e ∈ ((s.nodes i).receive p).2, Quiet e) :
    After s (s.step (.deliver i k)) i ((s.nodes i).receive p)
      (s.net.eraseIdx k) := by
  simp only [System.step, System.deliver, hk, if_pos hdest]
  exact after_move s i _ _ (fun n => n.receive p) rfl rfl id (fun _ h => h) hquiet

theorem deliver_elsewhere {s : System ι} {i : ι} {k : Nat} {p : AnonymousPacket}
    (hk : s.net[k]? = some p) (hdest : p.dest ≠ (s.relays i).addr) :
    s.step (.deliver i k) = s := by
  simp only [System.step, System.deliver, hk, if_neg hdest]

/-- An upkeep step runs one handler or none. -/
theorem step_cases {s : System ι} {a : Act ι} (ha : a.Upkeep = true)
    (hquiet : ∀ i f net, Fires s a i f net → ∀ e ∈ (f (s.nodes i)).2, Quiet e) :
    Idle s a (s.step a) ∨
      ∃ i f net, Fires s a i f net ∧ After s (s.step a) i (f (s.nodes i)) net := by
  have hplain : ∀ i f, Fires s a i f s.net →
      After s (s.handle i f) i (f (s.nodes i)) s.net :=
    fun i f hf => after_handle (hquiet i f s.net hf)
  cases a with
  | join i =>
      simp only [System.step, System.join]
      split
      · exact Or.inl (idle_refl s _)
      · next hstart =>
          have hf := Fires.join (s := s) (i := i) (by simpa using hstart)
          exact Or.inr ⟨i, _, _, hf, after_move s i _ s.net _ rfl rfl
            (fun _ => rfl) (fun _ h => h) (hquiet _ _ _ hf)⟩
  | stabilize i =>
      exact Or.inr ⟨i, _, _, .stabilize i, hplain i _ (.stabilize i)⟩
  | fixFingers i =>
      exact Or.inr ⟨i, _, _, .fixFingers i, hplain i _ (.fixFingers i)⟩
  | fetchSuccessorList i =>
      exact Or.inr ⟨i, _, _, .fetchSuccessorList i,
        hplain i _ (.fetchSuccessorList i)⟩
  | checkPredecessorFailure i =>
      exact Or.inr ⟨i, _, _, .checkPredecessorFailure i,
        hplain i _ (.checkPredecessorFailure i)⟩
  | checkSuccessorFailure i =>
      exact Or.inr ⟨i, _, _, .checkSuccessorFailure i,
        hplain i _ (.checkSuccessorFailure i)⟩
  | runTask i k =>
      simp only [System.step, System.runTask]
      cases htask : (s.relays i).tasks[k]? with
      | none => exact Or.inl (idle_refl s _)
      | some t =>
          have hf := Fires.runTask (s := s) (i := i) htask
          exact Or.inr ⟨i, _, _, hf, after_move s i _ s.net _ rfl rfl id
            (fun _ h => List.mem_of_mem_eraseIdx h) (hquiet _ _ _ hf)⟩
  | deliver i k =>
      cases hk : s.net[k]? with
      | none =>
          simp only [System.step, System.deliver, hk]
          exact Or.inl (idle_refl s _)
      | some p =>
          by_cases hdest : p.dest = (s.relays i).addr
          · have hf := Fires.deliver (s := s) (i := i) hk hdest
            exact Or.inr ⟨i, _, _, hf, after_deliver hk hdest (hquiet _ _ _ hf)⟩
          · rw [deliver_elsewhere hk hdest]
            exact Or.inl (idle_refl s _)
  | lose k =>
      exact Or.inl ⟨rfl, fun p hp => List.mem_of_mem_eraseIdx hp,
        fun h => by cases h⟩
  | duplicate k =>
      refine Or.inl ⟨rfl, ?_, fun h => by cases h⟩
      intro p hp
      rcases List.mem_append.mp hp with hold | hnew
      · exact hold
      · exact List.mem_of_getElem? (Option.mem_toList.mp hnew)
  | send i j buf => cases ha
  | sendBatch i accept draws due => cases ha

/-! ## Invariants of nodes, datagrams and tasks -/

/-- A quiet effect whose datagram and task satisfy the predicates. -/
def Tame (Q : AnonymousPacket → Prop) (T : Task → Prop) : Effect → Prop
  | .directSend p => Q p
  | .safeSend _ => False
  | .schedule t => T t

/-- Any task may be pending. -/
def anyTask : ι → Task → Prop := fun _ _ => True

/-- A predicate for every node, every datagram in flight and every pending
task, of relays with the given configuration. -/
structure Holds (cfg : ι → RelayConfig) (N : ι → DAENode → Prop)
    (Q : AnonymousPacket → Prop) (T : ι → Task → Prop) (s : System ι) : Prop where
  cfg : ∀ i, (s.relays i).cfg = cfg i
  node : ∀ i, N i (s.nodes i)
  net : ∀ p ∈ s.net, Q p
  task : ∀ i, ∀ t ∈ (s.relays i).tasks, T i t

variable {cfg : ι → RelayConfig} {N : ι → DAENode → Prop}
  {Q : AnonymousPacket → Prop} {T : ι → Task → Prop} {U : Task → Prop}

theorem Tame.quiet {e : Effect} (h : Tame Q U e) : Quiet e := by
  intro p hp
  rw [hp] at h
  exact h

theorem tame_sent {es : List Effect} (h : ∀ e ∈ es, Tame Q U e) :
    ∀ p ∈ es.filterMap sent, Q p := by
  intro p hp
  obtain ⟨e, he, hsent⟩ := List.mem_filterMap.mp hp
  have ht := h e he
  cases e with
  | directSend q =>
      injection hsent with hsent
      subst hsent
      exact ht
  | safeSend q => cases hsent
  | schedule t => cases hsent

theorem tame_scheduled {es : List Effect} (h : ∀ e ∈ es, Tame Q U e) :
    ∀ t ∈ es.filterMap scheduled, U t := by
  intro t ht
  obtain ⟨e, he, hsched⟩ := List.mem_filterMap.mp ht
  have htame := h e he
  cases e with
  | directSend q => cases hsched
  | safeSend q => cases hsched
  | schedule u =>
      injection hsched with hsched
      subst hsched
      exact htame

/-- What a handler's answer must satisfy. -/
def Keeps (N : ι → DAENode → Prop) (Q : AnonymousPacket → Prop)
    (T : ι → Task → Prop) (i : ι) (r : DAENode × List Effect) : Prop :=
  N i r.1 ∧ ∀ e ∈ r.2, Tame Q (T i) e

theorem step_holds {s : System ι} {a : Act ι} (ha : a.Upkeep = true)
    (hs : Holds cfg N Q T s)
    (hfire : ∀ i f net, Fires s a i f net → Keeps N Q T i (f (s.nodes i))) :
    Holds cfg N Q T (s.step a) := by
  rcases step_cases ha (fun i f net hf e he => ((hfire i f net hf).2 e he).quiet)
    with hidle | ⟨i, f, net, hf, hafter⟩
  · refine ⟨?_, ?_, fun p hp => hs.net p (hidle.net p hp), ?_⟩
    · intro i
      rw [hidle.relays]
      exact hs.cfg i
    · intro i
      rw [System.nodes, hidle.relays]
      exact hs.node i
    · intro i
      rw [hidle.relays]
      exact hs.task i
  · obtain ⟨hnode, heff⟩ := hfire i f net hf
    refine ⟨fun j => (hafter.cfg j).trans (hs.cfg j), ?_, ?_, ?_⟩
    · intro j
      rw [hafter.nodes]
      by_cases hj : j = i
      · subst hj
        rw [Function.update_self]
        exact hnode
      · rw [Function.update_of_ne hj]
        exact hs.node j
    · intro p hp
      rw [hafter.net] at hp
      rcases List.mem_append.mp hp with hold | hnew
      · exact hs.net p (hf.net_subset p hold)
      · exact tame_sent heff p hnew
    · intro j t ht
      rcases hafter.tasks j t ht with hold | ⟨rfl, hnew⟩
      · exact hs.task j t hold
      · exact tame_scheduled heff t hnew

/-- The induction over runs: a predicate every firing keeps holds throughout. -/
theorem run_holds (allowed : Act ι → Prop)
    (hupkeep : ∀ a, allowed a → a.Upkeep = true)
    (hfire : ∀ s a i f net, allowed a → Holds cfg N Q T s → Fires s a i f net →
      Keeps N Q T i (f (s.nodes i)))
    (acts : List (Act ι)) (hacts : ∀ a ∈ acts, allowed a) :
    ∀ s, Holds cfg N Q T s → Holds cfg N Q T (s.run acts) := by
  induction acts with
  | nil => exact fun s hs => hs
  | cons a acts ih =>
      intro s hs
      have ha := hacts a (by simp)
      exact ih (fun x hx => hacts x (by simp [hx])) (s.step a)
        (step_holds (hupkeep a ha) hs (fun i f net => hfire s a i f net ha hs))

end Daenet.Proofs
