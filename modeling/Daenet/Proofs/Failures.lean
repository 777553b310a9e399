import Daenet.Proofs.Steps

/-!
# Failure checks

A node watches its two neighbours in rounds: the round clears a flag, sends a
few questions, and a timer at its end takes the neighbour away if the flag is
still clear. The flag is set by an answer, compared with the neighbour of the
moment; which neighbour was asked, nobody remembers. So the verdict is about
the neighbour of the end, and the evidence may be about another one.

`Watch` is what does hold: while a round is on, its flag is clear and the
neighbour lives, a question is still to be sent, or one to this neighbour is
under way, or its answer is. Nothing in the network breaks it. What breaks it
is a step that replaces the neighbour when no question is left to be sent to
the new one, or puts the node itself there, whose answers do not count. Without
such steps, every verdict is against a dead node.
-/

namespace Daenet.Ref

/-- The node that takes an action. -/
def Act.actor {ι : Type} : Act ι → Option ι
  | .join i => some i
  | .stabilize i => some i
  | .fixFingers i => some i
  | .fetchSuccessorList i => some i
  | .checkPredecessorFailure i => some i
  | .checkSuccessorFailure i => some i
  | .runTask i _ => some i
  | .deliver i _ => some i
  | .lose _ => none
  | .duplicate _ => none
  | .send i _ _ => some i
  | .sendBatch i _ _ _ => some i

/-- The system, and which of its nodes have died. -/
structure Mortal (ι : Type) where
  system : System ι
  dead : ι → Bool

/-- An action, or a death. -/
inductive Event (ι : Type) where
  | act (a : Act ι)
  | die (i : ι)

namespace Mortal

variable {ι : Type} [DecidableEq ι]

/-- The dead do nothing; what is sent to them is never delivered. -/
def step (s : Mortal ι) : Event ι → Mortal ι
  | .act a => if a.actor.any s.dead then s
      else { s with system := s.system.step a }
  | .die i => { s with dead := Function.update s.dead i true }

/-- `P` holds of every step of a run. -/
def Always (P : Mortal ι → Event ι → Prop) : Mortal ι → List (Event ι) → Prop
  | _, [] => True
  | s, e :: es => P s e ∧ Always P (s.step e) es

end Mortal

/-! ## The two sides -/

/-- The neighbour a check is about. -/
inductive Side where
  | predecessor
  | successor
  deriving DecidableEq, Repr

namespace Side

def neighbour : Side → DAENode → Nat
  | .predecessor, n => n.predecessor
  | .successor, n => n.successor

def onchecking : Side → DAENode → Bool
  | .predecessor, n => n.predecessorOnchecking
  | .successor, n => n.successorOnchecking

def status : Side → DAENode → Bool
  | .predecessor, n => n.predecessorStatus
  | .successor, n => n.successorStatus

def check : Side → Task
  | .predecessor => .checkPredecessorExistence
  | .successor => .checkSuccessorExistence

def timeout : Side → Task
  | .predecessor => .predecessorTimeout
  | .successor => .successorTimeout

def question : Side → Message
  | .predecessor => .internalCheckPredecessorExistence
  | .successor => .internalCheckSuccessorExistence

def answer : Side → Message
  | .predecessor => .internalReplyPredecessorExistence
  | .successor => .internalReplySuccessorExistence

/-- The timer, run now, takes the neighbour away: it sets `predecessor` to `-1`,
or it has a backup to replace `finger_table[0]` with. -/
def Discards : Side → DAENode → Prop
  | .predecessor, n => n.predecessorStatus = false
  | .successor, n =>
      n.successorStatus = false ∧ n.successorTimeout.successorList ≠ []

end Side

end Daenet.Ref

namespace Daenet.Proofs

open Daenet.Ref Daenet.Spec

section

variable {ι : Type} [DecidableEq ι]

/-- The timer of a round of node `i` fires. -/
def Expires (s : Mortal ι) (σ : Side) (i : ι) (e : Event ι) : Prop :=
  ∃ k, e = .act (.runTask i k) ∧ s.dead i = false ∧
    (s.system.relays i).tasks[k]? = some σ.timeout

/-- Node `i` has sent its questions, those to live nodes have been delivered,
and so have the answers. -/
structure Answered (s : Mortal ι) (σ : Side) (i : ι) : Prop where
  sent : σ.check ∉ (s.system.relays i).tasks
  asked : ∀ p ∈ s.system.net, p.header.id = σ.question →
    p.replyTo = (s.system.relays i).addr →
    ∀ j, p.dest = (s.system.relays j).addr → s.dead j = true
  answered : ∀ p ∈ s.system.net, p.header.id = σ.answer →
    p.dest ≠ (s.system.relays i).addr

/-- No packet is lost, and every check is answered before the timer of its
round fires. -/
def Timely (s : Mortal ι) (e : Event ι) : Prop :=
  (∀ k, e ≠ .act (.lose k)) ∧ ∀ σ i, Expires s σ i e → Answered s σ i

/-- A timer takes away dead neighbours only. -/
def Spares (R : Roster ι) (s : Mortal ι) (e : Event ι) : Prop :=
  ∀ σ i, Expires s σ i e → Side.Discards σ (s.system.nodes i) →
    ∀ j, σ.neighbour (s.system.nodes i) = R.id j → s.dead j = true

/-- A round has questions; and a step that replaces a neighbour in a round whose
flag is clear leaves one of them to be sent, and does not make the node its own
successor. -/
structure Covered (s : Mortal ι) (e : Event ι) : Prop where
  asks : ∀ (σ : Side) i, σ.onchecking (s.system.nodes i) = false →
    σ.onchecking ((s.step e).system.nodes i) = true →
    0 < (s.system.nodes i).recheck
  replaces : ∀ (σ : Side) i, σ.neighbour ((s.step e).system.nodes i) ≠
      σ.neighbour (s.system.nodes i) →
    σ.onchecking ((s.step e).system.nodes i) = true →
    σ.status ((s.step e).system.nodes i) = false →
    σ.check ∈ ((s.step e).system.relays i).tasks ∧
      (σ = .successor → σ.neighbour ((s.step e).system.nodes i) ≠
        (s.system.nodes i).id)

end

/-! ## What a handler does to a side -/

/-- A handler keeps the round as it is, perhaps setting the flag; or it starts
one; or it is the timer that ends it. -/
inductive Turn (σ : Side) (n : DAENode) (t : Option Task) :
    DAENode × List Effect → Prop where
  | keeps {r : DAENode × List Effect} (hon : σ.onchecking r.1 = σ.onchecking n)
      (hstatus : σ.status r.1 = σ.status n ∨ σ.status r.1 = true)
      (ht : t ≠ some σ.timeout) (hnew : σ.timeout ∉ r.2.filterMap scheduled) :
      Turn σ n t r
  | starts {r : DAENode × List Effect} (hoff : σ.onchecking n = false)
      (hon : σ.onchecking r.1 = true)
      (hneighbour : σ.neighbour r.1 = σ.neighbour n)
      (hown : σ = .successor → σ.neighbour n ≠ n.id) (ht : t = none)
      (hnew : r.2.filterMap scheduled =
        List.replicate n.recheck σ.check ++ [σ.timeout]) :
      Turn σ n t r
  | ends {r : DAENode × List Effect} (hoff : σ.onchecking r.1 = false)
      (ht : t = some σ.timeout) (hnew : r.2.filterMap scheduled = []) :
      Turn σ n t r

/-- The four flags are as before. -/
def SameFlags (n n' : DAENode) : Prop :=
  ∀ σ : Side, σ.onchecking n' = σ.onchecking n ∧ σ.status n' = σ.status n

section

variable {n n' : DAENode} {σ : Side} {t : Option Task}

theorem sameFlags_refl (n : DAENode) : SameFlags n n := fun _ => ⟨rfl, rfl⟩

theorem sameFlags_setFinger (n : DAENode) (k : Int) (p : PeerPair) :
    SameFlags n (n.setFinger k p) := by
  intro σ
  cases σ <;> exact ⟨rfl, rfl⟩

theorem SameFlags.trans {n'' : DAENode} (h : SameFlags n n') (h' : SameFlags n' n'') :
    SameFlags n n'' :=
  fun σ => ⟨(h' σ).1.trans (h σ).1, (h' σ).2.trans (h σ).2⟩

theorem SameFlags.turn {es : List Effect} (h : SameFlags n n')
    (ht : t ≠ some σ.timeout) (hnew : σ.timeout ∉ es.filterMap scheduled) :
    Turn σ n t (n', es) :=
  .keeps (h σ).1 (.inl (h σ).2) ht hnew

theorem SameFlags.silent {r : DAENode × List Effect} (h : SameFlags n r.1)
    (ht : t ≠ some σ.timeout) (hes : r.2.filterMap scheduled = []) : Turn σ n t r :=
  h.turn ht (by rw [hes]; exact List.not_mem_nil)

theorem adopt_flags (n : DAENode) : SameFlags n (adopt n) := by
  unfold adopt
  split
  · exact sameFlags_setFinger n _ _
  · exact sameFlags_refl n

/-- A lookup schedules nothing. -/
theorem lookup_scheduled (n : DAENode) (ip : String) (port index : Int) (k : Nat) :
    scheduled (n.handleFindSuccessor ip port index k) = none := by
  unfold DAENode.handleFindSuccessor
  split_ifs <;> rfl

theorem lookUp_scheduled (n : DAENode) (t : Nat) :
    [lookUp n t].filterMap scheduled = [] :=
  List.filterMap_cons_none (lookup_scheduled n _ _ _ _)

theorem stabilize_flags (n : DAENode) :
    SameFlags n n.stabilize.1 ∧ n.stabilize.2.filterMap scheduled = [] := by
  rw [stabilize_eq]
  refine ⟨adopt_flags n, ?_⟩
  split <;> rfl

theorem fixFingers_flags (n : DAENode) :
    SameFlags n n.fixFingers.1 ∧ n.fixFingers.2.filterMap scheduled = [] := by
  refine fixFingers_induct
    (P := fun n' es => SameFlags n n' ∧ es.filterMap scheduled = []) ⟨?_, ?_⟩ ?_ ?_
  · exact sameFlags_refl n
  · exact lookUp_scheduled n 0
  · intro n' es t _ hP _
    exact ⟨hP.1.trans (sameFlags_setFinger n' _ _), hP.2⟩
  · intro n' es t _ hP _
    refine ⟨hP.1, ?_⟩
    rw [List.filterMap_append, hP.2, List.nil_append]
    exact lookUp_scheduled n' (t + 1)

theorem joinWithHelp_scheduled (n : DAENode) (peer : PeerPair) :
    (n.joinWithHelp peer).filterMap scheduled = [.joinRetry] := rfl

theorem join_turn (n : DAENode) (peer : PeerPair) (ht : t ≠ some σ.timeout) :
    Turn σ n t (n.join peer) := by
  obtain ⟨hs, hses⟩ := stabilize_flags n
  obtain ⟨hf, hfes⟩ := fixFingers_flags n.stabilize.1
  refine (hs.trans hf).turn ht ?_
  simp only [List.filterMap_append, hses, hfes, List.append_nil]
  intro hmem
  rcases List.mem_append.mp hmem with hmem | hmem
  · split at hmem
    · rw [joinWithHelp_scheduled] at hmem
      cases σ <;> cases List.mem_singleton.mp hmem
    · cases hmem
  · cases hmem

theorem replicate_scheduled (k : Nat) (a b : Task) :
    (List.replicate k (Effect.schedule a) ++ [Effect.schedule b]).filterMap scheduled =
      List.replicate k a ++ [b] := by
  rw [List.filterMap_append,
    List.filterMap_replicate_of_some (f := scheduled) (a := .schedule a) rfl]
  rfl

theorem check_ne_timeout (σ τ : Side) : σ.check ≠ τ.timeout := by
  cases σ <;> cases τ <;> simp [Side.check, Side.timeout]

theorem timeout_notMem (k : Nat) {τ : Side} (h : τ ≠ σ) :
    σ.timeout ∉ List.replicate k τ.check ++ [τ.timeout] := by
  intro hmem
  rcases List.mem_append.mp hmem with hmem | hmem
  · exact check_ne_timeout τ σ (List.eq_of_mem_replicate hmem).symm
  · have := List.mem_singleton.mp hmem
    cases σ <;> cases τ <;> first | exact h rfl | cases this

theorem checkPredecessorFailure_turn (ht : t = none) :
    Turn σ n t n.checkPredecessorFailure := by
  subst ht
  unfold DAENode.checkPredecessorFailure
  split
  · next h =>
      cases σ with
      | predecessor =>
          exact .starts h.1 rfl rfl (fun hσ => by cases hσ) rfl
            (replicate_scheduled ..)
      | successor =>
          refine .keeps rfl (.inl rfl) (by simp) ?_
          rw [replicate_scheduled]
          exact timeout_notMem _ (τ := .predecessor) (by simp)
  · exact (sameFlags_refl n).turn (by simp) (by simp)

theorem checkSuccessorFailure_turn (ht : t = none) :
    Turn σ n t n.checkSuccessorFailure := by
  subst ht
  unfold DAENode.checkSuccessorFailure
  split
  · next h =>
      cases σ with
      | predecessor =>
          refine .keeps rfl (.inl rfl) (by simp) ?_
          rw [replicate_scheduled]
          exact timeout_notMem _ (τ := .successor) (by simp)
      | successor =>
          exact .starts h.1 rfl rfl (fun _ => h.2) rfl (replicate_scheduled ..)
  · exact (sameFlags_refl n).turn (by simp) (by simp)

theorem predecessorTimeout_flags (n : DAENode) :
    n.predecessorTimeout.predecessorOnchecking = false ∧
      n.predecessorTimeout.successorOnchecking = n.successorOnchecking ∧
      n.predecessorTimeout.successorStatus = n.successorStatus := by
  unfold DAENode.predecessorTimeout
  split <;> exact ⟨rfl, rfl, rfl⟩

theorem successorTimeout_flags (n : DAENode) :
    n.successorTimeout.successorOnchecking = false ∧
      n.successorTimeout.predecessorOnchecking = n.predecessorOnchecking ∧
      n.successorTimeout.predecessorStatus = n.predecessorStatus := by
  unfold DAENode.successorTimeout
  split
  · extract_lets rest
    cases rest <;> exact ⟨rfl, rfl, rfl⟩
  · exact ⟨rfl, rfl, rfl⟩

theorem runTask_turn (n : DAENode) (peer : PeerPair) (u : Task) :
    Turn σ n (some u) (n.runTask peer u) := by
  cases u with
  | joinRetry =>
      refine (sameFlags_refl n).turn (by cases σ <;> simp [Side.timeout]) ?_
      intro hmem
      split at hmem
      · rw [joinWithHelp_scheduled] at hmem
        cases σ <;> cases List.mem_singleton.mp hmem
      · cases hmem
  | checkPredecessorExistence =>
      exact (sameFlags_refl n).silent (by cases σ <;> simp [Side.timeout]) rfl
  | checkSuccessorExistence =>
      exact (sameFlags_refl n).silent (by cases σ <;> simp [Side.timeout]) rfl
  | predecessorTimeout =>
      obtain ⟨hoff, hon, hstatus⟩ := predecessorTimeout_flags n
      cases σ with
      | predecessor => exact .ends hoff rfl rfl
      | successor =>
          exact .keeps hon (.inl hstatus) (by simp [Side.timeout])
            (fun hmem => by cases hmem)
  | successorTimeout =>
      obtain ⟨hoff, hon, hstatus⟩ := successorTimeout_flags n
      cases σ with
      | predecessor =>
          exact .keeps hon (.inl hstatus) (by simp [Side.timeout])
            (fun hmem => by cases hmem)
      | successor => exact .ends hoff rfl rfl

variable {p : AnonymousPacket}

/-- A packet of the upkeep changes no flag, or sets one. -/
theorem receive_flags (hint : p.header.msgType = true) (σ : Side) :
    σ.onchecking (n.receive p).1 = σ.onchecking n ∧
      (σ.status (n.receive p).1 = σ.status n ∨ σ.status (n.receive p).1 = true) := by
  have hsame : ∀ n' : DAENode, SameFlags n n' → σ.onchecking n' = σ.onchecking n ∧
      (σ.status n' = σ.status n ∨ σ.status n' = true) :=
    fun n' h => ⟨(h σ).1, .inl (h σ).2⟩
  have hrefl := hsame n (sameFlags_refl n)
  cases hid : p.header.id <;>
    simp only [DAENode.receive, AnonymousPacket.isInternalMsg, hint, hid,
      DAENode.processMessage, DAENode.update_eq_setFinger]
  case internalReplyFindSuccessor => exact hsame _ (sameFlags_setFinger n _ _)
  case internalReplyGetPredecessor =>
    refine hsame _ fun τ => ?_
    cases τ <;> exact ⟨rfl, rfl⟩
  case internalNotifyPredecessorJoin =>
    refine hsame _ fun τ => ?_
    unfold DAENode.notify
    split <;> cases τ <;> exact ⟨rfl, rfl⟩
  case internalReplySuccessorList =>
    refine hsame _ fun τ => ?_
    unfold DAENode.handleReplySuccessorList
    split <;> cases τ <;> exact ⟨rfl, rfl⟩
  case internalReplyPredecessorExistence =>
    split
    · cases σ with
      | predecessor => exact ⟨rfl, .inr rfl⟩
      | successor => exact ⟨rfl, .inl rfl⟩
    · exact hrefl
  case internalReplySuccessorExistence =>
    split
    · cases σ with
      | predecessor => exact ⟨rfl, .inl rfl⟩
      | successor => exact ⟨rfl, .inr rfl⟩
    · exact hrefl
  all_goals simp

theorem receive_scheduled (hint : p.header.msgType = true) :
    (n.receive p).2.filterMap scheduled = [] := by
  have hrecv := receives (n := n) hint
  generalize n.receive p = r at hrecv
  cases hrecv with
  | lookup _ => exact List.filterMap_cons_none (lookup_scheduled n _ _ _ _)
  | fetch _ =>
      unfold DAENode.handleFetchSuccessorList
      split <;> rfl
  | _ => rfl

/-- What a firing does to a side of the node it runs at. -/
theorem fires_turn {ι : Type} {s : System ι} {a : Act ι} {i : ι}
    {f : DAENode → DAENode × List Effect} {net : List AnonymousPacket}
    (hf : Fires s a i f net) (hp : ∀ k p, a = .deliver i k → s.net[k]? = some p →
      p.header.msgType = true) (σ : Side) :
    ∃ t, Turn σ (s.nodes i) t (f (s.nodes i)) ∧
      ((t = none ∧ leftTasks s i a = (s.relays i).tasks) ∨
        ∃ k u, t = some u ∧ (s.relays i).tasks[k]? = some u ∧
          leftTasks s i a = (s.relays i).tasks.eraseIdx k) := by
  cases hf with
  | join _ => exact ⟨none, join_turn _ _ (by simp), .inl ⟨rfl, rfl⟩⟩
  | stabilize _ =>
      obtain ⟨hflags, hes⟩ := stabilize_flags (s.nodes i)
      exact ⟨none, hflags.silent (by simp) hes, .inl ⟨rfl, rfl⟩⟩
  | fixFingers _ =>
      obtain ⟨hflags, hes⟩ := fixFingers_flags (s.nodes i)
      exact ⟨none, hflags.silent (by simp) hes, .inl ⟨rfl, rfl⟩⟩
  | fetchSuccessorList _ =>
      refine ⟨none, ?_, .inl ⟨rfl, rfl⟩⟩
      exact (sameFlags_refl (s.nodes i)).silent (by simp) rfl
  | checkPredecessorFailure _ =>
      exact ⟨none, checkPredecessorFailure_turn rfl, .inl ⟨rfl, rfl⟩⟩
  | checkSuccessorFailure _ =>
      exact ⟨none, checkSuccessorFailure_turn rfl, .inl ⟨rfl, rfl⟩⟩
  | @runTask _ k u hk =>
      exact ⟨some u, runTask_turn _ _ u, .inr ⟨k, u, rfl, hk, rfl⟩⟩
  | deliver hk _ =>
      have hint := hp _ _ rfl hk
      obtain ⟨hon, hstatus⟩ := receive_flags (n := s.nodes i) hint σ
      refine ⟨none, .keeps hon hstatus (by simp) ?_, .inl ⟨rfl, rfl⟩⟩
      rw [receive_scheduled hint]
      simp

end

/-! ## Questions and answers -/

section

variable {ι : Type}

/-- A question of node `i` to node `j`. -/
structure Question (R : Roster ι) (σ : Side) (i j : ι) (p : AnonymousPacket) :
    Prop where
  internal : p.header.msgType = true
  id : p.header.id = σ.question
  dest : p.dest = R.addr j
  replyTo : p.replyTo = R.addr i

/-- Node `j`'s answer to node `i`. -/
structure Answer (R : Roster ι) (σ : Side) (i j : ι) (p : AnonymousPacket) :
    Prop where
  internal : p.header.msgType = true
  id : p.header.id = σ.answer
  dest : p.dest = R.addr i
  key : p.header.keyId = R.id j

/-- Something that will tell node `i` that `j` lives: a question to be sent, one
under way to `j`, or the answer. -/
inductive Evidence (R : Roster ι) (σ : Side) (i j : ι) (s : System ι) : Prop where
  | pending (h : σ.check ∈ (s.relays i).tasks)
  | asked {p : AnonymousPacket} (hp : p ∈ s.net) (h : Question R σ i j p)
  | answered {p : AnonymousPacket} (hp : p ∈ s.net) (h : Answer R σ i j p)

variable {R : Roster ι} {σ : Side} {i j : ι} {n : DAENode} {p : AnonymousPacket}

/-- Questions and answers are not the traffic that leaves the nodes alone. -/
theorem not_harmless (hint : p.header.msgType = true)
    (hid : p.header.id = σ.question ∨ p.header.id = σ.answer) : ¬ Harmless p := by
  rintro (hext | hdummy)
  · rw [hint] at hext
    cases hext
  · rw [hdummy] at hid
    cases σ <;> rcases hid with hid | hid <;> cases hid

/-- The neighbour is asked at its own address. -/
theorem check_asks (h : NodeOk R i n) (hn : σ.neighbour n = R.id j)
    (peer : PeerPair) :
    ∃ p ∈ (n.runTask peer σ.check).2.filterMap sent, Question R σ i j p := by
  have hreply : (n.nodeIp, n.port) = R.addr i := by rw [h.ip, h.port]; rfl
  cases σ with
  | predecessor =>
      have hne : n.predecessor ≠ noId := fun hno =>
        R.id_ne_noId j (hn.symm.trans hno)
      obtain ⟨l, hl⟩ := h.predecessor hne
      have hlj : l = j :=
        R.id_inj ((congrArg PeerPair.relayId hl).trans hn)
      subst hlj
      refine ⟨_, List.mem_singleton.mpr rfl, rfl, rfl, ?_, hreply⟩
      exact (congrArg (fun t : PeerPair => (t.ip, t.port)) hl).symm
  | successor =>
      obtain ⟨l, hl⟩ := h.real_finger
      have hlj : l = j :=
        R.id_inj ((congrArg PeerPair.relayId hl).trans hn)
      subst hlj
      refine ⟨_, List.mem_singleton.mpr rfl, rfl, rfl, ?_, hreply⟩
      exact (congrArg (fun t : PeerPair => (t.ip, t.port)) hl).symm

/-- A question is answered. -/
theorem question_answered (h : R.Owns j n) (hp : Question R σ i j p) :
    ∃ q ∈ (n.receive p).2.filterMap sent, Answer R σ i j q := by
  have hint := hp.internal
  have hid := hp.id
  cases σ with
  | predecessor =>
      simp only [DAENode.receive, AnonymousPacket.isInternalMsg, hint, hid,
        Side.question, DAENode.processMessage]
      exact ⟨_, List.mem_singleton.mpr rfl, rfl, rfl, hp.replyTo, h.id⟩
  | successor =>
      simp only [DAENode.receive, AnonymousPacket.isInternalMsg, hint, hid,
        Side.question, DAENode.processMessage]
      exact ⟨_, List.mem_singleton.mpr rfl, rfl, rfl, hp.replyTo, h.id⟩

/-- The neighbour's answer sets the flag. -/
theorem answer_counts (hp : Answer R σ i j p) (hn : σ.neighbour n = R.id j)
    (hown : σ = .successor → σ.neighbour n ≠ n.id) :
    σ.status (n.receive p).1 = true := by
  have hint := hp.internal
  have hid := hp.id
  cases σ with
  | predecessor =>
      simp only [DAENode.receive, AnonymousPacket.isInternalMsg, hint, hid,
        Side.answer, DAENode.processMessage]
      have hkey : p.header.keyId = n.predecessor := hp.key.trans hn.symm
      rw [if_pos hkey]
      rfl
  | successor =>
      simp only [DAENode.receive, AnonymousPacket.isInternalMsg, hint, hid,
        Side.answer, DAENode.processMessage]
      have hkey : p.header.keyId = n.successor := hp.key.trans hn.symm
      rw [if_pos ⟨hkey, fun h => hown rfl (hkey.symm.trans h)⟩]
      rfl

variable {s s' : System ι} {a : Act ι} {l : ι}
  {f : DAENode → DAENode × List Effect} {net : List AnonymousPacket}

/-- A datagram in flight stays so, or is the one delivered. -/
theorem Fires.stays (hf : Fires s a l f net) (hp : p ∈ s.net) :
    p ∈ net ∨ ((f = fun n => n.receive p) ∧ p.dest = (s.relays l).addr) := by
  cases hf with
  | @deliver _ k q hk hdest =>
      by_cases hqp : p = q
      · exact .inr ⟨by rw [hqp], by rw [hqp, hdest]⟩
      · exact .inl (mem_eraseIdx_of_ne hp hk hqp)
  | _ => exact .inl hp

/-! ## Runs -/

/-- The invariant. A round has one timer; in a round whose flag is clear no node
is its own successor, and there is evidence for a neighbour that lives. -/
structure Watch (R : Roster ι) (s : Mortal ι) : Prop where
  sane : Sane R s.system
  timer : ∀ (σ : Side) i, (s.system.relays i).tasks.count σ.timeout =
    if σ.onchecking (s.system.nodes i) then 1 else 0
  own : ∀ (σ : Side) i, σ.onchecking (s.system.nodes i) = true →
    σ.status (s.system.nodes i) = false → σ = .successor →
    σ.neighbour (s.system.nodes i) ≠ (s.system.nodes i).id
  evidence : ∀ (σ : Side) i j, σ.onchecking (s.system.nodes i) = true →
    σ.status (s.system.nodes i) = false →
    σ.neighbour (s.system.nodes i) = R.id j → s.dead j = false →
    Evidence R σ i j s.system

theorem watch_init : Watch R ⟨System.init R.cfg, fun _ => false⟩ where
  sane := sane_init
  timer := fun σ i => by cases σ <;> rfl
  own := fun σ i hon => by cases σ <;> cases hon
  evidence := fun σ i j hon => by cases σ <;> cases hon

/-- Under a watch, a timer that has its answers finds against the dead only. -/
theorem Watch.spares {s : Mortal ι} {e : Event ι} (h : Watch R s)
    (ht : Timely s e) : Spares R s e := by
  intro σ i hexp hdis j hn
  have hans := ht.2 σ i hexp
  obtain ⟨k, _, _, hk⟩ := hexp
  have haddr : ∀ x, (s.system.relays x).addr = R.addr x := by
    intro x
    rw [Relay.addr, h.sane.cfg x]
    rfl
  have hstatus : σ.status (s.system.nodes i) = false := by
    cases σ with
    | predecessor => exact hdis
    | successor => exact hdis.1
  have hon : σ.onchecking (s.system.nodes i) = true := by
    by_contra hoff
    have hcount := h.timer σ i
    rw [if_neg hoff] at hcount
    exact List.count_eq_zero.mp hcount (List.mem_of_getElem? hk)
  by_contra hlive
  rw [Bool.not_eq_true] at hlive
  cases h.evidence σ i j hon hstatus hn hlive with
  | pending htask => exact hans.sent htask
  | @asked p hp hq =>
      have := hans.asked p hp hq.id (hq.replyTo.trans (haddr i).symm) j
        (hq.dest.trans (haddr j).symm)
      rw [hlive] at this
      cases this
  | answered hp ha => exact hans.answered _ hp ha.id (ha.dest.trans (haddr i).symm)

/-- Noise does not disturb a watch. -/
theorem Watch.noise {s : Mortal ι} (h : Watch R s) (hN : Noise s.system s') :
    Watch R { s with system := s' } := by
  have hside : ∀ (σ : Side) i, σ.onchecking (s'.nodes i) = σ.onchecking (s.system.nodes i) ∧
      σ.status (s'.nodes i) = σ.status (s.system.nodes i) ∧
      σ.neighbour (s'.nodes i) = σ.neighbour (s.system.nodes i) ∧
      (s'.nodes i).id = (s.system.nodes i).id := by
    intro σ i
    obtain ⟨drops, user, heq⟩ := hN.tables i
    rw [heq]
    cases σ <;> exact ⟨rfl, rfl, rfl, rfl⟩
  refine ⟨hN.sane h.sane, ?_, ?_, ?_⟩
  · intro σ i
    show (s'.relays i).tasks.count σ.timeout = if σ.onchecking (s'.nodes i) then 1 else 0
    rw [hN.tasks i, (hside σ i).1]
    exact h.timer σ i
  · intro σ i
    show σ.onchecking (s'.nodes i) = true → σ.status (s'.nodes i) = false →
      σ = .successor → σ.neighbour (s'.nodes i) ≠ (s'.nodes i).id
    obtain ⟨hon, hstatus, hneighbour, hid⟩ := hside σ i
    rw [hon, hstatus, hneighbour, hid]
    exact h.own σ i
  · intro σ i j
    show σ.onchecking (s'.nodes i) = true → σ.status (s'.nodes i) = false →
      σ.neighbour (s'.nodes i) = R.id j → s.dead j = false → Evidence R σ i j s'
    obtain ⟨hon, hstatus, hneighbour, _⟩ := hside σ i
    rw [hon, hstatus, hneighbour]
    intro hon hstatus hn hlive
    cases h.evidence σ i j hon hstatus hn hlive with
    | pending htask => exact .pending (by rw [hN.tasks i]; exact htask)
    | asked hp hq =>
        have hout := not_harmless hq.internal (.inl hq.id)
        exact .asked ((hN.kept _ hp).resolve_right hout) hq
    | answered hp ha =>
        have hout := not_harmless ha.internal (.inr ha.id)
        exact .answered ((hN.kept _ hp).resolve_right hout) ha

variable [DecidableEq ι]

/-- The evidence lasts until the flag is set. -/
theorem Evidence.fired (h : Evidence R σ i j s) (hs : Sane R s)
    (hF : Fired s s' a l f net) (hn : σ.neighbour (s.nodes i) = R.id j)
    (hown : σ = .successor → σ.neighbour (s.nodes i) ≠ (s.nodes i).id) :
    Evidence R σ i j s' ∨ σ.status (s'.nodes i) = true := by
  have haddr : ∀ x, (s.relays x).addr = R.addr x := by
    intro x
    rw [Relay.addr, hs.cfg x]
    rfl
  have hself : s'.nodes l = (f (s.nodes l)).1 := by
    rw [hF.after.nodes, Function.update_self]
  have hnew : ∀ p ∈ (f (s.nodes l)).2.filterMap sent, p ∈ s'.net := by
    intro p hp
    rw [hF.after.net]
    exact List.mem_append_right _ hp
  have hold : ∀ p ∈ net, p ∈ s'.net := by
    intro p hp
    rw [hF.after.net]
    exact List.mem_append_left _ hp
  cases h with
  | pending htask =>
      refine .inl ?_
      by_cases hli : i = l
      · subst hli
        by_cases hleft : σ.check ∈ leftTasks s i a
        · exact .pending (by rw [hF.tasks]; exact List.mem_append_left _ hleft)
        · -- The task was run: it asked the neighbour.
          have hfires := hF.fires
          cases hfires with
          | @runTask _ k u hk =>
              have hu : u = σ.check := by
                by_contra hne
                exact hleft (mem_eraseIdx_of_ne htask hk (Ne.symm hne))
              subst hu
              obtain ⟨p, hp, hq⟩ := check_asks (hs.node i) hn
                (s.relays i).cfg.initPeers
              exact .asked (hnew p hp) hq
          | _ => exact absurd htask hleft
      · exact .pending (by rw [hF.others i hli]; exact htask)
  | @asked p hp hq =>
      refine .inl ?_
      rcases hF.fires.stays hp with hp | ⟨rfl, hdest⟩
      · exact .asked (hold p hp) hq
      · have hlj : j = l := R.addr_inj (hq.dest.symm.trans (hdest.trans (haddr l)))
        subst hlj
        obtain ⟨q, hq', ha⟩ := question_answered (hs.node j).toOwns hq
        exact .answered (hnew q hq') ha
  | @answered p hp ha =>
      rcases hF.fires.stays hp with hp | ⟨rfl, hdest⟩
      · exact .inl (.answered (hold p hp) ha)
      · have hli : i = l := R.addr_inj (ha.dest.symm.trans (hdest.trans (haddr l)))
        subst hli
        rw [hself]
        exact .inr (answer_counts ha hn hown)

theorem count_eraseIdx {α : Type} [DecidableEq α] {l : List α} {k : Nat} {x : α}
    (hk : l[k]? = some x) (y : α) :
    (l.eraseIdx k).count y + (if x = y then 1 else 0) = l.count y := by
  obtain ⟨hlt, rfl⟩ := List.getElem?_eq_some_iff.mp hk
  rw [← (List.getElem_cons_eraseIdx_perm hlt).count_eq y, List.count_cons]
  simp

/-- The timers of a node after one of its turns. -/
theorem turn_timer {s : Mortal ι} (h : Watch R s)
    (hF : Fired s.system s' a l f net) {t : Option Task}
    (hturn : Turn σ (s.system.nodes l) t (f (s.system.nodes l)))
    (htask : (t = none ∧ leftTasks s.system l a = (s.system.relays l).tasks) ∨
      ∃ k u, t = some u ∧ (s.system.relays l).tasks[k]? = some u ∧
        leftTasks s.system l a = (s.system.relays l).tasks.eraseIdx k) :
    (s'.relays l).tasks.count σ.timeout =
      if σ.onchecking (f (s.system.nodes l)).1 then 1 else 0 := by
  have hcount := h.timer σ l
  rw [hF.tasks, List.count_append]
  cases hturn with
  | keeps hon _ ht hnew =>
      rw [List.count_eq_zero.mpr hnew, Nat.add_zero, hon, ← hcount]
      rcases htask with ⟨_, hleft⟩ | ⟨k, u, rfl, hk, hleft⟩
      · rw [hleft]
      · have herase := count_eraseIdx hk σ.timeout
        rw [if_neg (fun hu => ht (by rw [hu]))] at herase
        rw [hleft]
        exact herase
  | starts hoff hon _ _ ht hnew =>
      rcases htask with ⟨_, hleft⟩ | ⟨k, u, hu, _⟩
      · have hzero : (List.replicate (s.system.nodes l).recheck σ.check).count
            σ.timeout = 0 :=
          List.count_eq_zero.mpr fun hmem =>
            check_ne_timeout σ σ (List.eq_of_mem_replicate hmem).symm
        rw [hleft, hcount, hnew, hoff, hon, List.count_append, hzero]
        simp
      · rw [ht] at hu
        cases hu
  | ends hoff ht hnew =>
      rcases htask with ⟨hnone, _⟩ | ⟨k, u, hu, hk, hleft⟩
      · rw [ht] at hnone
        cases hnone
      · obtain rfl : u = σ.timeout := by
          rw [ht] at hu
          injection hu with hu
          exact hu.symm
        have herase := count_eraseIdx hk σ.timeout
        rw [if_pos rfl] at herase
        rw [hleft, hnew, hoff, List.count_nil]
        split at hcount <;> simp <;> omega

/-- A round in which nothing was heard: it was on before the handler, or has just
begun. -/
theorem Fired.round {s s' : System ι} (hF : Fired s s' a l f net)
    (hp : ∀ k p, a = .deliver l k → s.net[k]? = some p → p.header.msgType = true)
    (hasks : ∀ (σ : Side) i, σ.onchecking (s.nodes i) = false →
      σ.onchecking (s'.nodes i) = true → 0 < (s.nodes i).recheck)
    (hon : σ.onchecking (s'.nodes i) = true) (hstatus : σ.status (s'.nodes i) = false) :
    (σ.onchecking (s.nodes i) = true ∧ σ.status (s.nodes i) = false) ∨
      ((σ = .successor → σ.neighbour (s.nodes i) ≠ (s.nodes i).id) ∧
        σ.check ∈ (s'.relays i).tasks) := by
  by_cases hi : i = l
  · subst hi
    obtain ⟨t, hturn, _⟩ := fires_turn hF.fires hp σ
    have hon' := hon
    rw [hF.after.nodes, Function.update_self] at hon hstatus
    cases hturn with
    | keeps hsame hst _ _ =>
        refine .inl ⟨hsame.symm.trans hon, ?_⟩
        rcases hst with hst | hst
        · exact hst.symm.trans hstatus
        · rw [hstatus] at hst
          cases hst
    | starts hoff _ _ hown _ hnew =>
        refine .inr ⟨hown, ?_⟩
        rw [hF.tasks, hnew]
        refine List.mem_append_right _ (List.mem_append_left _ ?_)
        exact List.mem_replicate.mpr ⟨Nat.pos_iff_ne_zero.mp (hasks σ i hoff hon'), rfl⟩
    | ends hoff _ _ =>
        rw [hoff] at hon
        cases hon
  · rw [hF.after.nodes, Function.update_of_ne hi] at hon hstatus
    exact .inl ⟨hon, hstatus⟩

/-- One handler keeps the watch, if what it replaces is covered. -/
theorem Watch.fired {s : Mortal ι} {e : Event ι} (h : Watch R s)
    (hstep : s.step e = { s with system := s' }) (hcov : Covered s e)
    (hF : Fired s.system s' a l f net)
    (hp : ∀ k p, a = .deliver l k → s.system.net[k]? = some p →
      p.header.msgType = true) (hsane : Sane R s') :
    Watch R { s with system := s' } := by
  have hasks := hcov.asks
  have hrep := hcov.replaces
  rw [hstep] at hasks hrep
  have hself : s'.nodes l = (f (s.system.nodes l)).1 := by
    rw [hF.after.nodes, Function.update_self]
  have hother : ∀ i, i ≠ l → s'.nodes i = s.system.nodes i := by
    intro i hi
    rw [hF.after.nodes, Function.update_of_ne hi]
  have hid : ∀ i, (s'.nodes i).id = (s.system.nodes i).id := by
    intro i
    rw [(hsane.node i).id, (h.sane.node i).id]
  refine ⟨hsane, ?_, ?_, ?_⟩
  · intro σ i
    by_cases hi : i = l
    · subst hi
      obtain ⟨t, hturn, htask⟩ := fires_turn hF.fires hp σ
      have := turn_timer h hF hturn htask
      rw [← hself] at this
      exact this
    · show (s'.relays i).tasks.count σ.timeout = _
      rw [hF.others i hi, show (Mortal.system { s with system := s' }).nodes i = _
        from hother i hi]
      exact h.timer σ i
  · intro σ i hon hstatus hσ
    rw [show ((Mortal.system { s with system := s' }).nodes i).id = _ from hid i]
    by_cases hn : σ.neighbour (s'.nodes i) = σ.neighbour (s.system.nodes i)
    · show σ.neighbour (s'.nodes i) ≠ _
      rw [hn]
      rcases hF.round hp hasks hon hstatus with ⟨hon, hstatus⟩ | ⟨hown, _⟩
      · exact h.own σ i hon hstatus hσ
      · exact hown hσ
    · exact (hrep σ i hn hon hstatus).2 hσ
  · intro σ i j hon hstatus hj hlive
    by_cases hn : σ.neighbour (s'.nodes i) = σ.neighbour (s.system.nodes i)
    · rcases hF.round hp hasks hon hstatus with ⟨hon', hstatus'⟩ | ⟨_, htask⟩
      · have hj' := hn.symm.trans hj
        have hev := h.evidence σ i j hon' hstatus' hj' hlive
        refine (hev.fired h.sane hF hj' (h.own σ i hon' hstatus')).resolve_right ?_
        rw [show σ.status (s'.nodes i) = false from hstatus]
        exact Bool.false_ne_true
      · exact .pending htask
    · exact .pending (hrep σ i hn hon hstatus).1

theorem Watch.step {s : Mortal ι} {e : Event ι} (h : Watch R s) (ht : Timely s e)
    (hcov : Covered s e) : Watch R (s.step e) := by
  cases e with
  | die i =>
      refine ⟨h.sane, h.timer, h.own, ?_⟩
      intro σ i' j hon hstatus hn hlive
      refine h.evidence σ i' j hon hstatus hn ?_
      by_cases hj : j = i
      · subst hj
        rw [show (s.step (.die j)).dead j = true from Function.update_self ..] at hlive
        cases hlive
      · rw [← hlive]
        exact (Function.update_of_ne hj ..).symm
  | act a =>
      by_cases hdead : a.actor.any s.dead = true
      · rw [Mortal.step, if_pos hdead]
        exact h
      · have hstep : s.step (.act a) = { s with system := s.system.step a } := by
          rw [Mortal.step, if_neg hdead]
        have hlose : ∀ k, a ≠ .lose k := by
          rintro k rfl
          exact ht.1 k rfl
        rw [hstep]
        rcases step_split h.sane a hlose with hN | ⟨l, f, net, hF, hpacket⟩
        · exact h.noise hN
        · exact h.fired hstep hcov hF (fun k p ha hk => (hpacket k p ha hk).1)
            (hF.sane h.sane hpacket)

/-- A run that is covered spares the living: from freshly constructed nodes,
whatever joins, dies, notifies, stabilizes and sends in whatever order, when no
packet is lost and every check is answered before the timer of its round fires,
a timer that takes a neighbour away takes a dead one. -/
theorem checks_spare_the_living (R : Roster ι) (events : List (Event ι))
    (htimely : Mortal.Always Timely ⟨System.init R.cfg, fun _ => false⟩ events)
    (hcovered : Mortal.Always Covered ⟨System.init R.cfg, fun _ => false⟩ events) :
    Mortal.Always (Spares R) ⟨System.init R.cfg, fun _ => false⟩ events := by
  have hrun : ∀ (s : Mortal ι), Watch R s → Mortal.Always Timely s events →
      Mortal.Always Covered s events → Mortal.Always (Spares R) s events := by
    clear htimely hcovered
    induction events with
    | nil => exact fun _ _ _ _ => trivial
    | cons e events ih =>
        rintro s h ⟨ht, htimely⟩ ⟨hcov, hcovered⟩
        exact ⟨h.spares ht, ih _ (h.step ht hcov) htimely hcovered⟩
  exact hrun _ watch_init htimely hcovered

end

/-- Three nodes that check their neighbours once a round. -/
def trioRoster : Roster (Fin 3) where
  m := 2
  cfg := fun i =>
    { relayIp := "10.22.1.16"
      relayPort := 3010 + i.val
      relayId := i.val
      ringBits := 2
      recheck := 1
      initPeers := ⟨"10.22.1.16", 3010, 0⟩ }
  bits_pos := by decide
  bits_le := by decide
  ringBits := fun _ => rfl
  id_lt := by decide
  id_inj := by unfold Function.Injective; decide
  addr_inj := by unfold Function.Injective; decide

def trioStart : Mortal (Fin 3) := ⟨System.init trioRoster.cfg, fun _ => false⟩

/-- Node 1 joins node 0 and becomes its predecessor. -/
def trioJoined : List (Event (Fin 3)) :=
  [.act (.join 0), .act (.join 1), .act (.deliver 0 3), .act (.deliver 1 6),
    .act (.stabilize 1), .act (.deliver 0 7)]

/-- Only a timer asks for more than that nothing is lost. -/
theorem timely_plain {ι : Type} {s : Mortal ι} {e : Event ι}
    (hlose : ∀ k, e ≠ .act (.lose k)) (htask : ∀ i k, e ≠ .act (.runTask i k)) :
    Timely s e :=
  ⟨hlose, fun _ i ⟨k, he, _⟩ => absurd he (htask i k)⟩

/-- Node 1 dies, and node 0 finds out. -/
def trioDeath : List (Event (Fin 3)) :=
  trioJoined ++ [.die 1, .act (.checkPredecessorFailure 0), .act (.runTask 0 0),
    .act (.runTask 0 0)]

theorem trioDeath_timely : Mortal.Always Timely trioStart trioDeath := by
  have hplain : ∀ (s : Mortal (Fin 3)) (e : Event (Fin 3)),
      (∀ k, e ≠ .act (.lose k)) → (∀ i k, e ≠ .act (.runTask i k)) → Timely s e :=
    fun _ _ => timely_plain
  refine ⟨hplain _ _ nofun nofun, hplain _ _ nofun nofun, hplain _ _ nofun nofun,
    hplain _ _ nofun nofun, hplain _ _ nofun nofun, hplain _ _ nofun nofun,
    hplain _ _ nofun nofun, hplain _ _ nofun nofun, ⟨nofun, ?_⟩, ⟨nofun, ?_⟩, trivial⟩
  · rintro σ i ⟨k, he, _, hk⟩
    cases he
    cases σ <;> exact absurd hk (by decide +kernel)
  · rintro σ i ⟨k, he, _, hk⟩
    cases he
    cases σ with
    | predecessor => exact ⟨by decide +kernel, by decide +kernel, by decide +kernel⟩
    | successor => exact absurd hk (by decide +kernel)

theorem trioDeath_covered : Mortal.Always Covered trioStart trioDeath := by
  refine ⟨?_, ?_, ?_, ?_, ?_, ?_, ?_, ?_, ?_, ?_, trivial⟩ <;>
    refine ⟨fun σ => ?_, fun σ => ?_⟩ <;> cases σ <;> decide +kernel

theorem checks_spare_the_living_trio :
    ((trioJoined.foldl Mortal.step trioStart).system.nodes 0).predecessor = 1 ∧
      ((trioDeath.foldl Mortal.step trioStart).system.nodes 0).predecessor = noId ∧
      Mortal.Always (Spares trioRoster) trioStart trioDeath :=
  ⟨by decide +kernel, by decide +kernel, checks_spare_the_living trioRoster
    trioDeath trioDeath_timely trioDeath_covered⟩

/-- Node 0 asks its predecessor, node 1. Before the answer comes, node 2 joins
and notifies; the answer is compared with node 2. -/
def trioOvertaken : List (Event (Fin 3)) :=
  trioJoined ++ [.act (.checkPredecessorFailure 0), .act (.runTask 0 0),
    .act (.join 2), .act (.deliver 0 8), .act (.deliver 2 11), .act (.stabilize 2),
    .act (.deliver 0 12), .act (.deliver 1 7), .act (.deliver 0 11),
    .act (.runTask 0 0)]

theorem trioOvertaken_timely : Mortal.Always Timely trioStart trioOvertaken := by
  have hplain : ∀ (s : Mortal (Fin 3)) (e : Event (Fin 3)),
      (∀ k, e ≠ .act (.lose k)) → (∀ i k, e ≠ .act (.runTask i k)) → Timely s e :=
    fun _ _ => timely_plain
  refine ⟨hplain _ _ nofun nofun, hplain _ _ nofun nofun, hplain _ _ nofun nofun,
    hplain _ _ nofun nofun, hplain _ _ nofun nofun, hplain _ _ nofun nofun,
    hplain _ _ nofun nofun, ⟨nofun, ?_⟩, hplain _ _ nofun nofun,
    hplain _ _ nofun nofun, hplain _ _ nofun nofun, hplain _ _ nofun nofun,
    hplain _ _ nofun nofun, hplain _ _ nofun nofun, hplain _ _ nofun nofun,
    ⟨nofun, ?_⟩, trivial⟩
  · rintro σ i ⟨k, he, _, hk⟩
    cases he
    cases σ <;> exact absurd hk (by decide +kernel)
  · rintro σ i ⟨k, he, _, hk⟩
    cases he
    cases σ with
    | predecessor => exact ⟨by decide +kernel, by decide +kernel, by decide +kernel⟩
    | successor => exact absurd hk (by decide +kernel)

/-- The timer takes node 2 away, which lives. -/
theorem live_predecessor_discarded :
    ¬ ∀ (R : Roster (Fin 3)) (events : List (Event (Fin 3))),
      Mortal.Always Timely ⟨System.init R.cfg, fun _ => false⟩ events →
      Mortal.Always (Spares R) ⟨System.init R.cfg, fun _ => false⟩ events := by
  intro h
  obtain ⟨_, _, _, _, _, _, _, _, _, _, _, _, _, _, _, hlast, _⟩ :=
    h trioRoster trioOvertaken trioOvertaken_timely
  have hdead := hlast .predecessor 0 ⟨0, rfl, rfl, by decide +kernel⟩
    (show _ = false by decide +kernel) 2 (by decide +kernel)
  exact absurd hdead (by decide +kernel)

end Daenet.Proofs
