import Mathlib.Data.List.Perm.Basic
import Mathlib.Data.List.GetD
import Mathlib.Tactic.ByContra
import Daenet.Lib.Runs
import Daenet.Ref.LoopixSocket

/-!
# One Loopix connection, one socket

`connect` announces itself twice, and the peer's receive thread means to ignore
the second announcement: it does when the sender has a queue. But the queue is
made by `accept`, later. Everything that comes before it is put up for `accept`
as well, the second announcement as a second connection and a data datagram as a
connection without its data.

Seen from one peer `p`, all goes well exactly as long as the receive thread
meets nothing of `p` but one first announcement before `accept` has made the
queue (`Punctual`). What the other peers do in the meantime makes no difference:
queues are never shared (`Apart`), and a step that is not about `p` leaves what
`p` has to do with as it was (`Unseen`).
-/

namespace Daenet.Proofs

open Daenet.Lib Daenet.Ref

/-- A relay and what has been seen of it. -/
structure Observed where
  relay : LoopixRelay
  log : List LoopixEvent

def Observed.step (o : Observed) (a : LoopixAct) : Observed :=
  ⟨(o.relay.step a).1, o.log ++ (o.relay.step a).2.toList⟩

/-! ## What concerns one peer -/

/-- The peer's datagram an event is about. -/
def handledBy (p : Nat) : LoopixEvent → Option LoopixPacket
  | .handled packet => if packet.src = p then some packet else none
  | .received _ _ => none

/-- What an event brought the `j`-th socket. -/
def receivedAt (j : Nat) : LoopixEvent → Option (List UInt8)
  | .received i (.data payload) => if i = j then some payload else none
  | _ => none

/-- The datagrams of `p` that the receive thread has taken up. -/
def handled (p : Nat) (log : List LoopixEvent) : List LoopixPacket :=
  log.filterMap (handledBy p)

/-- What the data datagrams among them carried. -/
def dataOf (p : Nat) (log : List LoopixEvent) : List (List UInt8) :=
  ((handled p log).filter fun packet => !packet.isConnection).map
    LoopixPacket.payload

/-- What `recv` on the `j`-th socket has returned. -/
def got (j : Nat) (log : List LoopixEvent) : List (List UInt8) :=
  log.filterMap (receivedAt j)

/-- What the receive thread is about to put up for `accept`. -/
def offering (r : LoopixRelay) : List LoopixPacket :=
  match r.inHand with
  | some (packet, none) => [packet]
  | _ => []

/-- What it is about to push on queue `q`. -/
def pushing (r : LoopixRelay) (q : Nat) : List LoopixPacket :=
  match r.inHand with
  | some (packet, some q') =>
      if q' = q ∧ packet.isConnection = false then [packet] else []
  | _ => []

/-- The sockets that are still to come of what has been taken up. -/
def waiting (p : Nat) (r : LoopixRelay) : Nat :=
  (r.metadata.acceptQueue ++ r.accepting ++ offering r).countP (·.src = p)

/-- The sockets there are. -/
def socketsOf (p : Nat) (r : LoopixRelay) : Nat :=
  r.sockets.countP (·.loopixDestIdx = p)

/-- What is on a queue, or about to be. -/
def queued (r : LoopixRelay) (q : Nat) : List LoopixPacket :=
  r.metadata.queues.getD q [] ++ pushing r q

/-- One connection of `p`, one socket, and nothing lost: what has been taken up
of `p` is, or will be, one socket, and the data among it is what `recv` on that
socket has returned and, in order, what it will return. -/
structure OneSocket (p : Nat) (o : Observed) : Prop where
  one : socketsOf p o.relay + waiting p o.relay =
    if handled p o.log = [] then 0 else 1
  bare : socketsOf p o.relay = 0 → dataOf p o.log = []
  data : ∀ j s, o.relay.sockets[j]? = some s → s.loopixDestIdx = p →
    dataOf p o.log = got j o.log ++ (queued o.relay s.queue).map LoopixPacket.payload
  ready : ∀ j s, o.relay.sockets[j]? = some s → s.loopixDestIdx = p →
    ∀ packet rest, o.relay.metadata.queues.getD s.queue [] = packet :: rest →
      (o.relay.recv j).2 = some (.received j (.data packet.payload))

/-- The relay itself neither connects to `p` nor closes its socket, and `p`'s
datagrams have a whole header. -/
def Within (p : Nat) (o : Observed) : LoopixAct → Prop
  | .lookUp buf => (⟨buf.take maxMtu⟩ : LoopixPacket).src = p →
      LoopixPacket.headerLen ≤ buf.length
  | .connect dest => dest ≠ p
  | .close j => ∀ s, o.relay.sockets[j]? = some s → s.loopixDestIdx ≠ p
  | _ => True

/-- The receive thread takes up a datagram of `p` only when `p` has its queue, or
when it is an announcement and nothing of `p` came before it. -/
def Punctual (p : Nat) (o : Observed) (a : LoopixAct) : Prop :=
  ∀ packet, (o.relay.step a).2 = some (.handled packet) → packet.src = p →
    o.relay.metadata.getQueue p ≠ none ∨
      packet.isConnection = true ∧ handled p o.log = []

/-! ## Queues are not shared -/

/-- The queues in use exist, and that of `p` is nobody else's. -/
structure Apart (p : Nat) (r : LoopixRelay) : Prop where
  live : ∀ s ∈ r.sockets, s.queue < r.metadata.queues.length
  mapped : ∀ q i, r.metadata.socketQueue q = some i → i < r.metadata.queues.length
  held : ∀ packet i, r.inHand = some (packet, some i) →
    i < r.metadata.queues.length
  sockets : ∀ s ∈ r.sockets, s.loopixDestIdx ≠ p →
    r.metadata.socketQueue p ≠ some s.queue
  peers : ∀ q i, q ≠ p → r.metadata.socketQueue q = some i →
    r.metadata.socketQueue p ≠ some i
  hand : ∀ packet i, r.inHand = some (packet, some i) → packet.src ≠ p →
    r.metadata.socketQueue p ≠ some i

section

variable {p : Nat} {r r' : LoopixRelay}

theorem apart_start : Apart p {} := by
  constructor <;> simp

/-- Steps that make no queue and leave the map, the sockets and the hand. -/
theorem Apart.same (h : Apart p r)
    (hlen : r'.metadata.queues.length = r.metadata.queues.length)
    (hmap : r'.metadata.socketQueue = r.metadata.socketQueue)
    (hsock : ∀ s ∈ r'.sockets, ∃ t ∈ r.sockets, s.queue = t.queue ∧
      s.loopixDestIdx = t.loopixDestIdx)
    (hhand : ∀ packet i, r'.inHand = some (packet, some i) →
      r.inHand = some (packet, some i)) : Apart p r' := by
  refine ⟨?_, ?_, ?_, ?_, ?_, ?_⟩
  · intro s hs
    obtain ⟨t, ht, hq, _⟩ := hsock s hs
    rw [hlen, hq]
    exact h.live t ht
  · rw [hlen, hmap]
    exact h.mapped
  · intro packet i hi
    rw [hlen]
    exact h.held packet i (hhand packet i hi)
  · intro s hs hne
    obtain ⟨t, ht, hq, hd⟩ := hsock s hs
    rw [hmap, hq]
    exact h.sockets t ht (hd ▸ hne)
  · rw [hmap]
    exact h.peers
  · intro packet i hi
    rw [hmap]
    exact h.hand packet i (hhand packet i hi)

/-- A new socket has a queue that nobody has. -/
theorem Apart.newSocket (h : Apart p r) (dest : Nat) : Apart p (r.newSocket dest) := by
  have hlen : (r.newSocket dest).metadata.queues.length =
      r.metadata.queues.length + 1 := by
    simp [LoopixRelay.newSocket, RelayMetadata.registerQueue]
  have hmap : (r.newSocket dest).metadata.socketQueue =
      Function.update r.metadata.socketQueue dest (some r.metadata.queues.length) := rfl
  have hsock : ∀ s ∈ (r.newSocket dest).sockets,
      s ∈ r.sockets ∨ s = ⟨dest, r.metadata.queues.length, true⟩ := by
    intro s hs
    rcases List.mem_append.mp hs with hs | hs
    · exact .inl hs
    · exact .inr (List.mem_singleton.mp hs)
  -- What the map says of `p` now: the new queue, or what it said.
  have hown : ∀ i, (r.newSocket dest).metadata.socketQueue p = some i →
      (dest = p ∧ i = r.metadata.queues.length) ∨
        dest ≠ p ∧ r.metadata.socketQueue p = some i := by
    intro i hi
    rw [hmap] at hi
    by_cases hd : dest = p
    · subst hd
      rw [Function.update_self] at hi
      exact .inl ⟨rfl, (Option.some.inj hi).symm⟩
    · rw [Function.update_of_ne (Ne.symm hd)] at hi
      exact .inr ⟨hd, hi⟩
  refine ⟨?_, ?_, ?_, ?_, ?_, ?_⟩
  · intro s hs
    rw [hlen]
    rcases hsock s hs with hs | rfl
    · exact Nat.lt_succ_of_lt (h.live s hs)
    · exact Nat.lt_succ_self _
  · intro q i hi
    rw [hlen]
    rw [hmap] at hi
    by_cases hq : q = dest
    · subst hq
      rw [Function.update_self] at hi
      rw [← Option.some.inj hi]
      exact Nat.lt_succ_self _
    · rw [Function.update_of_ne hq] at hi
      exact Nat.lt_succ_of_lt (h.mapped q i hi)
  · intro packet i hi
    rw [hlen]
    exact Nat.lt_succ_of_lt (h.held packet i hi)
  · intro s hs hne heq
    rcases hsock s hs with hs | rfl
    · rcases hown _ heq with ⟨_, hi⟩ | ⟨_, hi⟩
      · exact absurd (h.live s hs) (by omega)
      · exact h.sockets s hs hne hi
    · rcases hown _ heq with ⟨hd, _⟩ | ⟨_, hi⟩
      · exact hne hd
      · exact absurd (h.mapped p _ hi) (Nat.lt_irrefl _)
  · intro q i hq hi heq
    rw [hmap] at hi
    by_cases hqd : q = dest
    · subst hqd
      rw [Function.update_self] at hi
      rcases hown _ heq with ⟨hd, _⟩ | ⟨_, hp⟩
      · exact hq hd
      · rw [← Option.some.inj hi] at hp
        exact absurd (h.mapped p _ hp) (Nat.lt_irrefl _)
    · rw [Function.update_of_ne hqd] at hi
      rcases hown _ heq with ⟨_, hi'⟩ | ⟨_, hp⟩
      · exact absurd (h.mapped q i hi) (by omega)
      · exact h.peers q i hq hi hp
  · intro packet i hi hne heq
    rcases hown _ heq with ⟨_, hi'⟩ | ⟨_, hp⟩
    · exact absurd (h.held packet i hi) (by omega)
    · exact h.hand packet i hi hne hp

end

/-! ## The invariant -/

/-- What holds between steps as long as they are punctual. -/
structure Served (p : Nat) (o : Observed) : Prop where
  apart : Apart p o.relay
  mine : ∀ s ∈ o.relay.sockets, s.loopixDestIdx = p →
    o.relay.metadata.socketQueue p = some s.queue ∧ s.isActive = true
  registered : ∀ i, o.relay.metadata.socketQueue p = some i →
    0 < socketsOf p o.relay
  hand : ∀ packet i, o.relay.inHand = some (packet, some i) → packet.src = p →
    o.relay.metadata.socketQueue p = some i
  sized : ∀ i, o.relay.metadata.socketQueue p = some i →
    ∀ packet ∈ queued o.relay i, LoopixPacket.headerLen ≤ packet.buf.length
  fresh : ∀ j x, LoopixEvent.received j x ∈ o.log → j < o.relay.sockets.length
  one : socketsOf p o.relay + waiting p o.relay =
    if handled p o.log = [] then 0 else 1
  bare : socketsOf p o.relay = 0 → dataOf p o.log = []
  data : ∀ j s, o.relay.sockets[j]? = some s → s.loopixDestIdx = p →
    dataOf p o.log = got j o.log ++ (queued o.relay s.queue).map LoopixPacket.payload

/-- A step that `p` has nothing to do with. -/
structure Unseen (p : Nat) (o o' : Observed) : Prop where
  map : o'.relay.metadata.socketQueue p = o.relay.metadata.socketQueue p
  offers : waiting p o'.relay = waiting p o.relay
  taken : handled p o'.log = handled p o.log
  queue : ∀ i, o.relay.metadata.socketQueue p = some i →
    queued o'.relay i = queued o.relay i
  sockets : ∀ (j : Nat) (s : LoopixSocket), s.loopixDestIdx = p →
    (o'.relay.sockets[j]? = some s ↔ o.relay.sockets[j]? = some s)
  count : socketsOf p o'.relay = socketsOf p o.relay
  read : ∀ j s, o.relay.sockets[j]? = some s → s.loopixDestIdx = p →
    got j o'.log = got j o.log
  hand : ∀ packet i, o'.relay.inHand = some (packet, some i) → packet.src = p →
    o.relay.inHand = some (packet, some i)

section

variable {p : Nat} {o o' : Observed}

theorem Served.oneSocket (h : Served p o) : OneSocket p o := by
  refine ⟨h.one, h.bare, h.data, ?_⟩
  intro j s hs hp packet rest hqueue
  obtain ⟨hmap, hactive⟩ := h.mine s (List.mem_of_getElem? hs) hp
  have hsize : LoopixPacket.headerLen ≤ packet.buf.length := by
    refine h.sized _ hmap packet (List.mem_append_left _ ?_)
    rw [hqueue]
    exact List.mem_cons_self
  simp only [LoopixRelay.recv, hs, hqueue, hactive]
  rw [if_neg (by decide), if_neg (by omega)]

theorem Served.unseen (h : Served p o) (hstep : Unseen p o o')
    (hapart : Apart p o'.relay)
    (hfresh : ∀ j x, LoopixEvent.received j x ∈ o'.log →
      j < o'.relay.sockets.length) : Served p o' := by
  have hdata : dataOf p o'.log = dataOf p o.log := by
    unfold dataOf
    rw [hstep.taken]
  have hmem : ∀ s ∈ o'.relay.sockets, s.loopixDestIdx = p → s ∈ o.relay.sockets := by
    intro s hs hp
    obtain ⟨j, hj⟩ := List.mem_iff_getElem?.mp hs
    exact List.mem_of_getElem? ((hstep.sockets j s hp).mp hj)
  refine ⟨hapart, ?_, ?_, ?_, ?_, hfresh, ?_, ?_, ?_⟩
  · intro s hs hp
    rw [hstep.map]
    exact h.mine s (hmem s hs hp) hp
  · intro i hi
    rw [hstep.map] at hi
    rw [hstep.count]
    exact h.registered i hi
  · intro packet i hi hp
    rw [hstep.map]
    exact h.hand packet i (hstep.hand packet i hi hp) hp
  · intro i hi
    rw [hstep.map] at hi
    rw [hstep.queue i hi]
    exact h.sized i hi
  · rw [hstep.count, hstep.offers, hstep.taken]
    exact h.one
  · rw [hstep.count, hdata]
    exact h.bare
  · intro j s hs hp
    have hs' := (hstep.sockets j s hp).mp hs
    rw [hdata, hstep.read j s hs' hp,
      hstep.queue _ (h.mine s (List.mem_of_getElem? hs') hp).1]
    exact h.data j s hs' hp

/-- A step that moves packets along and is not seen from outside. -/
theorem Served.moved (h : Served p o) (hlog : o'.log = o.log)
    (hsock : o'.relay.sockets = o.relay.sockets)
    (hmap : o'.relay.metadata.socketQueue = o.relay.metadata.socketQueue)
    (hlen : o'.relay.metadata.queues.length = o.relay.metadata.queues.length)
    (hwait : waiting p o'.relay = waiting p o.relay)
    (hqueue : ∀ i, queued o'.relay i = queued o.relay i)
    (hhand : ∀ packet i, o'.relay.inHand = some (packet, some i) →
      o.relay.inHand = some (packet, some i)) : Served p o' := by
  refine h.unseen ⟨?_, hwait, ?_, fun i _ => hqueue i, ?_, ?_, ?_, ?_⟩ ?_ ?_
  · rw [hmap]
  · rw [hlog]
  · intro j s _
    rw [hsock]
  · unfold socketsOf
    rw [hsock]
  · intro j s _ _
    rw [hlog]
  · intro packet i hi _
    exact hhand packet i hi
  · refine h.apart.same hlen hmap (fun s hs => ⟨s, ?_, rfl, rfl⟩) hhand
    rw [← hsock]
    exact hs
  · rw [hlog, hsock]
    exact h.fresh

theorem served_start : Served p ⟨{}, []⟩ := by
  refine ⟨apart_start, ?_, ?_, ?_, ?_, ?_, rfl, fun _ => rfl, ?_⟩
  · exact fun s hs => by cases hs
  · exact fun i hi => by cases hi
  · exact fun packet i hi => by cases hi
  · exact fun i hi => by cases hi
  · exact fun j x hx => by cases hx
  · intro j s hs
    rw [List.getElem?_nil] at hs
    cases hs

/-! ## The steps -/

theorem getD_modify (qs : List (List LoopixPacket)) (q i : Nat)
    (f : List LoopixPacket → List LoopixPacket) (hq : q < qs.length) :
    (qs.modify q f).getD i [] = if i = q then f (qs.getD i []) else qs.getD i [] := by
  rw [List.getD_eq_getElem?_getD, List.getD_eq_getElem?_getD, List.getElem?_modify]
  by_cases hi : i = q
  · subst hi
    simp only [if_true, List.getElem?_eq_getElem hq]
    rfl
  · simp only [hi, Ne.symm hi, if_false]
    cases qs[i]? <;> rfl

theorem getD_concat (qs : List (List LoopixPacket)) (i : Nat) :
    (qs ++ [[]]).getD i [] = qs.getD i [] := by
  by_cases hi : i < qs.length
  · exact List.getD_append _ _ _ _ hi
  · rw [List.getD_append_right _ _ _ _ (by omega),
      List.getD_eq_default qs _ (by omega)]
    cases i - qs.length <;> rfl

/-- The receive thread puts down what it has in hand. -/
theorem Served.put (h : Served p o) : Served p (o.step .put) := by
  have hlog : (o.step .put).log = o.log := List.append_nil _
  have hput : (o.step .put).relay = o.relay.put := rfl
  cases hhand : o.relay.inHand with
  | none =>
      rw [LoopixRelay.put, hhand] at hput
      refine h.moved hlog ?_ ?_ ?_ ?_ ?_ ?_ <;>
        simp only [hput, imp_self, implies_true]
  | some held =>
      obtain ⟨packet, queue⟩ := held
      cases queue with
      | none =>
          rw [LoopixRelay.put, hhand] at hput
          refine h.moved hlog ?_ ?_ ?_ ?_ ?_ ?_ <;> simp only [hput]
          · -- It was about to wait for `accept`, and does.
            unfold waiting
            rw [show offering o.relay = [packet] by rw [offering, hhand]]
            simp only [List.countP_append, offering, List.countP_nil]
            omega
          · intro i
            rw [queued, queued, pushing, pushing, hhand]
          · exact fun _ _ hi => by cases hi
      | some q =>
          have hq : q < o.relay.metadata.queues.length := h.apart.held packet q hhand
          rw [LoopixRelay.put, hhand] at hput
          cases hconn : packet.isConnection with
          | true =>
              simp only [hconn, if_true] at hput
              refine h.moved hlog ?_ ?_ ?_ ?_ ?_ ?_ <;> simp only [hput]
              · rw [waiting, waiting, offering, offering, hhand]
              · intro i
                rw [queued, queued, pushing, pushing, hhand]
                simp only [hconn, Bool.true_eq_false, and_false, if_false]
              · exact fun _ _ hi => by cases hi
          | false =>
              simp only [hconn, Bool.false_eq_true, if_false] at hput
              refine h.moved hlog ?_ ?_ ?_ ?_ ?_ ?_ <;> simp only [hput]
              · rfl
              · exact List.length_modify ..
              · rw [waiting, waiting, offering, offering, hhand]
                rfl
              · -- It was about to be on the queue, and is.
                intro i
                rw [queued, queued, pushing, pushing, hhand]
                show (List.modify _ q _).getD i [] ++ [] = _
                rw [getD_modify _ _ _ _ hq, List.append_nil]
                by_cases hi : i = q
                · subst hi
                  rw [if_pos rfl]
                  simp only [hconn, and_self, if_true]
                · rw [if_neg hi]
                  simp only [Ne.symm hi, false_and, if_false, List.append_nil]
              · exact fun _ _ hi => by cases hi

/-- An `accept` call takes its packet. -/
theorem Served.acceptPop (h : Served p o) : Served p (o.step .acceptPop) := by
  have hlog : (o.step .acceptPop).log = o.log := List.append_nil _
  have hpop : (o.step .acceptPop).relay = o.relay.acceptPop := rfl
  cases hqueue : o.relay.metadata.acceptQueue with
  | nil =>
      rw [LoopixRelay.acceptPop, hqueue] at hpop
      refine h.moved hlog ?_ ?_ ?_ ?_ ?_ ?_ <;>
        simp only [hpop, imp_self, implies_true]
  | cons packet rest =>
      rw [LoopixRelay.acceptPop, hqueue] at hpop
      refine h.moved hlog ?_ ?_ ?_ ?_ ?_ ?_ <;>
        simp only [hpop, imp_self, implies_true]
      · unfold waiting
        rw [hqueue, show offering { o.relay with
          metadata := { o.relay.metadata with acceptQueue := rest }
          accepting := o.relay.accepting ++ [packet] } = offering o.relay from rfl]
        simp only [List.countP_append, List.countP_cons, List.countP_nil]
        omega
      · intro i
        rfl

theorem no_socket {r : LoopixRelay} (h : socketsOf p r = 0) :
    ∀ s ∈ r.sockets, s.loopixDestIdx ≠ p := by
  intro s hs
  simpa using List.countP_eq_zero.mp h s hs

/-- A new socket of another peer. -/
theorem Served.newSocket {r : LoopixRelay} {dest : Nat} (h : Served p ⟨r, o.log⟩)
    (hne : dest ≠ p) : Served p ⟨r.newSocket dest, o.log⟩ := by
  have hmap : (r.newSocket dest).metadata.socketQueue p = r.metadata.socketQueue p :=
    Function.update_of_ne (Ne.symm hne) ..
  have hsock : (r.newSocket dest).sockets =
      r.sockets ++ [⟨dest, r.metadata.queues.length, true⟩] := rfl
  refine h.unseen ⟨hmap, rfl, rfl, ?_, ?_, ?_, fun _ _ _ _ => rfl,
    fun _ _ hi _ => hi⟩ (h.apart.newSocket dest) ?_
  · intro i _
    show (r.metadata.queues ++ [[]]).getD i [] ++ pushing r i = _
    rw [getD_concat]
    rfl
  · intro j s hp
    show (r.newSocket dest).sockets[j]? = some s ↔ r.sockets[j]? = some s
    rw [hsock]
    by_cases hj : j < r.sockets.length
    · rw [List.getElem?_append_left hj]
    · rw [List.getElem?_append_right (by omega),
        List.getElem?_eq_none_iff.mpr (Nat.le_of_not_lt hj)]
      refine iff_of_false (fun hs => ?_) (fun hs => by cases hs)
      rw [List.getElem?_singleton] at hs
      split at hs
      · cases hs
        exact hne hp
      · cases hs
  · show List.countP _ (r.newSocket dest).sockets = _
    rw [hsock, List.countP_append, List.countP_singleton]
    simp only [hne, decide_false, Bool.false_eq_true, if_false, Nat.add_zero]
    rfl
  · intro j x hx
    have := h.fresh j x hx
    show j < (r.newSocket dest).sockets.length
    rw [hsock, List.length_append]
    exact Nat.lt_add_right _ this

/-- Nothing is on a new queue, or about to be pushed on it. -/
theorem queued_new {r : LoopixRelay} (h : Apart p r) (dest : Nat) :
    queued (r.newSocket dest) r.metadata.queues.length = [] := by
  show (r.metadata.queues ++ [[]]).getD _ [] ++ pushing r _ = []
  rw [getD_concat, List.getD_eq_default _ _ (Nat.le_refl _), List.nil_append,
    pushing]
  split
  · next packet q hhand =>
      have hq : q < r.metadata.queues.length := h.held packet q hhand
      rw [if_neg (by omega)]
  · rfl

/-- A socket that has not been made has returned nothing. -/
theorem got_new {log : List LoopixEvent} {k : Nat}
    (h : ∀ j x, LoopixEvent.received j x ∈ log → j < k) : got k log = [] := by
  refine List.filterMap_eq_nil_iff.mpr fun e he => ?_
  cases e with
  | handled packet => rfl
  | received j x =>
      have hj := h j x he
      cases x with
      | data payload => exact if_neg (by omega)
      | closed => rfl
      | fault => rfl

/-- The socket of `p`, made when `p` had none: it is the only one, its queue is
new, and no data has come yet. -/
theorem served_first {r : LoopixRelay} {log : List LoopixEvent} (hapart : Apart p r)
    (hnone : socketsOf p r = 0) (hwait : waiting p r = 0)
    (hhandled : handled p log ≠ []) (hdata : dataOf p log = [])
    (hhand : ∀ packet i, r.inHand = some (packet, some i) → packet.src ≠ p)
    (hfresh : ∀ j x, LoopixEvent.received j x ∈ log → j < r.sockets.length) :
    Served p ⟨r.newSocket p, log⟩ := by
  have hmap : (r.newSocket p).metadata.socketQueue p =
      some r.metadata.queues.length := Function.update_self ..
  have hsocks : socketsOf p (r.newSocket p) = 1 := by
    show List.countP _ (_ ++ _) = 1
    rw [List.countP_append, show List.countP _ r.sockets = 0 from hnone]
    simp
  have hwaiting : waiting p (r.newSocket p) = 0 := hwait
  refine ⟨hapart.newSocket p, ?_, ?_, ?_, ?_, ?_, ?_, ?_, ?_⟩
  · intro s hs hsp
    rcases List.mem_append.mp hs with hs | hs
    · exact absurd hsp (no_socket hnone s hs)
    · rw [List.mem_singleton.mp hs]
      exact ⟨hmap, rfl⟩
  · intro i _
    rw [hsocks]
    exact Nat.one_pos
  · exact fun packet i hi hsrc => absurd hsrc (hhand packet i hi)
  · intro i hi packet hmem
    rw [hmap] at hi
    rw [← Option.some.inj hi, queued_new hapart] at hmem
    cases hmem
  · intro j x hx
    show j < List.length (_ ++ _)
    rw [List.length_append]
    exact Nat.lt_add_right _ (hfresh j x hx)
  · rw [hsocks, hwaiting, if_neg hhandled]
  · intro hzero
    rw [hsocks] at hzero
    cases hzero
  · intro j s hs hsp
    have hj : j = r.sockets.length ∧ s.queue = r.metadata.queues.length := by
      change (r.sockets ++ [_])[j]? = some s at hs
      by_cases hj : j < r.sockets.length
      · rw [List.getElem?_append_left hj] at hs
        exact absurd hsp (no_socket hnone s (List.mem_of_getElem? hs))
      · rw [List.getElem?_append_right (by omega), List.getElem?_singleton] at hs
        split at hs
        · next hzero =>
            cases hs
            exact ⟨by omega, rfl⟩
        · cases hs
    show dataOf p log = got j log ++ _
    rw [hdata, hj.1, got_new hfresh, hj.2, queued_new hapart]
    rfl

theorem waiting_erase {r : LoopixRelay} {k : Nat} {packet : LoopixPacket}
    (hk : r.accepting[k]? = some packet) :
    waiting p r = waiting p { r with accepting := r.accepting.eraseIdx k } +
      if packet.src = p then 1 else 0 := by
  obtain ⟨hlt, rfl⟩ := List.getElem?_eq_some_iff.mp hk
  unfold waiting
  rw [show offering { r with accepting := r.accepting.eraseIdx k } =
    offering r from rfl]
  simp only [List.countP_append]
  rw [← (List.getElem_cons_eraseIdx_perm hlt).countP_eq, List.countP_cons]
  simp only [decide_eq_true_eq]
  omega

/-- An `accept` call for `p` makes its socket. -/
theorem Served.ownSocket {r : LoopixRelay} {k : Nat} {packet : LoopixPacket}
    {log : List LoopixEvent} (h : Served p ⟨r, log⟩)
    (hk : r.accepting[k]? = some packet) (hp : packet.src = p) :
    Served p ⟨LoopixRelay.newSocket
      { r with accepting := r.accepting.eraseIdx k } p, log⟩ := by
  have hwait := waiting_erase (p := p) hk
  rw [if_pos hp] at hwait
  have hone := h.one
  simp only [hwait] at hone
  -- The packet stood for a socket, so there is none yet.
  have hcount : socketsOf p r = 0 ∧
      waiting p { r with accepting := r.accepting.eraseIdx k } = 0 ∧
      handled p log ≠ [] := by
    split at hone
    · omega
    · next hne => exact ⟨by omega, by omega, hne⟩
  obtain ⟨hnone, hrest, hhandled⟩ := hcount
  refine served_first (h.apart.same rfl rfl (fun s hs => ⟨s, hs, rfl, rfl⟩)
    fun _ _ hi => hi) hnone hrest hhandled (h.bare hnone) ?_ h.fresh
  intro packet i hi hsrc
  have := h.registered i (h.hand packet i hi hsrc)
  simp only [hnone] at this
  omega

/-- An `accept` call makes its socket. -/
theorem Served.acceptRegister (h : Served p o) (k : Nat) :
    Served p (o.step (.acceptRegister k)) := by
  have hstep : o.step (.acceptRegister k) = ⟨o.relay.acceptRegister k, o.log⟩ := by
    rw [Observed.step]
    exact congrArg _ (List.append_nil _)
  rw [hstep, LoopixRelay.acceptRegister]
  split
  · exact h
  · next packet hk =>
      by_cases hp : packet.src = p
      · rw [hp]
        exact h.ownSocket hk hp
      · refine Served.newSocket (o := o) ?_ hp
        refine h.moved rfl rfl rfl rfl ?_ (fun _ => rfl) fun _ _ hi => hi
        have hwait := waiting_erase (p := p) hk
        rw [if_neg hp] at hwait
        exact hwait.symm

theorem handled_append (log : List LoopixEvent) (packet : LoopixPacket) :
    handled p (log ++ [.handled packet]) =
      handled p log ++ if packet.src = p then [packet] else [] := by
  unfold handled
  rw [List.filterMap_append]
  by_cases hp : packet.src = p
  · simp [handledBy, hp]
  · simp [handledBy, hp]

theorem got_handled (j : Nat) (log : List LoopixEvent) (packet : LoopixPacket) :
    got j (log ++ [.handled packet]) = got j log := by
  unfold got
  rw [List.filterMap_append]
  exact List.append_nil _

/-- The receive thread with nothing in hand takes up a packet. -/
def Observed.take (o : Observed) (packet : LoopixPacket) : Observed :=
  ⟨{ o.relay with
      inHand := some (packet, o.relay.metadata.getQueue packet.src) },
    o.log ++ [.handled packet]⟩

theorem lookUp_cases (o : Observed) (buf : List UInt8) :
    (∃ b, o.step (.lookUp buf) = ⟨{ o.relay with receiving := b }, o.log⟩ ∧
      (o.relay.step (.lookUp buf)).2 = none) ∨
    o.relay.inHand = none ∧ o.step (.lookUp buf) = o.take ⟨buf.take maxMtu⟩ ∧
      (o.relay.step (.lookUp buf)).2 = some (.handled ⟨buf.take maxMtu⟩) := by
  simp only [Observed.step, LoopixRelay.step, LoopixRelay.lookUp]
  by_cases hbusy : o.relay.receiving = false ∨ o.relay.inHand.isSome
  · rw [if_pos hbusy]
    exact .inl ⟨o.relay.receiving, by rw [Option.toList_none, List.append_nil], rfl⟩
  · rw [if_neg hbusy]
    by_cases hempty : buf = []
    · rw [if_pos hempty]
      exact .inl ⟨false, by rw [Option.toList_none, List.append_nil], rfl⟩
    · rw [if_neg hempty]
      refine .inr ⟨?_, rfl, rfl⟩
      cases hhand : o.relay.inHand with
      | none => rfl
      | some held => exact absurd (.inr (by rw [hhand]; rfl)) hbusy

theorem take_fresh (h : Served p o) (packet : LoopixPacket) :
    ∀ j x, LoopixEvent.received j x ∈ (o.take packet).log →
      j < (o.take packet).relay.sockets.length := by
  intro j x hx
  rcases List.mem_append.mp hx with hx | hx
  · exact h.fresh j x hx
  · cases List.mem_singleton.mp hx

/-- The hand holds a queue of the map. -/
theorem Apart.take (h : Apart p o.relay) (packet : LoopixPacket) :
    Apart p (o.take packet).relay := by
  refine ⟨h.live, h.mapped, ?_, h.sockets, h.peers, ?_⟩
  · intro packet' i hi
    obtain ⟨rfl, hq⟩ := Prod.mk.inj (Option.some.inj hi)
    exact h.mapped _ i hq
  · intro packet' i hi hne
    obtain ⟨rfl, hq⟩ := Prod.mk.inj (Option.some.inj hi)
    exact h.peers _ i hne hq

theorem offering_take (packet : LoopixPacket) :
    offering (o.take packet).relay =
      if o.relay.metadata.getQueue packet.src = none then [packet] else [] := by
  show (match some (packet, o.relay.metadata.getQueue packet.src) with
    | some (packet, none) => [packet]
    | _ => []) = _
  cases o.relay.metadata.getQueue packet.src <;> rfl

theorem waiting_take (hidle : o.relay.inHand = none) (packet : LoopixPacket) :
    waiting p (o.take packet).relay = waiting p o.relay +
      if o.relay.metadata.getQueue packet.src = none ∧ packet.src = p then 1
      else 0 := by
  have hbefore : offering o.relay = [] := by rw [offering, hidle]
  unfold waiting
  rw [offering_take, hbefore, List.append_nil]
  show List.countP _ (o.relay.metadata.acceptQueue ++ o.relay.accepting ++ _) = _
  rw [List.countP_append]
  by_cases hq : o.relay.metadata.getQueue packet.src = none
  · rw [if_pos hq]
    by_cases hp : packet.src = p
    · rw [if_pos ⟨hq, hp⟩]
      simp [hp]
    · simp [hp]
  · rw [if_neg hq]
    simp [hq]

theorem pushing_take (packet : LoopixPacket) (i : Nat) :
    pushing (o.take packet).relay i =
      if o.relay.metadata.getQueue packet.src = some i ∧
        packet.isConnection = false then [packet] else [] := by
  show (match some (packet, o.relay.metadata.getQueue packet.src) with
    | some (packet, some q') =>
        if q' = i ∧ packet.isConnection = false then [packet] else []
    | _ => []) = _
  cases o.relay.metadata.getQueue packet.src with
  | none => simp
  | some q => simp

/-- A datagram of another peer. -/
theorem Served.take_other (h : Served p o) (hidle : o.relay.inHand = none)
    {packet : LoopixPacket} (hp : packet.src ≠ p) : Served p (o.take packet) := by
  refine h.unseen ⟨rfl, ?_, ?_, ?_, fun _ _ _ => Iff.rfl, rfl, ?_, ?_⟩
    (h.apart.take packet) (take_fresh h packet)
  · rw [waiting_take hidle, if_neg (by simp [hp]), Nat.add_zero]
  · show handled p (o.log ++ _) = _
    rw [handled_append, if_neg hp, List.append_nil]
  · intro i hi
    unfold queued
    rw [pushing_take, if_neg, pushing, hidle]
    · rfl
    · rintro ⟨hq, _⟩
      exact h.apart.peers _ i hp hq hi
  · intro j s _ _
    exact got_handled ..
  · intro packet' i hi hsrc
    obtain ⟨rfl, _⟩ := Prod.mk.inj (Option.some.inj hi)
    exact absurd hsrc hp

theorem handled_take {packet : LoopixPacket} (hp : packet.src = p) :
    handled p (o.take packet).log ≠ [] := by
  show handled p (o.log ++ [.handled packet]) ≠ []
  rw [handled_append, if_pos hp]
  exact List.append_ne_nil_of_right_ne_nil _ (List.cons_ne_nil _ _)

theorem dataOf_take {packet : LoopixPacket} (hp : packet.src = p) :
    dataOf p (o.take packet).log = dataOf p o.log ++
      if packet.isConnection = false then [packet.payload] else [] := by
  show dataOf p (o.log ++ _) = _
  unfold dataOf
  rw [handled_append, if_pos hp, List.filter_append, List.map_append]
  cases hconn : packet.isConnection with
  | true => simp [hconn]
  | false => simp [hconn]

/-- A datagram of `p` that finds its queue. -/
theorem Served.take_own (h : Served p o) (hidle : o.relay.inHand = none)
    {packet : LoopixPacket} (hp : packet.src = p) {q : Nat}
    (hq : o.relay.metadata.socketQueue p = some q)
    (hsize : LoopixPacket.headerLen ≤ packet.buf.length) :
    Served p (o.take packet) := by
  have hget : o.relay.metadata.getQueue packet.src = some q := by
    rw [hp]
    exact hq
  have hbefore : ∀ i, pushing o.relay i = [] := by
    intro i
    rw [pushing, hidle]
  have hsocks := h.registered q hq
  have hone := h.one
  refine ⟨h.apart.take packet, h.mine, h.registered, ?_, ?_,
    take_fresh h packet, ?_, ?_, ?_⟩
  · intro packet' i hi _
    obtain ⟨rfl, hmap⟩ := Prod.mk.inj (Option.some.inj hi)
    rw [← hp]
    exact hmap
  · intro i hi packet' hmem
    rcases List.mem_append.mp hmem with hmem | hmem
    · exact h.sized i hi packet' (List.mem_append_left _ hmem)
    · rw [pushing_take] at hmem
      split at hmem
      · rw [List.mem_singleton.mp hmem]
        exact hsize
      · cases hmem
  · rw [waiting_take hidle, if_neg (by simp [hget]), Nat.add_zero,
      if_neg (handled_take hp)]
    show socketsOf p o.relay + waiting p o.relay = 1
    split at hone
    · omega
    · exact hone
  · intro hzero
    exact absurd hsocks (by rw [show socketsOf p o.relay = 0 from hzero]; omega)
  · intro j s hs hsp
    have hown := (h.mine s (List.mem_of_getElem? hs) hsp).1
    have hsq : s.queue = q := by
      rw [hown] at hq
      exact Option.some.inj hq
    have hold := h.data j s hs hsp
    rw [queued, hbefore, List.append_nil, hsq] at hold
    rw [dataOf_take hp, hold, queued, pushing_take, hget, hsq]
    show _ = got j (o.log ++ _) ++ List.map _ (o.relay.metadata.queues.getD q [] ++ _)
    rw [got_handled, List.map_append, List.append_assoc]
    cases hconn : packet.isConnection with
    | true => simp
    | false => simp

/-- The first announcement of `p`. -/
theorem Served.take_first (h : Served p o) (hidle : o.relay.inHand = none)
    {packet : LoopixPacket} (hp : packet.src = p)
    (hq : o.relay.metadata.socketQueue p = none)
    (hconn : packet.isConnection = true) (hfirst : handled p o.log = []) :
    Served p (o.take packet) := by
  have hget : o.relay.metadata.getQueue packet.src = none := by
    rw [hp]
    exact hq
  have hone := h.one
  rw [if_pos hfirst] at hone
  have hnone : socketsOf p o.relay = 0 := by omega
  refine ⟨h.apart.take packet, h.mine, h.registered, ?_, ?_,
    take_fresh h packet, ?_, ?_, ?_⟩
  · intro packet' i hi _
    obtain ⟨rfl, hmap⟩ := Prod.mk.inj (Option.some.inj hi)
    rw [hget] at hmap
    cases hmap
  · intro i hi
    change o.relay.metadata.socketQueue p = some i at hi
    rw [hq] at hi
    cases hi
  · rw [waiting_take hidle, if_pos ⟨hget, hp⟩, if_neg (handled_take hp)]
    show socketsOf p o.relay + _ = 1
    omega
  · intro _
    rw [dataOf_take hp, h.bare hnone, hconn]
    rfl
  · intro j s hs hsp
    exact absurd hsp (no_socket hnone s (List.mem_of_getElem? hs))

theorem Served.lookUp (h : Served p o) {buf : List UInt8}
    (hwithin : Within p o (.lookUp buf)) (hpunctual : Punctual p o (.lookUp buf)) :
    Served p (o.step (.lookUp buf)) := by
  rcases lookUp_cases o buf with ⟨b, hstep, _⟩ | ⟨hidle, hstep, hevent⟩
  · rw [hstep]
    exact h.moved rfl rfl rfl rfl rfl (fun _ => rfl) fun _ _ hi => hi
  · rw [hstep]
    by_cases hp : (⟨buf.take maxMtu⟩ : LoopixPacket).src = p
    · have hsize : LoopixPacket.headerLen ≤ (buf.take maxMtu).length := by
        have := hwithin hp
        rw [List.length_take, Nat.le_min]
        exact ⟨by decide, this⟩
      cases hq : o.relay.metadata.socketQueue p with
      | some q => exact h.take_own hidle hp hq hsize
      | none =>
          rcases hpunctual _ hevent hp with hreg | ⟨hconn, hfirst⟩
          · exact absurd hq hreg
          · exact h.take_first hidle hp hq hconn hfirst
    · exact h.take_other hidle hp

theorem handled_received (log : List LoopixEvent) (j : Nat)
    (x : LoopixSocket.Received) :
    handled p (log ++ [.received j x]) = handled p log := by
  unfold handled
  rw [List.filterMap_append]
  exact List.append_nil _

theorem got_received (log : List LoopixEvent) (j : Nat) (payload : List UInt8) :
    got j (log ++ [.received j (.data payload)]) = got j log ++ [payload] := by
  unfold got
  rw [List.filterMap_append]
  simp [receivedAt]

theorem got_elsewhere (log : List LoopixEvent) {i j : Nat} (hne : i ≠ j)
    (x : LoopixSocket.Received) : got j (log ++ [.received i x]) = got j log := by
  unfold got
  rw [List.filterMap_append]
  cases x with
  | data payload => simp [receivedAt, hne]
  | closed => exact List.append_nil _
  | fault => exact List.append_nil _

/-- The `j`-th socket has returned what was first on the queue `q`. -/
def Observed.returned (o : Observed) (q j : Nat) (x : LoopixSocket.Received) :
    Observed :=
  ⟨{ o.relay with metadata := { o.relay.metadata with
      queues := o.relay.metadata.queues.modify q List.tail } },
    o.log ++ [.received j x]⟩

/-- `recv` with something to return. -/
theorem recv_returns {j : Nat} {s : LoopixSocket} {packet : LoopixPacket}
    {rest : List LoopixPacket} (hs : o.relay.sockets[j]? = some s)
    (hqueue : o.relay.metadata.queues.getD s.queue [] = packet :: rest) :
    ∃ x, o.step (.recv j) = o.returned s.queue j x ∧
    (s.isActive = true → LoopixPacket.headerLen ≤ packet.buf.length →
      x = .data packet.payload) := by
  simp only [Observed.step, LoopixRelay.step, LoopixRelay.recv, hs, hqueue]
  refine ⟨_, rfl, fun hactive hsize => ?_⟩
  rw [if_neg (by simp [hactive]), if_neg (by omega)]

theorem recv_blocks {j : Nat}
    (h : ∀ s, o.relay.sockets[j]? = some s →
      o.relay.metadata.queues.getD s.queue [] = []) : o.step (.recv j) = o := by
  have hidle : o.relay.recv j = (o.relay, none) := by
    unfold LoopixRelay.recv
    split
    · rfl
    · next s hs => rw [h s hs]
  show (⟨(o.relay.recv j).1, o.log ++ (o.relay.recv j).2.toList⟩ : Observed) = o
  rw [hidle]
  exact congrArg _ (List.append_nil _)

/-- Two sockets of a peer that has one are the same. -/
theorem socket_unique {r : LoopixRelay} (hone : socketsOf p r ≤ 1) {i j : Nat}
    {s t : LoopixSocket} (hs : r.sockets[i]? = some s) (hsp : s.loopixDestIdx = p)
    (ht : r.sockets[j]? = some t) (htp : t.loopixDestIdx = p) : i = j := by
  by_contra hne
  obtain ⟨hlt, rfl⟩ := List.getElem?_eq_some_iff.mp hs
  have hmem : t ∈ r.sockets.eraseIdx i :=
    List.mem_eraseIdx_iff_getElem?.mpr ⟨j, Ne.symm hne, ht⟩
  have hpos : 0 < (r.sockets.eraseIdx i).countP (·.loopixDestIdx = p) :=
    List.countP_pos_iff.mpr ⟨t, hmem, by simpa using htp⟩
  unfold socketsOf at hone
  rw [← (List.getElem_cons_eraseIdx_perm hlt).countP_eq, List.countP_cons] at hone
  simp only [hsp, decide_true, if_true] at hone
  omega

theorem Served.le_one (h : Served p o) : socketsOf p o.relay ≤ 1 := by
  have hone := h.one
  split at hone
  · omega
  · omega

section Returned

variable {j : Nat} {s : LoopixSocket} (hs : o.relay.sockets[j]? = some s)

include hs

theorem returned_fresh (h : Served p o) (q : Nat) (x : LoopixSocket.Received) :
    ∀ i y, LoopixEvent.received i y ∈ (o.returned q j x).log →
      i < (o.returned q j x).relay.sockets.length := by
  intro i y hy
  rcases List.mem_append.mp hy with hy | hy
  · exact h.fresh i y hy
  · cases List.mem_singleton.mp hy
    exact (List.getElem?_eq_some_iff.mp hs).1

omit hs in
theorem Apart.returned (h : Apart p o.relay) (q j : Nat)
    (x : LoopixSocket.Received) : Apart p (o.returned q j x).relay :=
  h.same (List.length_modify ..) rfl (fun t ht => ⟨t, ht, rfl, rfl⟩)
    fun _ _ hi => hi

omit hs in
theorem queued_returned {q : Nat} (hq : q < o.relay.metadata.queues.length)
    (x : LoopixSocket.Received) (i : Nat) :
    queued (o.returned q j x).relay i =
      (if i = q then (o.relay.metadata.queues.getD i []).tail
        else o.relay.metadata.queues.getD i []) ++ pushing o.relay i := by
  show (List.modify _ _ _).getD i [] ++ pushing o.relay i = _
  rw [getD_modify _ _ _ _ hq]

/-- The socket of `p` returns what was first on its queue. -/
theorem Served.returned_own (h : Served p o) (hp : s.loopixDestIdx = p)
    {packet : LoopixPacket} {rest : List LoopixPacket}
    (hqueue : o.relay.metadata.queues.getD s.queue [] = packet :: rest) :
    Served p (o.returned s.queue j (.data packet.payload)) := by
  have hmem := List.mem_of_getElem? hs
  have hmap := (h.mine s hmem hp).1
  have hqueued : queued o.relay s.queue = packet ::
      queued (o.returned s.queue j (.data packet.payload)).relay s.queue := by
    rw [queued_returned (h.apart.live s hmem), if_pos rfl, queued, hqueue]
    rfl
  refine ⟨h.apart.returned _ _ _, h.mine, h.registered, h.hand, ?_,
    returned_fresh hs h _ _, ?_, ?_, ?_⟩
  · intro i hi packet' hmem'
    have hown : i = s.queue := Option.some.inj (hi.symm.trans hmap)
    subst hown
    refine h.sized _ hmap packet' ?_
    rw [hqueued]
    exact List.mem_cons_of_mem _ hmem'
  · show socketsOf p o.relay + waiting p o.relay =
      if handled p (o.log ++ _) = [] then 0 else 1
    rw [handled_received]
    exact h.one
  · show socketsOf p o.relay = 0 → dataOf p (o.log ++ _) = []
    unfold dataOf
    rw [handled_received]
    exact h.bare
  · intro i t ht htp
    have hsame : i = j := socket_unique h.le_one ht htp hs hp
    subst hsame
    have hst : t = s := Option.some.inj (ht.symm.trans hs)
    subst hst
    have hold := h.data i t hs hp
    rw [hqueued] at hold
    show dataOf p (o.log ++ _) = got i (o.log ++ _) ++ _
    rw [got_received, List.append_assoc]
    unfold dataOf at hold ⊢
    rw [handled_received, hold]
    rfl

/-- Another peer's socket returns something. -/
theorem Served.returned_other (h : Served p o) (hp : s.loopixDestIdx ≠ p)
    (x : LoopixSocket.Received) : Served p (o.returned s.queue j x) := by
  have hmem := List.mem_of_getElem? hs
  refine h.unseen ⟨rfl, rfl, handled_received .., ?_, fun _ _ _ => Iff.rfl, rfl, ?_,
    fun _ _ hi _ => hi⟩ (h.apart.returned _ _ _) (returned_fresh hs h _ _)
  · intro i hi
    have hother : i ≠ s.queue := fun he => h.apart.sockets s hmem hp (he ▸ hi)
    rw [queued_returned (h.apart.live s hmem), if_neg hother]
    rfl
  · intro i t ht htp
    refine got_elsewhere _ (fun hij => ?_) _
    subst hij
    rw [hs] at ht
    cases ht
    exact hp htp

end Returned

theorem Served.recv (h : Served p o) (j : Nat) : Served p (o.step (.recv j)) := by
  by_cases hidle : ∀ s, o.relay.sockets[j]? = some s →
      o.relay.metadata.queues.getD s.queue [] = []
  · rw [recv_blocks hidle]
    exact h
  obtain ⟨s, hs, hne⟩ : ∃ s, o.relay.sockets[j]? = some s ∧
      o.relay.metadata.queues.getD s.queue [] ≠ [] := by
    by_contra hall
    exact hidle fun s hs => Classical.byContradiction fun hne => hall ⟨s, hs, hne⟩
  obtain ⟨packet, rest, hqueue⟩ := List.exists_cons_of_ne_nil hne
  obtain ⟨x, hstep, hx⟩ := recv_returns hs hqueue
  rw [hstep]
  by_cases hp : s.loopixDestIdx = p
  · obtain ⟨hmap, hactive⟩ := h.mine s (List.mem_of_getElem? hs) hp
    have hsize : LoopixPacket.headerLen ≤ packet.buf.length := by
      refine h.sized _ hmap packet (List.mem_append_left _ ?_)
      rw [hqueue]
      exact List.mem_cons_self
    rw [hx hactive hsize]
    exact h.returned_own hs hp hqueue
  · exact h.returned_other hs hp x

/-- Another peer's socket is closed. -/
theorem Served.close (h : Served p o) {j : Nat} (hwithin : Within p o (.close j)) :
    Served p (o.step (.close j)) := by
  have hlog : (o.step (.close j)).log = o.log := List.append_nil _
  have hclose : (o.step (.close j)).relay = o.relay.close j := rfl
  unfold LoopixRelay.close at hclose
  cases hs : o.relay.sockets[j]? with
  | none =>
      rw [hs] at hclose
      refine h.moved hlog ?_ ?_ ?_ ?_ ?_ ?_ <;>
        simp only [hclose, imp_self, implies_true]
  | some s =>
      rw [hs] at hclose
      have hp := hwithin s hs
      have hmem := List.mem_of_getElem? hs
      have hlive := h.apart.live s hmem
      obtain ⟨hlt, hat⟩ := List.getElem?_eq_some_iff.mp hs
      refine h.unseen ⟨?_, ?_, ?_, ?_, ?_, ?_, ?_, ?_⟩ ?_ ?_ <;>
        simp only [hclose, hlog]
      · rfl
      · rfl
      · intro i hi
        show (List.modify _ _ _).getD i [] ++ pushing o.relay i = _
        have hother : i ≠ s.queue := fun he => h.apart.sockets s hmem hp (he ▸ hi)
        rw [getD_modify _ _ _ _ hlive, if_neg hother]
        rfl
      · intro i t htp
        rw [List.getElem?_set]
        split
        · next hij =>
            subst hij
            rw [hs]
            refine iff_of_false (fun heq => ?_) fun heq => ?_
            · cases Option.some.inj heq
              exact hp htp
            · cases heq
              exact hp htp
        · exact Iff.rfl
      · unfold socketsOf
        rw [List.countP_set hlt, hat]
        simp [hp]
      · exact fun _ _ _ _ => trivial
      · exact fun _ _ hi _ => hi
      · refine h.apart.same (List.length_modify ..) rfl (fun t ht => ?_) fun _ _ hi => hi
        rcases List.mem_or_eq_of_mem_set ht with ht | rfl
        · exact ⟨t, ht, rfl, rfl⟩
        · exact ⟨s, hmem, rfl, rfl⟩
      · rw [List.length_set]
        exact h.fresh

/-- The step lemma. -/
theorem Served.step (h : Served p o) {a : LoopixAct} (hwithin : Within p o a)
    (hpunctual : Punctual p o a) : Served p (o.step a) := by
  cases a with
  | lookUp buf => exact h.lookUp hwithin hpunctual
  | put => exact h.put
  | acceptPop => exact h.acceptPop
  | acceptRegister k => exact h.acceptRegister k
  | connect dest =>
      have hstep : o.step (.connect dest) = ⟨o.relay.newSocket dest, o.log⟩ :=
        congrArg _ (List.append_nil _)
      rw [hstep]
      exact Served.newSocket h hwithin
  | recv j => exact h.recv j
  | close j => exact h.close hwithin

/-- A datagram that is taken up too early shows at once: it is a second
connection, or data without a socket. -/
theorem Served.punctual (h : Served p o) {a : LoopixAct}
    (hafter : OneSocket p (o.step a)) : Punctual p o a := by
  intro packet hevent hp
  by_contra hnot
  rw [not_or, not_not] at hnot
  obtain ⟨hq, hnot⟩ := hnot
  cases a with
  | lookUp buf =>
      rcases lookUp_cases o buf with ⟨b, _, hidle⟩ | ⟨hidle, hstep, htaken⟩
      · rw [hidle] at hevent
        cases hevent
      · rw [htaken] at hevent
        cases hevent
        rw [hstep] at hafter
        have hget : o.relay.metadata.getQueue
            (⟨buf.take maxMtu⟩ : LoopixPacket).src = none := by rw [hp]; exact hq
        have hone := hafter.one
        rw [waiting_take hidle, if_pos ⟨hget, hp⟩, if_neg (handled_take hp)] at hone
        change socketsOf p o.relay + _ = 1 at hone
        have hbefore := h.one
        by_cases hfirst : handled p o.log = []
        · -- Nothing came before it, so it is not an announcement.
          have hdata := hafter.bare (show socketsOf p o.relay = 0 by omega)
          rw [dataOf_take hp, if_pos (Bool.eq_false_iff.mpr fun hconn =>
            hnot ⟨hconn, hfirst⟩)] at hdata
          exact List.append_ne_nil_of_right_ne_nil _ (List.cons_ne_nil _ _) hdata
        · rw [if_neg hfirst] at hbefore
          omega
  | recv j =>
      simp only [LoopixRelay.step, LoopixRelay.recv] at hevent
      split at hevent
      · cases hevent
      · split at hevent
        · cases hevent
        · cases hevent
  | put => cases hevent
  | acceptPop => cases hevent
  | acceptRegister k => cases hevent
  | connect dest => cases hevent
  | close j => cases hevent

end

/-- **One connection, one socket**: in every run of the relay, with any datagrams
of any peers and any calls in between, the peer `p` has its one socket and all
its data after every step exactly when every datagram of `p` is taken up in
time. -/
theorem one_socket_iff_punctual (p : Nat) (acts : List LoopixAct)
    (hwithin : Always Observed.step (Within p) ⟨{}, []⟩ acts) :
    Always Observed.step (fun o a => OneSocket p (o.step a)) ⟨{}, []⟩ acts ↔
      Always Observed.step (Punctual p) ⟨{}, []⟩ acts := by
  refine always_iff_of_inv (I := Served p) (fun _ _ ho hw hp => ho.step hw hp) ?_
    served_start hwithin
  intro o a ho hw
  constructor
  · exact fun h => ho.punctual h
  · exact fun h => (ho.step hw h).oneSocket

/-- A step at which the receive thread takes up nothing is punctual. -/
theorem punctual_of_none {p : Nat} {o : Observed} {a : LoopixAct}
    (h : (o.relay.step a).2 = none ∨ ∃ j x, (o.relay.step a).2 = some (.received j x)) :
    Punctual p o a := by
  intro packet hevent
  rcases h with h | ⟨j, x, h⟩
  · rw [h] at hevent
    cases hevent
  · rw [h] at hevent
    cases hevent

/-- Peer 7 connects to peer 2, the queue is made between its two announcements,
and it sends two bytes. -/
def loopixPunctual : List LoopixAct :=
  [.lookUp (LoopixPacket.header true 7 2), .put, .acceptPop, .acceptRegister 0,
    .lookUp (LoopixPacket.header true 7 2), .put,
    .lookUp (LoopixPacket.header false 7 2 ++ [104, 105]), .put, .recv 0]

theorem one_socket_iff_punctual_seven :
    Always Observed.step (fun o a => OneSocket 7 (o.step a)) ⟨{}, []⟩ loopixPunctual ∧
      got 0 (loopixPunctual.foldl Observed.step ⟨{}, []⟩).log = [[104, 105]] := by
  have hwithin : Always Observed.step (Within 7) ⟨{}, []⟩ loopixPunctual :=
    ⟨fun _ => by decide, trivial, trivial, trivial, fun _ => by decide, trivial,
      fun _ => by decide, trivial, trivial, trivial⟩
  have hpunctual : Always Observed.step (Punctual 7) ⟨{}, []⟩ loopixPunctual := by
    refine ⟨?_, punctual_of_none (.inl rfl), punctual_of_none (.inl rfl),
      punctual_of_none (.inl rfl), ?_, punctual_of_none (.inl rfl), ?_,
      punctual_of_none (.inl rfl), punctual_of_none (.inr ⟨0, _, rfl⟩), trivial⟩
    · intro packet hevent _
      cases hevent
      exact .inr ⟨by decide, rfl⟩
    · exact fun _ _ _ => .inl (by decide)
    · exact fun _ _ _ => .inl (by decide)
  exact ⟨(one_socket_iff_punctual 7 loopixPunctual hwithin).mpr hpunctual,
    by decide⟩

/-- The same with the queue made after both. -/
def loopixTwice : List LoopixAct :=
  [.lookUp (LoopixPacket.header true 7 2), .put,
    .lookUp (LoopixPacket.header true 7 2), .put, .acceptPop, .acceptRegister 0,
    .lookUp (LoopixPacket.header false 7 2 ++ [104, 105]), .put, .acceptPop,
    .acceptRegister 0]

/-- Then the peer gets two sockets, and its data is not on the queue of the one
that is kept in the map. -/
theorem accepted_twice :
    loopixTwice.filterMap (fun a => match a with
      | .lookUp buf => some buf
      | _ => none) = LoopixRelay.connect 7 2 ++
        (LoopixSocket.send ⟨2, 0, true⟩ 7 [104, 105]).toList ∧
    (loopixTwice.foldl Observed.step ⟨{}, []⟩).relay.sockets =
      [⟨7, 0, true⟩, ⟨7, 1, true⟩] ∧
    (loopixTwice.foldl Observed.step ⟨{}, []⟩).relay.metadata.socketQueue 7 =
      some 1 ∧
    ((loopixTwice.foldl Observed.step ⟨{}, []⟩).relay.recv 1).2 = none ∧
    ¬ OneSocket 7 (loopixTwice.foldl Observed.step ⟨{}, []⟩) := by
  refine ⟨by decide, by decide, by decide, by decide, fun h => ?_⟩
  have hone := h.one
  revert hone
  decide

end Daenet.Proofs
