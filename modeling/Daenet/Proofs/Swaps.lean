import Daenet.Lib.Swap
import Daenet.Proofs.Rendezvous
import Daenet.Spec.Session
import Mathlib.Data.Multiset.Count

/-!
# What a session's packets do

A session seen from outside the network: the bag of its packets under way, the
dead-drop tables restricted to its keys, and what the application queues hold of
it. `Moves` lists everything that can happen to this view. It says nothing about
pools, fingers or sockets; that every step of the system is one of these moves
is proved where the system is.

The argument about the view has two halves. `Letters` says what the packets
are: each carries, unchanged, the `k`-th message of one party, on its way to
the dead drop or from there to the other party. `cell` counts, for each `k`,
how many there are of each kind, and the counts move as a swap cell of
`Lib.Swap` does. The halves need each other in one place: that the two packets
swapped at a dead drop are of different parties is the cell's doing, and that
each then carries the other's payload to the right party follows.
-/

namespace Daenet.Proofs

open Daenet.Lib Daenet.Ref Daenet.Spec

variable {ι : Type} {R : Roster ι} {S : Session ι}

/-- A packet that carries a message and is, if it is marked `is_dest`, on its
last hop: addressed to the node responsible for the message's key. -/
structure Flies (R : Roster ι) (x : DAENode.ExternalMsg) (p : AnonymousPacket) :
    Prop where
  carries : Carries x p
  aim : p.header.isDest = true → ∃ j, R.IsSucc x.destId j ∧ p.dest = R.addr j

/-- The parts of the system a session can be seen in. -/
@[ext]
structure View (ι : Type) where
  mail : Multiset AnonymousPacket
  table : ι → Int → Option AnonymousPacket
  box : ι → List AnonymousPacket

/-- The payloads the two parties have sent. -/
abbrev Payloads := Bool → List (List UInt8)

/-- What can happen to a view. -/
inductive Moves [DecidableEq ι] (R : Roster ι) (S : Session ι) (w : Payloads)
    (v : View ι) : Payloads → View ι → Prop where
  | rest : Moves R S w v w v
  | post (x : Bool) (buf : List UInt8) (q : AnonymousPacket)
      (hq : Flies R (S.request R x (w x).length buf) q) :
      Moves R S w v (Function.update w x (w x ++ [buf]))
        { v with mail := q ::ₘ v.mail }
  | hop (p q : AnonymousPacket) (others : Multiset AnonymousPacket)
      (hmail : v.mail = p ::ₘ others) (hd : p.header.isDest = false)
      (hq : Flies R (DAENode.passOn p) q) :
      Moves R S w v w { v with mail := q ::ₘ others }
  | wait (i : ι) (p : AnonymousPacket) (others : Multiset AnonymousPacket)
      (hmail : v.mail = p ::ₘ others)
      (hid : p.header.id = .externalDeaddropMessaging)
      (hd : p.header.isDest = true) (hdest : p.dest = R.addr i)
      (hnone : v.table i p.header.index = none) :
      Moves R S w v w
        { v with
          mail := others
          table := Function.update v.table i
            (Function.update (v.table i) p.header.index (some p)) }
  | swap (i : ι) (p q p' q' : AnonymousPacket) (others : Multiset AnonymousPacket)
      (hmail : v.mail = p ::ₘ others)
      (hid : p.header.id = .externalDeaddropMessaging)
      (hd : p.header.isDest = true) (hdest : p.dest = R.addr i)
      (hsome : v.table i p.header.index = some q)
      (hp' : Flies R (DAENode.swapReply p q p.header.relayReplyId) p')
      (hq' : Flies R (DAENode.swapReply p p q.header.relayReplyId) q') :
      Moves R S w v w
        { v with
          mail := p' ::ₘ q' ::ₘ others
          table := Function.update v.table i
            (Function.update (v.table i) p.header.index none) }
  | take (i : ι) (p : AnonymousPacket) (others : Multiset AnonymousPacket)
      (hmail : v.mail = p ::ₘ others)
      (hid : p.header.id = .externalReplyDeaddropMessaging)
      (hd : p.header.isDest = true) (hdest : p.dest = R.addr i) :
      Moves R S w v w
        { v with
          mail := others
          box := Function.update v.box i (v.box i ++ [p]) }

/-! ## Letters -/

/-- A packet carries the `k`-th message of party `x` to the dead drop. -/
def Asks (R : Roster ι) (S : Session ι) (w : Payloads) (x : Bool) (k : Nat)
    (p : AnonymousPacket) : Prop :=
  ∃ payload, (w x)[k]? = some payload ∧ Carries (S.request R x k payload) p

/-- A packet carries the `k`-th message of the other party to party `x`. -/
def Brings (R : Roster ι) (S : Session ι) (w : Payloads) (x : Bool) (k : Nat)
    (p : AnonymousPacket) : Prop :=
  ∃ payload, (w (!x))[k]? = some payload ∧ Carries (S.reply R x k payload) p

/-- A marked packet is addressed to the node responsible for its key. -/
def Aimed (R : Roster ι) (p : AnonymousPacket) : Prop :=
  p.header.isDest = true → ∃ j, R.IsSucc p.header.keyId j ∧ p.dest = R.addr j

/-- What the packets of a view are. -/
structure Letters (R : Roster ι) (S : Session ι) (w : Payloads) (v : View ι) :
    Prop where
  mail : ∀ p ∈ v.mail,
    Aimed R p ∧ ∃ x k, Asks R S w x k p ∨ Brings R S w x k p
  table : ∀ i (seq : Int) p, v.table i seq = some p →
    ∃ x, ∃ k : Nat, seq = k ∧ Asks R S w x k p
  box : ∀ i, ∀ p ∈ v.box i, ∃ x k, i = S.node x ∧ Brings R S w x k p

section

variable {w : Payloads} {x : Bool} {k : Nat} {p q : AnonymousPacket}

theorem Flies.aimed {y : DAENode.ExternalMsg} (h : Flies R y p) : Aimed R p := by
  intro hd
  rw [h.carries.key]
  exact h.aim hd

theorem Asks.id (h : Asks R S w x k p) :
    p.header.id = .externalDeaddropMessaging := by
  obtain ⟨_, _, h⟩ := h
  exact h.id

theorem Asks.index (h : Asks R S w x k p) : p.header.index = k := by
  obtain ⟨_, _, h⟩ := h
  exact h.seq

theorem Asks.key (h : Asks R S w x k p) : p.header.keyId = S.drop R k := by
  obtain ⟨_, _, h⟩ := h
  exact h.key

theorem Asks.client (h : Asks R S w x k p) :
    p.header.relayReplyId = R.id (S.node x) := by
  obtain ⟨_, _, h⟩ := h
  exact h.client

theorem Brings.id (h : Brings R S w x k p) :
    p.header.id = .externalReplyDeaddropMessaging := by
  obtain ⟨_, _, h⟩ := h
  exact h.id

theorem Brings.index (h : Brings R S w x k p) : p.header.index = k := by
  obtain ⟨_, _, h⟩ := h
  exact h.seq

theorem Brings.key (h : Brings R S w x k p) :
    p.header.keyId = R.id (S.node x) := by
  obtain ⟨_, _, h⟩ := h
  exact h.key

/-- The payload is the whole of the message. -/
theorem Brings.payload (h : Brings R S w x k p) : (w (!x))[k]? = some p.payload := by
  obtain ⟨payload, hw, h⟩ := h
  have hp : p.payload = payload.take (payload.length : Int).toNat := h.payload
  rw [hp, Int.toNat_natCast, List.take_length]
  exact hw

theorem Asks.passOn (h : Asks R S w x k p) (hq : Carries (DAENode.passOn p) q) :
    Asks R S w x k q := by
  obtain ⟨payload, hw, h⟩ := h
  exact ⟨payload, hw, h.passOn hq⟩

theorem Brings.passOn (h : Brings R S w x k p) (hq : Carries (DAENode.passOn p) q) :
    Brings R S w x k q := by
  obtain ⟨payload, hw, h⟩ := h
  exact ⟨payload, hw, h.passOn hq⟩

/-- The reply made at the dead drop for party `x` carries what the other
party's packet carried. -/
theorem brings_of_swap {c q' : AnonymousPacket} {y : Bool} (hp : Asks R S w y k p)
    (hc : Asks R S w (!x) k c) {receiver : Nat} (hrec : receiver = R.id (S.node x))
    (hq' : Carries (DAENode.swapReply p c receiver) q') : Brings R S w x k q' := by
  obtain ⟨payload, hw, hc⟩ := hc
  have hmsg : DAENode.swapReply p c receiver = S.reply R x k payload := by
    have hsize : c.header.size = payload.length := hc.size
    have hbody : c.payload = payload := by
      rw [hc.payload]
      show payload.take (payload.length : Int).toNat = payload
      rw [Int.toNat_natCast, List.take_length]
    have hses : p.header.sessionId = S.id := by
      obtain ⟨_, _, hp⟩ := hp
      exact hp.session
    simp only [DAENode.swapReply, AnonymousPacket.payloadSize, Session.reply, hsize,
      hbody, hses, hp.index, hp.key, hrec]
  rw [hmsg] at hq'
  exact ⟨payload, hw, hq'⟩

/-- Only one node is addressed by a packet on its last hop. -/
theorem Aimed.eq (h : Aimed R p) (hd : p.header.isDest = true) {i j : ι}
    (hdest : p.dest = R.addr i) (hj : R.IsSucc p.header.keyId j)
    (hk : p.header.keyId < R.size) : i = j := by
  obtain ⟨l, hl, hdest'⟩ := h hd
  have hil : i = l := R.addr_inj (hdest.symm.trans hdest')
  rw [hil]
  exact R.isSucc_unique hk hl hj

end

/-! ## Counts -/

/-- A request of party `x` with number `k`. -/
def isRequest (R : Roster ι) (S : Session ι) (k : Nat) (x : Bool)
    (p : AnonymousPacket) : Bool :=
  p.header.id = .externalDeaddropMessaging ∧ p.header.index = k ∧
    p.header.relayReplyId = R.id (S.node x)

/-- A reply to party `x` with number `k`. -/
def isReply (R : Roster ι) (S : Session ι) (k : Nat) (x : Bool)
    (p : AnonymousPacket) : Bool :=
  p.header.id = .externalReplyDeaddropMessaging ∧ p.header.index = k ∧
    p.header.keyId = R.id (S.node x)

/-- The counts of the `k`-th swap; `home` are the nodes of the dead drops. -/
def cell (R : Roster ι) (S : Session ι) (home : Nat → ι) (w : Payloads)
    (v : View ι) (k : Nat) : Cell where
  sent x := if k < (w x).length then 1 else 0
  flying x := v.mail.countP fun p => isRequest R S k x p
  waiting x := (v.table (home k) k).toList.countP (isRequest R S k x)
  coming x := v.mail.countP fun p => isReply R S k x p
  got x := (v.box (S.node x)).countP (isReply R S k x)

section

variable {w : Payloads} {x : Bool} {k : Nat} {p q : AnonymousPacket}

/-- What one packet adds to a count of the `k`-th swap. -/
def mark (a : Nat) (x : Bool) (k : Nat) (y : Bool) : Nat :=
  if k = a then tick x y else 0

theorem mark_self (k : Nat) (x y : Bool) : mark k x k y = tick x y := if_pos rfl

theorem mark_of_ne {a : Nat} (h : k ≠ a) (x y : Bool) : mark a x k y = 0 := if_neg h

theorem node_eq_iff {y : Bool} : R.id (S.node x) = R.id (S.node y) ↔ y = x :=
  ⟨fun h => (S.node_inj (R.id_inj h)).symm, fun h => by rw [h]⟩

theorem Asks.isRequest (h : Asks R S w x k p) (a : Nat) (y : Bool) :
    (if isRequest R S a y p then 1 else 0) = mark k x a y := by
  unfold Proofs.isRequest mark tick
  rw [h.id, h.index, h.client]
  by_cases hk : a = k
  · subst hk
    simp [node_eq_iff]
  · have hne : (k : Int) ≠ a := by omega
    simp [hk, hne]

theorem Asks.isReply (h : Asks R S w x k p) (a : Nat) (y : Bool) :
    isReply R S a y p = false := by
  unfold Proofs.isReply
  rw [h.id]
  simp

theorem Brings.isReply (h : Brings R S w x k p) (a : Nat) (y : Bool) :
    (if isReply R S a y p then 1 else 0) = mark k x a y := by
  unfold Proofs.isReply mark tick
  rw [h.id, h.index, h.key]
  by_cases hk : a = k
  · subst hk
    simp [node_eq_iff]
  · have hne : (k : Int) ≠ a := by omega
    simp [hk, hne]

theorem Brings.isRequest (h : Brings R S w x k p) (a : Nat) (y : Bool) :
    isRequest R S a y p = false := by
  unfold Proofs.isRequest
  rw [h.id]
  simp

end

/-! ## A move is a step of every cell -/

/-- The invariant of a session. -/
structure Exchanged (R : Roster ι) (S : Session ι) (home : Nat → ι) (w : Payloads)
    (v : View ι) : Prop where
  letters : Letters R S w v
  cells : ∀ k, (cell R S home w v k).Ok

variable {home : Nat → ι} {w : Payloads} {v : View ι}

/-- A request that is under way, by its kind. -/
theorem Letters.asks (h : Letters R S w v) {p : AnonymousPacket} (hp : p ∈ v.mail)
    (hid : p.header.id = .externalDeaddropMessaging) : ∃ x k, Asks R S w x k p := by
  obtain ⟨_, x, k, hask | hbring⟩ := h.mail p hp
  · exact ⟨x, k, hask⟩
  · rw [hbring.id] at hid
    cases hid

theorem Letters.brings (h : Letters R S w v) {p : AnonymousPacket} (hp : p ∈ v.mail)
    (hid : p.header.id = .externalReplyDeaddropMessaging) :
    ∃ x k, Brings R S w x k p := by
  obtain ⟨_, x, k, hask | hbring⟩ := h.mail p hp
  · rw [hask.id] at hid
    cases hid
  · exact ⟨x, k, hbring⟩

/-- The counts of the packets under way, with one of them set apart. -/
theorem flying_cons (p : AnonymousPacket) (others : Multiset AnonymousPacket)
    (k : Nat) (y : Bool) :
    (p ::ₘ others).countP (fun q => isRequest R S k y q) =
      others.countP (fun q => isRequest R S k y q) +
        if isRequest R S k y p then 1 else 0 :=
  Multiset.countP_cons ..

theorem coming_cons (p : AnonymousPacket) (others : Multiset AnonymousPacket)
    (k : Nat) (y : Bool) :
    (p ::ₘ others).countP (fun q => isReply R S k y q) =
      others.countP (fun q => isReply R S k y q) +
        if isReply R S k y p then 1 else 0 :=
  Multiset.countP_cons ..

theorem sent_post (w : Payloads) (x : Bool) (buf : List UInt8) (k : Nat) (y : Bool) :
    (if k < (Function.update w x (w x ++ [buf]) y).length then 1 else 0) =
      (if k < (w y).length then 1 else 0) + mark (w x).length x k y := by
  unfold mark tick
  by_cases hy : y = x
  · subst hy
    rw [Function.update_self, List.length_append, List.length_singleton, if_pos rfl]
    split_ifs <;> omega
  · simp only [Function.update_of_ne hy, if_neg hy, ite_self, Nat.add_zero]

theorem cell_post (x : Bool) (buf : List UInt8) (q : AnonymousPacket)
    (hq : Flies R (S.request R x (w x).length buf) q) (k : Nat) :
    Cell.Step (cell R S home w v k)
      (cell R S home (Function.update w x (w x ++ [buf]))
        { v with mail := q ::ₘ v.mail } k) := by
  have hask : Asks R S (Function.update w x (w x ++ [buf])) x (w x).length q :=
    ⟨buf, by simp, hq.carries⟩
  have hflying : ∀ y, (q ::ₘ v.mail).countP (fun p => isRequest R S k y p) =
      v.mail.countP (fun p => isRequest R S k y p) + mark (w x).length x k y := by
    intro y
    rw [flying_cons, hask.isRequest]
  have hcoming : (fun y => (q ::ₘ v.mail).countP (fun p => isReply R S k y p)) =
      fun y => v.mail.countP (fun p => isReply R S k y p) := by
    funext y
    rw [coming_cons, hask.isReply]
    rfl
  have hsent := sent_post w x buf k
  by_cases hk : k = (w x).length
  · subst hk
    simp only [mark_self] at hflying hsent
    exact .post x (if_neg (Nat.lt_irrefl _)) hsent hflying rfl hcoming rfl
  · simp only [mark_of_ne hk, Nat.add_zero] at hflying hsent
    exact .stay (Cell.ext (funext hsent) (funext hflying) rfl hcoming rfl)

theorem cell_hop (p q : AnonymousPacket) (others : Multiset AnonymousPacket)
    (hmail : v.mail = p ::ₘ others) (hq : Flies R (DAENode.passOn p) q) (k : Nat) :
    Cell.Step (cell R S home w v k)
      (cell R S home w { v with mail := q ::ₘ others } k) := by
  have hreq : ∀ y, isRequest R S k y q = isRequest R S k y p := by
    intro y
    unfold isRequest
    rw [hq.carries.id, hq.carries.seq, hq.carries.client]
    rfl
  have hrep : ∀ y, isReply R S k y q = isReply R S k y p := by
    intro y
    unfold isReply
    rw [hq.carries.id, hq.carries.seq, hq.carries.key]
    rfl
  refine .stay (Cell.ext rfl (funext ?_) rfl (funext ?_) rfl)
  · intro y
    show (q ::ₘ others).countP _ = v.mail.countP _
    rw [hmail, flying_cons, flying_cons, hreq]
  · intro y
    show (q ::ₘ others).countP _ = v.mail.countP _
    rw [hmail, coming_cons, coming_cons, hrep]

/-- The node a marked request is handed to is the one of its dead drop. -/
theorem Letters.home_eq (h : Letters R S w v) (hhome : ∀ k, R.IsSucc (S.drop R k) (home k))
    {p : AnonymousPacket} (hp : p ∈ v.mail) {x : Bool} {k : Nat}
    (hask : Asks R S w x k p) (hd : p.header.isDest = true) {i : ι}
    (hdest : p.dest = R.addr i) : i = home k := by
  refine (h.mail p hp).1.eq hd hdest ?_ ?_
  · rw [hask.key]
    exact hhome k
  · rw [hask.key]
    exact S.drop_lt R k

/-- The node a marked reply is handed to is its party's. -/
theorem Letters.party_eq (h : Letters R S w v) {p : AnonymousPacket}
    (hp : p ∈ v.mail) {x : Bool} {k : Nat} (hbring : Brings R S w x k p)
    (hd : p.header.isDest = true) {i : ι} (hdest : p.dest = R.addr i) :
    i = S.node x := by
  refine (h.mail p hp).1.eq hd hdest ?_ ?_
  · rw [hbring.key]
    exact R.isSucc_id (S.node x)
  · rw [hbring.key]
    exact R.id_lt_size (S.node x)

theorem sent_kept {x y : Bool} {buf : List UInt8} {k : Nat} {t : List UInt8}
    (h : (w y)[k]? = some t) :
    (Function.update w x (w x ++ [buf]) y)[k]? = some t := by
  by_cases hy : y = x
  · subst hy
    rw [Function.update_self]
    obtain ⟨hlt, _⟩ := List.getElem?_eq_some_iff.mp h
    rw [List.getElem?_append_left hlt]
    exact h
  · rw [Function.update_of_ne hy]
    exact h

theorem Asks.post {x y : Bool} {buf : List UInt8} {k : Nat} {p : AnonymousPacket}
    (h : Asks R S w y k p) : Asks R S (Function.update w x (w x ++ [buf])) y k p := by
  obtain ⟨payload, hw, hcar⟩ := h
  exact ⟨payload, sent_kept hw, hcar⟩

theorem Brings.post {x y : Bool} {buf : List UInt8} {k : Nat} {p : AnonymousPacket}
    (h : Brings R S w y k p) :
    Brings R S (Function.update w x (w x ++ [buf])) y k p := by
  obtain ⟨payload, hw, hcar⟩ := h
  exact ⟨payload, sent_kept hw, hcar⟩

theorem Letters.post (h : Letters R S w v) {x : Bool} {buf : List UInt8}
    {q : AnonymousPacket} (hq : Flies R (S.request R x (w x).length buf) q) :
    Letters R S (Function.update w x (w x ++ [buf]))
      { v with mail := q ::ₘ v.mail } := by
  refine ⟨?_, ?_, ?_⟩
  · intro p hp
    rcases Multiset.mem_cons.mp hp with rfl | hp
    · exact ⟨hq.aimed, x, _, Or.inl ⟨buf, by simp, hq.carries⟩⟩
    · obtain ⟨haim, y, k, hletter⟩ := h.mail p hp
      exact ⟨haim, y, k, hletter.imp Asks.post Brings.post⟩
  · intro i seq p hp
    obtain ⟨y, k, hseq, hask⟩ := h.table i seq p hp
    exact ⟨y, k, hseq, hask.post⟩
  · intro i p hp
    obtain ⟨y, k, hi, hbring⟩ := h.box i p hp
    exact ⟨y, k, hi, hbring.post⟩

section

variable [DecidableEq ι]

/-- A table entry of one number, as the cells see it. -/
theorem waiting_update (v : View ι) (home : Nat → ι) (i : ι) (a : Nat)
    (e : Option AnonymousPacket) (k : Nat) (h : k = a → i = home k) :
    Function.update v.table i (Function.update (v.table i) (a : Int) e) (home k) k =
      if k = a then e else v.table (home k) k := by
  by_cases hk : k = a
  · rw [if_pos hk, ← h hk, Function.update_self, hk, Function.update_self]
  · have hne : (k : Int) ≠ a := by omega
    rw [if_neg hk]
    by_cases hi : home k = i
    · rw [hi, Function.update_self, Function.update_of_ne hne]
    · rw [Function.update_of_ne hi]

theorem cell_wait {i : ι} {p : AnonymousPacket} {others : Multiset AnonymousPacket}
    (hmail : v.mail = p ::ₘ others) {x : Bool} {a : Nat} (hask : Asks R S w x a p)
    (hi : i = home a) (hnone : v.table i a = none) (k : Nat) :
    Cell.Step (cell R S home w v k)
      (cell R S home w
        { v with
          mail := others
          table := Function.update v.table i
            (Function.update (v.table i) (a : Int) (some p)) } k) := by
  have hflying : ∀ y, v.mail.countP (fun q => isRequest R S k y q) =
      others.countP (fun q => isRequest R S k y q) + mark a x k y := by
    intro y
    rw [hmail, flying_cons, hask.isRequest]
  have hcoming : (fun y => others.countP (fun q => isReply R S k y q)) =
      fun y => v.mail.countP (fun q => isReply R S k y q) := by
    funext y
    rw [hmail, coming_cons, hask.isReply]
    rfl
  have hentry := waiting_update v home i a (some p) k
    (fun he => he ▸ hi)
  by_cases hk : k = a
  · subst hk
    subst hi
    rw [if_pos rfl] at hentry
    simp only [mark_self] at hflying
    refine .wait x ?_ rfl hflying ?_ hcoming rfl
    · intro y
      show (v.table (home k) k).toList.countP _ = 0
      rw [hnone]
      rfl
    · intro y
      show (Function.update v.table _ _ (home k) (k : Int)).toList.countP _ = _
      rw [hentry, Option.toList_some, List.countP_singleton, hask.isRequest, mark_self]
  · rw [if_neg hk] at hentry
    simp only [mark_of_ne hk, Nat.add_zero] at hflying
    refine .stay (Cell.ext rfl (funext fun y => (hflying y).symm) (funext ?_) hcoming rfl)
    intro y
    show (Function.update v.table _ _ (home k) (k : Int)).toList.countP _ = _
    rw [hentry]
    rfl

theorem cell_swap {i : ι} {p q p' q' : AnonymousPacket}
    {others : Multiset AnonymousPacket} (hmail : v.mail = p ::ₘ others)
    {x x' : Bool} {a : Nat} (hp : Asks R S w x a p) (hq : Asks R S w x' a q)
    (hi : i = home a) (hsome : v.table i a = some q)
    (hp' : ∀ k y, isRequest R S k y p' = false ∧
      (if isReply R S k y p' then 1 else 0) = mark a x k y)
    (hq' : ∀ k y, isRequest R S k y q' = false ∧
      (if isReply R S k y q' then 1 else 0) = mark a x' k y) (k : Nat) :
    Cell.Step (cell R S home w v k)
      (cell R S home w
        { v with
          mail := p' ::ₘ q' ::ₘ others
          table := Function.update v.table i
            (Function.update (v.table i) (a : Int) none) } k) := by
  have hflying : ∀ y, v.mail.countP (fun q => isRequest R S k y q) =
      (p' ::ₘ q' ::ₘ others).countP (fun q => isRequest R S k y q) + mark a x k y := by
    intro y
    rw [hmail, flying_cons, flying_cons, flying_cons, hp.isRequest, (hp' k y).1,
      (hq' k y).1]
    rfl
  have hcoming : ∀ y,
      (p' ::ₘ q' ::ₘ others).countP (fun q => isReply R S k y q) =
        v.mail.countP (fun q => isReply R S k y q) + mark a x k y + mark a x' k y := by
    intro y
    rw [hmail, coming_cons, coming_cons, coming_cons, hp.isReply, (hp' k y).2,
      (hq' k y).2]
    simp only [Bool.false_eq_true, if_false]
    omega
  have hentry := waiting_update v home i a none k
    (fun he => he ▸ hi)
  by_cases hk : k = a
  · subst hk
    subst hi
    rw [if_pos rfl] at hentry
    simp only [mark_self] at hflying hcoming
    refine .swap x x' ?_ rfl hflying ?_ hcoming rfl
    · intro y
      show (v.table (home k) k).toList.countP _ = _
      rw [hsome, Option.toList_some, List.countP_singleton, hq.isRequest, mark_self]
    · intro y
      show (Function.update v.table _ _ (home k) (k : Int)).toList.countP _ = 0
      rw [hentry]
      rfl
  · rw [if_neg hk] at hentry
    simp only [mark_of_ne hk, Nat.add_zero] at hflying hcoming
    refine .stay (Cell.ext rfl (funext fun y => (hflying y).symm) (funext ?_)
      (funext hcoming) rfl)
    intro y
    show (Function.update v.table _ _ (home k) (k : Int)).toList.countP _ = _
    rw [hentry]
    rfl

theorem cell_take {p : AnonymousPacket} {others : Multiset AnonymousPacket}
    (hmail : v.mail = p ::ₘ others) {x : Bool} {a : Nat} (hp : Brings R S w x a p)
    (k : Nat) :
    Cell.Step (cell R S home w v k)
      (cell R S home w
        { v with
          mail := others
          box := Function.update v.box (S.node x) (v.box (S.node x) ++ [p]) } k) := by
  have hflying : (fun y => others.countP (fun q => isRequest R S k y q)) =
      fun y => v.mail.countP (fun q => isRequest R S k y q) := by
    funext y
    rw [hmail, flying_cons, hp.isRequest]
    rfl
  have hcoming : ∀ y, v.mail.countP (fun q => isReply R S k y q) =
      others.countP (fun q => isReply R S k y q) + mark a x k y := by
    intro y
    rw [hmail, coming_cons, hp.isReply]
  have hgot : ∀ y, (Function.update v.box (S.node x) (v.box (S.node x) ++ [p])
      (S.node y)).countP (isReply R S k y) =
        (v.box (S.node y)).countP (isReply R S k y) + mark a x k y := by
    intro y
    by_cases hy : y = x
    · subst hy
      rw [Function.update_self, List.countP_append, List.countP_singleton, hp.isReply]
    · have hne : S.node y ≠ S.node x := fun he => hy (S.node_inj he)
      have hno : mark a x k y = 0 := by
        unfold mark tick
        rw [if_neg hy, ite_self]
      rw [Function.update_of_ne hne, hno, Nat.add_zero]
  by_cases hk : k = a
  · subst hk
    simp only [mark_self] at hcoming hgot
    exact .take x rfl hflying rfl hcoming hgot
  · simp only [mark_of_ne hk, Nat.add_zero] at hcoming hgot
    exact .stay (Cell.ext rfl hflying rfl (funext fun y => (hcoming y).symm)
      (funext hgot))

/-! ## The invariant -/

/-- The entries after one has been written. -/
theorem Letters.table_update (h : Letters R S w v) {i : ι} {a : Nat}
    {e : Option AnonymousPacket} (he : ∀ p, e = some p → ∃ x, Asks R S w x a p)
    (j : ι) (seq : Int) (p : AnonymousPacket)
    (hp : Function.update v.table i (Function.update (v.table i) (a : Int) e) j seq =
      some p) :
    ∃ x, ∃ k : Nat, seq = k ∧ Asks R S w x k p := by
  by_cases hj : j = i
  · subst hj
    rw [Function.update_self] at hp
    by_cases hseq : seq = a
    · subst hseq
      rw [Function.update_self] at hp
      obtain ⟨x, hask⟩ := he p hp
      exact ⟨x, a, rfl, hask⟩
    · rw [Function.update_of_ne hseq] at hp
      exact h.table j seq p hp
  · rw [Function.update_of_ne hj] at hp
    exact h.table j seq p hp

theorem Letters.box_update (h : Letters R S w v) {x : Bool} {a : Nat}
    {p : AnonymousPacket} (hp : Brings R S w x a p) (j : ι) (r : AnonymousPacket)
    (hr : r ∈ Function.update v.box (S.node x) (v.box (S.node x) ++ [p]) j) :
    ∃ y k, j = S.node y ∧ Brings R S w y k r := by
  by_cases hj : j = S.node x
  · subst hj
    rw [Function.update_self] at hr
    rcases List.mem_append.mp hr with hr | hr
    · exact h.box _ r hr
    · rw [List.mem_singleton.mp hr]
      exact ⟨x, a, rfl, hp⟩
  · rw [Function.update_of_ne hj] at hr
    exact h.box j r hr

/-- Every move keeps the invariant. -/
theorem Exchanged.move (h : Exchanged R S home w v)
    (hhome : ∀ k, R.IsSucc (S.drop R k) (home k)) {w' : Payloads} {v' : View ι}
    (hm : Moves R S w v w' v') : Exchanged R S home w' v' := by
  have hl := h.letters
  cases hm with
  | rest => exact h
  | post x buf q hq =>
      exact ⟨hl.post hq, fun k => (h.cells k).step (cell_post x buf q hq k)⟩
  | hop p q others hmail hd hq =>
      refine ⟨⟨?_, hl.table, hl.box⟩,
        fun k => (h.cells k).step (cell_hop p q others hmail hq k)⟩
      intro r hr
      rcases Multiset.mem_cons.mp hr with rfl | hr
      · obtain ⟨_, x, k, hletter⟩ := hl.mail p (by simp [hmail])
        exact ⟨hq.aimed, x, k, hletter.imp (fun ha => ha.passOn hq.carries)
          fun hb => hb.passOn hq.carries⟩
      · exact hl.mail r (by simp [hmail, hr])
  | wait i p others hmail hid hd hdest hnone =>
      have hp : p ∈ v.mail := by simp [hmail]
      obtain ⟨x, a, hask⟩ := hl.asks hp hid
      have hi := hl.home_eq hhome hp hask hd hdest
      rw [hask.index] at hnone ⊢
      refine ⟨⟨fun r hr => hl.mail r (by simp [hmail, hr]), ?_, hl.box⟩,
        fun k => (h.cells k).step (cell_wait hmail hask hi hnone k)⟩
      refine hl.table_update ?_
      intro r hr
      injection hr with hr
      subst hr
      exact ⟨x, hask⟩
  | swap i p q p' q' others hmail hid hd hdest hsome hp' hq' =>
      have hp : p ∈ v.mail := by simp [hmail]
      obtain ⟨x, a, hask⟩ := hl.asks hp hid
      have hi := hl.home_eq hhome hp hask hd hdest
      obtain ⟨x', a', ha, hwait⟩ := hl.table i _ q hsome
      rw [hask.index] at ha hsome ⊢
      obtain rfl : a = a' := by omega
      -- The one that waits is the other party's, since neither sends twice.
      have hother : x' = !x := by
        refine (h.cells a).partner (x := x) ?_ ?_
        · show 0 < v.mail.countP _
          rw [hmail, flying_cons, hask.isRequest, mark_self, tick, if_pos rfl]
          omega
        · show 0 < (v.table (home a) a).toList.countP _
          rw [← hi, hsome, Option.toList_some, List.countP_singleton, hwait.isRequest,
            mark_self, tick, if_pos rfl]
          omega
      subst hother
      have hbring : Brings R S w x a p' :=
        brings_of_swap hask hwait hask.client hp'.carries
      have hbring' : Brings R S w (!x) a q' := by
        refine brings_of_swap hask ?_ hwait.client hq'.carries
        rw [Bool.not_not]
        exact hask
      refine ⟨⟨?_, hl.table_update (fun r hr => by cases hr), hl.box⟩, fun k =>
        (h.cells k).step (cell_swap hmail hask hwait hi hsome
          (fun k y => ⟨hbring.isRequest k y, hbring.isReply k y⟩)
          (fun k y => ⟨hbring'.isRequest k y, hbring'.isReply k y⟩) k)⟩
      intro r hr
      rcases Multiset.mem_cons.mp hr with rfl | hr
      · exact ⟨hp'.aimed, x, a, Or.inr hbring⟩
      · rcases Multiset.mem_cons.mp hr with rfl | hr
        · exact ⟨hq'.aimed, !x, a, Or.inr hbring'⟩
        · exact hl.mail r (by simp [hmail, hr])
  | take i p others hmail hid hd hdest =>
      have hp : p ∈ v.mail := by simp [hmail]
      obtain ⟨x, a, hbring⟩ := hl.brings hp hid
      obtain rfl := hl.party_eq hp hbring hd hdest
      exact ⟨⟨fun r hr => hl.mail r (by simp [hmail, hr]), hl.table,
        hl.box_update hbring⟩, fun k => (h.cells k).step (cell_take hmail hbring k)⟩

end

/-! ## What the parties see -/

section

variable {x : Bool}

/-- A party receives the other's messages, under their numbers. -/
theorem Exchanged.received (h : Exchanged R S home w v) {p : AnonymousPacket}
    (hp : p ∈ v.box (S.node x)) : ∃ k, Brings R S w x k p := by
  obtain ⟨y, k, hnode, hbring⟩ := h.letters.box _ p hp
  rw [S.node_inj hnode]
  exact ⟨k, hbring⟩

/-- In a party's box the number alone decides what a packet counts as. -/
theorem Exchanged.countP_box (h : Exchanged R S home w v) (k : Nat) :
    (v.box (S.node x)).countP (fun p => p.header.index == (k : Int)) =
      (v.box (S.node x)).countP (isReply R S k x) := by
  refine List.countP_congr ?_
  intro p hp
  obtain ⟨a, hbring⟩ := h.received hp
  unfold isReply
  rw [hbring.id, hbring.index, hbring.key]
  simp

/-- No number is received twice. -/
theorem Exchanged.once (h : Exchanged R S home w v) :
    ((v.box (S.node x)).map fun p => p.header.index).Nodup := by
  rw [List.nodup_iff_count_le_one]
  intro seq
  by_cases hseq : seq ∈ (v.box (S.node x)).map fun p => p.header.index
  · obtain ⟨p, hp, rfl⟩ := List.mem_map.mp hseq
    obtain ⟨k, hbring⟩ := h.received hp
    rw [hbring.index, List.count, List.countP_map]
    exact (h.countP_box k).trans_le ((h.cells k).got_le x)
  · rw [List.count_eq_zero.mpr hseq]
    omega

/-- With nothing under way, a party has received exactly the numbers that both
have sent. -/
theorem Exchanged.complete (h : Exchanged R S home w v) (hmail : v.mail = 0) (k : Nat) :
    (∃ p ∈ v.box (S.node x), p.header.index = k) ↔
      k < (w false).length ∧ k < (w true).length := by
  have hrest := (h.cells k).at_rest (x := x) (fun y => by simp [cell, hmail])
    (fun y => by simp [cell, hmail])
  have hgot : (∃ p ∈ v.box (S.node x), p.header.index = k) ↔
      (cell R S home w v k).got x = 1 := by
    have hle := (h.cells k).got_le x
    have hcount : (cell R S home w v k).got x =
        (v.box (S.node x)).countP (fun p => p.header.index == (k : Int)) :=
      (h.countP_box k).symm
    have hpos : (∃ p ∈ v.box (S.node x), p.header.index = k) ↔
        0 < (v.box (S.node x)).countP (fun p => p.header.index == (k : Int)) := by
      rw [List.countP_pos_iff]
      simp
    rw [hpos, ← hcount]
    omega
  rw [hgot, hrest, Bool.forall_bool]
  simp [cell]

end

end Daenet.Proofs
