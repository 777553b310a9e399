import Daenet.Lib.Circle
import Daenet.Ref.System

/-!
# The ring the nodes stand on

What the protocol is about, said without the protocol: a set of nodes with
distinct ids below `2 ^ m` and distinct addresses, and for every key the node
responsible for it — the first one at or clockwise after the key. Two sockets
cannot be bound to one address, so distinct addresses are a fact of the
network and not an assumption about the code.

Ids are compared in doubles, which is exact up to 52 bits (`m ≤ 52`); the
finger starts are computed with `int` shifts, which is exact up to 30, and the
theorems that depend on the starts say so.
-/

namespace Daenet.Ref

/-- The `(id, ip, port)` a finger holds. -/
def ChordFinger.peer (f : ChordFinger) : PeerPair := ⟨f.ip, f.port, f.successor⟩

@[simp] theorem DAENode.setFinger_peer (n : DAENode) (k : Int) (p : PeerPair) :
    ((n.setFinger k p).fingerTable k).peer = p := by
  simp [DAENode.setFinger, DAENode.modifyFinger, ChordFinger.peer]

/-- The triple a node keeps for its predecessor. -/
def DAENode.predecessorPeer (n : DAENode) : PeerPair :=
  ⟨n.predecessorIp, n.predecessorPort, n.predecessor⟩

/-- The triple a node was told for the predecessor of its successor. -/
def DAENode.ofSuccessorPeer (n : DAENode) : PeerPair :=
  ⟨n.predecessorOfSuccessorIp, n.predecessorOfSuccessorPort,
    n.predecessorOfSuccessor⟩

/-- The `(id, ip, port)` in a packet's key fields. -/
def AnonymousPacket.keyPeer (p : AnonymousPacket) : PeerPair :=
  ⟨p.header.keyIp, p.header.keyPort, p.header.keyId⟩

/-- The `(id, ip, port)` a notification is about: its address is the sender's. -/
def AnonymousPacket.notifier (p : AnonymousPacket) : PeerPair :=
  ⟨p.header.relayIp, p.header.keyPort, p.header.keyId⟩

/-- Where a packet asks its answer to be sent. -/
def AnonymousPacket.replyTo (p : AnonymousPacket) : String × Int :=
  (p.header.relayReplyIp, p.header.relayReplyPort)

end Daenet.Ref

namespace Daenet.Spec

open Daenet.Lib Daenet.Ref

/-- The nodes of a network. -/
structure Roster (ι : Type) where
  m : Nat
  cfg : ι → RelayConfig
  bits_pos : 0 < m
  bits_le : m ≤ 52
  ringBits : ∀ i, (cfg i).ringBits = m
  id_lt : ∀ i, (cfg i).relayId < 2 ^ m
  id_inj : Function.Injective fun i => (cfg i).relayId
  addr_inj : Function.Injective fun i => ((cfg i).relayIp, (cfg i).relayPort)

namespace Roster

variable {ι : Type} (R : Roster ι)

/-- The number of places on the ring. -/
def size : Nat := 2 ^ R.m

/-- The id of a node. -/
def id (i : ι) : Nat := (R.cfg i).relayId

/-- The address of a node. -/
def addr (i : ι) : String × Int := ((R.cfg i).relayIp, (R.cfg i).relayPort)

/-- The `(id, ip, port)` of a node. -/
def peer (i : ι) : PeerPair :=
  ⟨(R.cfg i).relayIp, (R.cfg i).relayPort, (R.cfg i).relayId⟩

/-- A triple that is the `(id, ip, port)` of one node. -/
def Real (t : PeerPair) : Prop := ∃ i, R.peer i = t

/-- Node `i` is responsible for the key `k`: no node is met before it when
walking clockwise from `k`. -/
def IsSucc (k : Nat) (i : ι) : Prop :=
  ∀ j, cw R.size k (R.id i) ≤ cw R.size k (R.id j)

/-- Node `j` is the next one clockwise after node `i`; a lone node is its own
next. -/
def IsNext (i j : ι) : Prop :=
  ∀ l, span R.size (R.id i) (R.id j) ≤ span R.size (R.id i) (R.id l)

/-- The state of a node carries that node's own identity. -/
structure Owns (i : ι) (n : DAENode) : Prop where
  m : n.m = R.m
  id : n.id = R.id i
  ip : n.nodeIp = (R.cfg i).relayIp
  port : n.port = (R.cfg i).relayPort

/-- Every finger names a node, by id and address alike. -/
def Live (n : DAENode) : Prop := ∀ t < R.m, R.Real (n.fingerTable t).peer

/-- The first finger of node `i` is the next node clockwise. -/
def PointsNext (i : ι) (n : DAENode) : Prop :=
  ∃ j, R.IsNext i j ∧ (n.fingerTable 0).peer = R.peer j

/-- The place finger `t` of node `i` starts at. -/
def start (i : ι) (t : Nat) : Nat := (R.id i + 2 ^ t) % R.size

/-- The finger starts are those of the constructor: no handler writes them. -/
def Starts (i : ι) (n : DAENode) : Prop :=
  ∀ t < R.m, (n.fingerTable t).start =
    ((DAENode.new (R.cfg i)).fingerTable t).start

theorem id_lt_size (i : ι) : R.id i < R.size := R.id_lt i

theorem id_ne {i j : ι} (h : i ≠ j) : R.id i ≠ R.id j :=
  fun he => h (R.id_inj he)

theorem id_eq_iff {i j : ι} : R.id i = R.id j ↔ i = j :=
  ⟨fun h => R.id_inj h, fun h => h ▸ rfl⟩

theorem finite (R : Roster ι) : Finite ι :=
  Finite.of_injective (fun i => (⟨R.id i, R.id_lt_size i⟩ : Fin R.size))
    fun _ _ h => R.id_inj (Fin.mk.inj h)

theorem size_lt_noId : R.size < noId := by
  have h : (2 : Nat) ^ R.m ≤ 2 ^ 52 := Nat.pow_le_pow_right (by omega) R.bits_le
  have hn : (2 : Nat) ^ 52 < noId := by decide
  exact Nat.lt_of_le_of_lt h hn

theorem id_ne_noId (i : ι) : R.id i ≠ noId :=
  Nat.ne_of_lt (Nat.lt_trans (R.id_lt_size i) R.size_lt_noId)

theorem peer_inj {i j : ι} (h : R.peer i = R.peer j) : i = j :=
  R.id_inj (congrArg PeerPair.relayId h)

theorem exists_isSucc [Nonempty ι] (k : Nat) : ∃ i, R.IsSucc k i :=
  ⟨Function.argmin fun i => cw R.size k (R.id i),
    fun j => Function.argmin_le (fun i => cw R.size k (R.id i)) j⟩

theorem isSucc_unique {k : Nat} (hk : k < R.size) {i j : ι}
    (hi : R.IsSucc k i) (hj : R.IsSucc k j) : i = j :=
  R.id_inj (cw_right_inj hk (R.id_lt_size i) (R.id_lt_size j)
    (Nat.le_antisymm (hi j) (hj i)))

theorem isNext_unique {i j l : ι} (hj : R.IsNext i j) (hl : R.IsNext i l) :
    j = l :=
  R.id_inj (span_right_inj (R.id_lt_size i) (R.id_lt_size j) (R.id_lt_size l)
    (Nat.le_antisymm (hj l) (hl j)))

/-- No two nodes have the same next node. -/
theorem isNext_left_inj {i j l : ι} (hi : R.IsNext i l) (hj : R.IsNext j l) :
    i = j :=
  R.id_inj (eq_of_span_le (R.id_lt_size i) (R.id_lt_size j)
    (hi j) (hj i))

/-- The next node is the one responsible for the place after. -/
theorem isNext_iff_isSucc {i j : ι} :
    R.IsNext i j ↔ R.IsSucc ((R.id i + 1) % R.size) j := by
  have hspan := fun l => span_eq_cw_succ (R.id_lt_size i) (R.id_lt_size l)
  constructor
  · intro h l
    have hl := h l
    rw [hspan j, hspan l] at hl
    omega
  · intro h l
    rw [hspan j, hspan l]
    exact Nat.succ_le_succ (h l)

/-- The nodes as members of a circle. -/
def circle : Circle ι where
  size := R.size
  place := R.id
  place_lt := R.id_lt_size
  place_inj := R.id_inj

/-- A node is responsible for its own id. -/
theorem isSucc_id (i : ι) : R.IsSucc (R.id i) i := by
  intro j
  rw [cw_self]
  exact Nat.zero_le _

/-- The next node is responsible for every key after `i` up to itself. -/
theorem isSucc_of_isNext {i j : ι} (hnext : R.IsNext i j) {k : Nat}
    (hk : k < R.size) (harc : k = R.id j ∨ Between R.size (R.id i) k (R.id j)) :
    R.IsSucc k j := by
  intro l
  rcases harc with rfl | hbetween
  · rw [cw_self]; exact Nat.zero_le _
  · exact cw_le_of_between (R.id_lt_size i) hk (R.id_lt_size j) (R.id_lt_size l)
      (hnext l) hbetween

/-- No node lies strictly between a node and the next one. -/
theorem not_between_of_isNext {i j : ι} (hnext : R.IsNext i j) (l : ι) :
    ¬ Between R.size (R.id i) (R.id l) (R.id j) := by
  rw [between_iff_span]
  rintro ⟨_, hlt⟩
  exact absurd (hnext l) (by omega)

theorem exists_isNext [Nonempty ι] (R : Roster ι) :
    ∃ f : ι → ι, ∀ i, R.IsNext i (f i) := by
  refine Classical.skolem.mp fun i => ?_
  obtain ⟨j, hj⟩ := R.exists_isSucc ((R.id i + 1) % R.size)
  exact ⟨j, R.isNext_iff_isSucc.mpr hj⟩

/-- Walking clockwise, a node is met again only after all the others. -/
theorem card_le_of_return {S : Nat → ι} (hS : ∀ k, R.IsNext (S k) (S (k + 1)))
    {k : Nat} (hk : 0 < k) (hback : S k = S 0) : Nat.card ι ≤ k := by
  have := R.finite
  have : Nonempty ι := ⟨S 0⟩
  obtain ⟨f, hf⟩ := R.exists_isNext
  have hiter : ∀ k, S k = f^[k] (S 0) := by
    intro k
    induction k with
    | zero => rfl
    | succ k ih =>
        rw [Function.iterate_succ_apply', ← ih]
        exact R.isNext_unique (hS k) (hf (S k))
  exact Circle.card_le_of_return (C := R.circle) (fun i l => hf i l) hk
    ((hiter k).symm.trans hback)

theorem start_lt (i : ι) (t : Nat) : R.start i t < R.size :=
  Nat.mod_lt _ (Nat.two_pow_pos R.m)

theorem cw_start (i : ι) {t : Nat} (ht : t < R.m) :
    cw R.size (R.id i) (R.start i t) = 2 ^ t :=
  cw_add (R.id_lt_size i) (Nat.pow_lt_pow_right (by omega) ht)

/-- The constructor's starts, as long as its `int` shifts do not overflow. -/
theorem start_new (hm : R.m ≤ 30) (i : ι) {t : Nat} (ht : t < R.m) :
    ((DAENode.new (R.cfg i)).fingerTable t).start = R.start i t := by
  have hid : R.id i < 2 ^ 30 :=
    Nat.lt_of_lt_of_le (R.id_lt i) (Nat.pow_le_pow_right (by omega) hm)
  have hpow : (2 : Nat) ^ t ≤ 2 ^ 30 := Nat.pow_le_pow_right (by omega) (by omega)
  have hfit : R.id i + 2 ^ t < 2 ^ 64 := by omega
  show (R.id i + intShl (t : Int).toNat) % 2 ^ 64 % intShl (R.cfg i).ringBits = _
  rw [Int.toNat_natCast, intShl_eq t (by omega), R.ringBits i, intShl_eq R.m hm,
    Nat.mod_eq_of_lt hfit]
  rfl

theorem owns_new (i : ι) : R.Owns i (DAENode.new (R.cfg i)) :=
  ⟨R.ringBits i, rfl, rfl, rfl⟩

theorem live_new (i : ι) : R.Live (DAENode.new (R.cfg i)) :=
  fun _ _ => ⟨i, rfl⟩

end Roster

/-- For the numerals that name the two nodes of a pair. -/
instance neZero_pair : NeZero 2 := ⟨Nat.succ_ne_zero 1⟩

/-- Two nodes on the smallest ring, the second one joining through the first:
what the concrete cases of this development are run on. -/
def pairRoster : Roster (Fin 2) where
  m := 1
  cfg := fun i =>
    { relayIp := "10.22.1.16"
      relayPort := 3010 + i.val
      relayId := i.val
      ringBits := 1
      initPeers := ⟨"10.22.1.16", 3010, 0⟩ }
  bits_pos := by decide
  bits_le := by decide
  ringBits := fun _ => rfl
  id_lt := by decide
  id_inj := by unfold Function.Injective; decide
  addr_inj := by unfold Function.Injective; decide

/-- The two nodes, each with the other one as successor. -/
def pairNodes (i : Fin 2) : DAENode :=
  (DAENode.new (pairRoster.cfg i)).setFinger 0 (pairRoster.peer (1 - i))

theorem pairNodes_owns (i : Fin 2) : pairRoster.Owns i (pairNodes i) :=
  ⟨rfl, rfl, rfl, rfl⟩

theorem pairNodes_live (i : Fin 2) : pairRoster.Live (pairNodes i) := by
  intro t ht
  have h0 : t = 0 := Nat.lt_one_iff.mp ht
  subst h0
  exact ⟨1 - i, rfl⟩

theorem pairNodes_pointsNext (i : Fin 2) :
    pairRoster.PointsNext i (pairNodes i) := by
  refine ⟨1 - i, ?_, rfl⟩
  unfold Roster.IsNext
  revert i
  decide

end Daenet.Spec
