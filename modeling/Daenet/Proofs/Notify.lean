import Daenet.Proofs.InRange
import Mathlib.Data.List.MinMax

/-!
# The predecessor is the closest notifier

`notify` keeps the predecessor it has unless the notifier lies strictly between
it and the node. Both stand before the node, so lying between is being nearer
(`between_iff_cw_lt`), and a sequence of calls leaves what `List.argmin` picks:
the first of the notifiers at the smallest clockwise distance. The sentinel of
a node that was never notified is not an id and is replaced by any call.

The argmin is by id. Which address stands beside it is settled by the order of
the calls when one id was notified under two addresses, and by nothing else.
-/

namespace Daenet.Proofs

open Daenet.Lib Daenet.Ref Daenet.Spec

/-- `notify` called once for each notifier, in order. -/
def notifyAll (n : DAENode) (calls : List PeerPair) : DAENode :=
  calls.foldl (fun n p => n.notify p.relayId p.ip p.port) n

/-- How far before node `n` a notifier stands. -/
def before (n : DAENode) (p : PeerPair) : Nat := cw (2 ^ n.m) p.relayId n.id

/-- A notifier the ring can have: an id below `2 ^ m`, and not the node's own. -/
def Notifier (n : DAENode) (p : PeerPair) : Prop :=
  p.relayId < 2 ^ n.m ∧ p.relayId ≠ n.id

/-- The node with a notifier for predecessor. -/
def withPredecessor (n : DAENode) (p : PeerPair) : DAENode :=
  n.setpredecessor p.relayId p.ip p.port

variable {n : DAENode} {p q : PeerPair} {calls : List PeerPair}

@[simp] theorem withPredecessor_peer :
    (withPredecessor n p).predecessorPeer = p := rfl

theorem notifyAll_concat :
    notifyAll n (calls ++ [p]) =
      (notifyAll n calls).notify p.relayId p.ip p.port :=
  List.foldl_concat ..

theorem notify_fresh (hfresh : n.predecessor = noId) :
    n.notify p.relayId p.ip p.port = withPredecessor n p :=
  if_pos (Or.inl hfresh)

/-- One call on a node that has a predecessor: the nearer one stays, the one it
had if they are equally near. -/
theorem notify_withPredecessor (hm : n.m ≤ 52) (hid : n.id < 2 ^ n.m)
    (hq : Notifier n q) (hp : Notifier n p) :
    (withPredecessor n q).notify p.relayId p.ip p.port =
      withPredecessor n (if before n p < before n q then p else q) := by
  have hno : q.relayId ≠ noId := by
    have hpow : (2 : Nat) ^ n.m ≤ 2 ^ 52 := Nat.pow_le_pow_right (by omega) hm
    have hlt : (2 : Nat) ^ 52 < noId := by decide
    have := hq.1
    omega
  have hrange : (withPredecessor n q).isInRange q.relayId n.id p.relayId = true
      ↔ before n p < before n q :=
    (isInRange_iff (n := withPredecessor n q) hm hq.1 hid hp.1).trans
      (between_iff_cw_lt hq.1 hid hp.1 hq.2 hp.2)
  unfold DAENode.notify
  by_cases h : before n p < before n q
  · rw [if_pos h]
    exact if_pos (Or.inr (hrange.mpr h))
  · rw [if_neg h]
    exact if_neg (not_or.mpr ⟨hno, fun hr => h (hrange.mp hr)⟩)

/-- The nearest notifier, the first one of them. -/
def nearest (n : DAENode) (calls : List PeerPair) : Option PeerPair :=
  calls.argmin (before n)

/-- A sequence of calls leaves the nearest notifier. -/
theorem notifyAll_eq (hm : n.m ≤ 52) (hid : n.id < 2 ^ n.m)
    (hfresh : n.predecessor = noId) (hcalls : ∀ p ∈ calls, Notifier n p) :
    notifyAll n calls = (nearest n calls).elim n (withPredecessor n) := by
  induction calls using List.reverseRecOn with
  | nil => rfl
  | append_singleton calls p ih =>
      have hprev : ∀ q ∈ calls, Notifier n q := fun q hq =>
        hcalls q (List.mem_append_left _ hq)
      have hp : Notifier n p := hcalls p (by simp)
      rw [notifyAll_concat, ih hprev]
      unfold nearest
      rw [List.argmin_concat]
      cases hq : calls.argmin (before n) with
      | none => exact notify_fresh hfresh
      | some q =>
          have hq' := hprev q (List.argmin_mem hq)
          refine (notify_withPredecessor hm hid hq' hp).trans ?_
          by_cases h : before n p < before n q
          · simp [h]
          · simp [h]

theorem nearest_isSome (h : calls ≠ []) : ∃ q, nearest n calls = some q := by
  cases hq : nearest n calls with
  | none => exact absurd (List.argmin_eq_none.mp hq) h
  | some q => exact ⟨q, rfl⟩

theorem nearest_le (hq : nearest n calls = some q) (hp : p ∈ calls) :
    before n q ≤ before n p :=
  List.le_of_mem_argmin hp hq

/-- Equally near is the same id. -/
theorem relayId_eq_of_before (hp : Notifier n p) (hq : Notifier n q)
    (h : before n p = before n q) : p.relayId = q.relayId :=
  cw_left_inj hp.1 hq.1 h

/-- The nearest of the same notifiers, met in another order, has the same id. -/
theorem nearest_relayId (hcalls : ∀ p ∈ calls, Notifier n p)
    {others : List PeerPair} (hsame : ∀ p, p ∈ others ↔ p ∈ calls)
    (hq : nearest n calls = some q) (hp : nearest n others = some p) :
    p.relayId = q.relayId := by
  have hqmem : q ∈ calls := List.argmin_mem hq
  have hpmem : p ∈ calls := (hsame p).mp (List.argmin_mem hp)
  have hle := nearest_le hq hpmem
  have hge := nearest_le hp ((hsame q).mpr hqmem)
  exact relayId_eq_of_before (hcalls p hpmem) (hcalls q hqmem)
    (Nat.le_antisymm hge hle)

/-- One more call: the first one is taken, and a later one is taken when it is
nearer than what the node has. -/
theorem notifyAll_moves_closer (hm : n.m ≤ 52) (hid : n.id < 2 ^ n.m)
    (hfresh : n.predecessor = noId) (hcalls : ∀ p ∈ calls, Notifier n p)
    (hp : Notifier n p) :
    (notifyAll n (calls ++ [p])).predecessorPeer = p ∧
        (calls = [] ∨ before n p <
          before n (notifyAll n calls).predecessorPeer) ∨
      calls ≠ [] ∧ (notifyAll n (calls ++ [p])).predecessorPeer =
        (notifyAll n calls).predecessorPeer := by
  by_cases hnil : calls = []
  · subst hnil
    refine Or.inl ⟨?_, Or.inl rfl⟩
    rw [notifyAll_concat]
    exact congrArg DAENode.predecessorPeer (notify_fresh hfresh)
  · obtain ⟨q, hq⟩ := nearest_isSome (n := n) hnil
    have hqN := hcalls q (List.argmin_mem hq)
    rw [notifyAll_concat, notifyAll_eq hm hid hfresh hcalls, hq, Option.elim_some,
      notify_withPredecessor hm hid hqN hp, withPredecessor_peer,
      withPredecessor_peer]
    by_cases h : before n p < before n q
    · exact Or.inl ⟨if_pos h, Or.inr h⟩
    · exact Or.inr ⟨hnil, if_neg h⟩

/-- **The predecessor is the closest notifier**, whatever the order of the
calls; along the sequence it only ever moves closer. The ip and the port are
the closest notifier's too, and do not depend on the order unless the closest
id was notified under two addresses. -/
theorem predecessor_closest_notifier (n : DAENode) (hm : n.m ≤ 52)
    (hid : n.id < 2 ^ n.m) (hfresh : n.predecessor = noId)
    (calls : List PeerPair) (hcalls : ∀ p ∈ calls, Notifier n p)
    (hnil : calls ≠ []) :
    ((notifyAll n calls).predecessorPeer ∈ calls ∧
      ∀ p ∈ calls, before n (notifyAll n calls).predecessorPeer ≤ before n p) ∧
    (∀ others : List PeerPair, (∀ p, p ∈ others ↔ p ∈ calls) →
      (notifyAll n others).predecessor = (notifyAll n calls).predecessor ∧
      ((∀ p ∈ calls, p.relayId = (notifyAll n calls).predecessor →
          p = (notifyAll n calls).predecessorPeer) →
        (notifyAll n others).predecessorPeer =
          (notifyAll n calls).predecessorPeer)) ∧
    ∀ pre p post, calls = pre ++ p :: post →
      (notifyAll n (pre ++ [p])).predecessorPeer = p ∧
          (pre = [] ∨ before n p < before n (notifyAll n pre).predecessorPeer) ∨
        pre ≠ [] ∧ (notifyAll n (pre ++ [p])).predecessorPeer =
          (notifyAll n pre).predecessorPeer := by
  obtain ⟨q, hq⟩ := nearest_isSome (n := n) hnil
  have hqmem : q ∈ calls := List.argmin_mem hq
  have hend : notifyAll n calls = withPredecessor n q := by
    rw [notifyAll_eq hm hid hfresh hcalls, hq, Option.elim_some]
  refine ⟨?_, fun others hsame => ?_, fun pre p post hsplit => ?_⟩
  · rw [hend, withPredecessor_peer]
    exact ⟨hqmem, fun p hp => nearest_le hq hp⟩
  · have hothers : ∀ p ∈ others, Notifier n p := fun p hp =>
      hcalls p ((hsame p).mp hp)
    obtain ⟨p, hp⟩ := nearest_isSome (n := n)
      (List.ne_nil_of_mem ((hsame q).mpr hqmem))
    have hpmem : p ∈ calls := (hsame p).mp (List.argmin_mem hp)
    have hpq := nearest_relayId hcalls hsame hq hp
    rw [hend, notifyAll_eq hm hid hfresh hothers, hp, Option.elim_some]
    exact ⟨hpq, fun hone => hone p hpmem hpq⟩
  · subst hsplit
    exact notifyAll_moves_closer hm hid hfresh
      (fun q hq => hcalls q (List.mem_append_left _ hq)) (hcalls p (by simp))

/-- Four places with a node at the first, notified from all around. -/
theorem predecessor_closest_notifier_four :
    (notifyAll (DAENode.new ⟨"10.22.1.16", 3010, 0, 2, ⟨"", 0, 0⟩, 10, true,
        false, false⟩)
      [⟨"10.22.1.17", 3011, 2⟩, ⟨"10.22.1.18", 3012, 3⟩,
        ⟨"10.22.1.19", 3013, 1⟩]).predecessorPeer = ⟨"10.22.1.18", 3012, 3⟩ := by
  have h := (predecessor_closest_notifier
    (DAENode.new ⟨"10.22.1.16", 3010, 0, 2, ⟨"", 0, 0⟩, 10, true, false, false⟩)
    (by decide) (by decide) rfl
    [⟨"10.22.1.17", 3011, 2⟩, ⟨"10.22.1.18", 3012, 3⟩, ⟨"10.22.1.19", 3013, 1⟩]
    (by unfold Notifier; decide) (by simp)).1
  have hmem := h.1
  have hle := h.2 ⟨"10.22.1.18", 3012, 3⟩ (by simp)
  simp only [List.mem_cons, List.not_mem_nil, or_false] at hmem
  rcases hmem with h2 | h3 | h1
  · rw [h2] at hle
    exact absurd hle (by decide)
  · exact h3
  · rw [h1] at hle
    exact absurd hle (by decide)

/-- One id notified under two addresses: the first call stays, so the order of
the calls decides the address. -/
theorem notify_order_matters :
    ¬ ∀ (n : DAENode) (calls others : List PeerPair), n.m ≤ 52 →
      n.id < 2 ^ n.m → n.predecessor = noId → (∀ p ∈ calls, Notifier n p) →
      others.Perm calls →
      (notifyAll n others).predecessorPeer =
        (notifyAll n calls).predecessorPeer := by
  intro h
  have hbad := h (DAENode.new ⟨"10.22.1.16", 3010, 0, 2, ⟨"", 0, 0⟩, 10, true,
      false, false⟩)
    [⟨"10.22.1.17", 3011, 2⟩, ⟨"10.22.1.18", 3012, 2⟩]
    [⟨"10.22.1.18", 3012, 2⟩, ⟨"10.22.1.17", 3011, 2⟩]
    (by decide) (by decide) rfl (by unfold Notifier; decide)
    (List.Perm.swap _ _ _)
  exact absurd hbad (by decide)

end Daenet.Proofs
