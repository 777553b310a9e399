import Daenet.Spec.Ring
import Mathlib.Data.List.Induction

/-!
# The dead-drop table pairs arrivals

One node, any sequence of packets that reach it marked `is_dest`. The table is
keyed by `(session, seq)` alone, so what a key's arrivals do depends on nothing
but that key's earlier arrivals: the first waits, the second takes it out and
is swapped with it, the third waits again. `arrivals κ` is the subsequence of
one key, and both the table entry and the calls an arrival makes are functions
of it — which is the reason different keys cannot disturb each other.
-/

namespace Daenet.Proofs

open Daenet.Ref Daenet.Spec

/-- A packet the dead drop keeps or swaps. -/
structure IsDrop (p : AnonymousPacket) : Prop where
  id : p.header.id = .externalDeaddropMessaging
  msgType : p.header.msgType = false
  isDest : p.header.isDest = true

/-- The key of the table. -/
def dropKey (p : AnonymousPacket) : Int × Int := (p.header.sessionId, p.header.index)

/-- The arrivals of one key, in order. -/
def arrivals (κ : Int × Int) (ps : List AnonymousPacket) : List AnonymousPacket :=
  ps.filter fun p => dropKey p = κ

/-- The node after a sequence of receptions. -/
def receiveAll (n : DAENode) (ps : List AnonymousPacket) : DAENode :=
  ps.foldl (fun n p => (n.receive p).1) n

theorem receiveAll_snoc (n : DAENode) (ps : List AnonymousPacket)
    (p : AnonymousPacket) :
    receiveAll n (ps ++ [p]) = ((receiveAll n ps).receive p).1 := by
  simp only [receiveAll, List.foldl_append, List.foldl_cons, List.foldl_nil]

theorem receive_drop {n : DAENode} {p : AnonymousPacket} (h : IsDrop p) :
    n.receive p = ((n.handleDeaddrop p).1,
      (n.handleDeaddrop p).2.map (n.handleDeaddrop p).1.handleExternalMessaging) := by
  simp only [DAENode.receive, AnonymousPacket.isInternalMsg, h.msgType, h.id,
    DAENode.processMessage, h.isDest, if_true]

theorem handleDeaddrop_first {n : DAENode} {p : AnonymousPacket}
    (h : n.recvListDeaddrop (dropKey p) = none) :
    n.handleDeaddrop p =
      ({ n with recvListDeaddrop :=
          Function.update n.recvListDeaddrop (dropKey p) (some p) }, []) := by
  simp only [DAENode.handleDeaddrop]
  rw [show n.recvListDeaddrop (p.header.sessionId, p.header.index) = none from h]
  rfl

theorem handleDeaddrop_second {n : DAENode} {p q : AnonymousPacket}
    (h : n.recvListDeaddrop (dropKey p) = some q) :
    n.handleDeaddrop p =
      ({ n with recvListDeaddrop :=
          Function.update n.recvListDeaddrop (dropKey p) none },
        [DAENode.swapReply p q p.header.relayReplyId,
          DAENode.swapReply p p q.header.relayReplyId]) := by
  simp only [DAENode.handleDeaddrop]
  rw [show n.recvListDeaddrop (p.header.sessionId, p.header.index) = some q from h]
  rfl

/-- One arrival toggles its own entry and leaves the others. -/
theorem handleDeaddrop_table (n : DAENode) (p : AnonymousPacket) (κ : Int × Int) :
    (n.handleDeaddrop p).1.recvListDeaddrop κ =
      if dropKey p = κ then
        if (n.recvListDeaddrop κ).isSome then none else some p
      else n.recvListDeaddrop κ := by
  by_cases hκ : dropKey p = κ
  · subst hκ
    rw [if_pos rfl]
    cases hn : n.recvListDeaddrop (dropKey p) with
    | none => rw [handleDeaddrop_first hn]; simp
    | some q => rw [handleDeaddrop_second hn]; simp
  · rw [if_neg hκ]
    cases hn : n.recvListDeaddrop (dropKey p) with
    | none =>
        rw [handleDeaddrop_first hn]
        exact Function.update_of_ne (Ne.symm hκ) _ _
    | some q =>
        rw [handleDeaddrop_second hn]
        exact Function.update_of_ne (Ne.symm hκ) _ _

theorem arrivals_snoc (κ : Int × Int) (ps : List AnonymousPacket)
    (p : AnonymousPacket) :
    arrivals κ (ps ++ [p]) =
      if dropKey p = κ then arrivals κ ps ++ [p] else arrivals κ ps := by
  unfold arrivals
  rw [List.filter_append]
  by_cases h : dropKey p = κ <;> simp [h]

/-- The table after any sequence of arrivals, one key at a time. -/
theorem receiveAll_table {n : DAENode} (hempty : ∀ κ, n.recvListDeaddrop κ = none)
    (κ : Int × Int) (ps : List AnonymousPacket) (hps : ∀ p ∈ ps, IsDrop p) :
    (receiveAll n ps).recvListDeaddrop κ =
      if (arrivals κ ps).length % 2 = 1 then (arrivals κ ps).getLast? else none := by
  induction ps using List.reverseRecOn with
  | nil => simpa [receiveAll, arrivals] using hempty κ
  | append_singleton ps p ih =>
      have hp : IsDrop p := hps p (by simp)
      have htable := ih fun q hq => hps q (by simp [hq])
      rw [receiveAll_snoc, receive_drop hp, handleDeaddrop_table, arrivals_snoc]
      by_cases hκ : dropKey p = κ
      · rw [if_pos hκ, if_pos hκ, htable, List.length_append,
          List.getLast?_append, List.length_singleton]
        by_cases hodd : (arrivals κ ps).length % 2 = 1
        · -- The waiting one is taken out.
          have hne : arrivals κ ps ≠ [] := by
            intro h; rw [h] at hodd; cases hodd
          rw [if_pos hodd, if_neg (by omega : ¬ _ = 1), if_pos]
          rw [List.getLast?_isSome]
          exact hne
        · rw [if_neg hodd, if_pos (by omega : _ = 1)]
          simp
      · rw [if_neg hκ, if_neg hκ, htable]

/-- The calls an arrival makes depend on the earlier arrivals of its key. -/
theorem calls_of_arrivals {n : DAENode}
    (hempty : ∀ κ, n.recvListDeaddrop κ = none) {pre : List AnonymousPacket}
    (hpre : ∀ p ∈ pre, IsDrop p) (p : AnonymousPacket) :
    ((receiveAll n pre).handleDeaddrop p).2 =
      match (arrivals (dropKey p) pre).getLast? with
      | some q =>
          if (arrivals (dropKey p) pre).length % 2 = 1 then
            [DAENode.swapReply p q p.header.relayReplyId,
              DAENode.swapReply p p q.header.relayReplyId]
          else []
      | none => [] := by
  have htable := receiveAll_table hempty (dropKey p) pre hpre
  by_cases hodd : (arrivals (dropKey p) pre).length % 2 = 1
  · rw [if_pos hodd] at htable
    cases hlast : (arrivals (dropKey p) pre).getLast? with
    | none => rw [handleDeaddrop_first (htable.trans hlast)]
    | some q => rw [handleDeaddrop_second (htable.trans hlast)]; simp [hodd]
  · rw [if_neg hodd] at htable
    rw [handleDeaddrop_first htable]
    split <;> simp [hodd]

/-- The dead-drop pairing law. Over any sequence of arrivals, an entry is in
the table exactly when its key has arrived an odd number of times, and it is
then the last arrival; an arrival that makes the count even is swapped with
the one before it, and no other arrival makes a call; and a key's entry and
calls are what they would be without the other keys' arrivals. -/
theorem deaddrop_pairing {n : DAENode}
    (hempty : ∀ κ, n.recvListDeaddrop κ = none) (ps : List AnonymousPacket)
    (hps : ∀ p ∈ ps, IsDrop p) :
    (∀ κ, (receiveAll n ps).recvListDeaddrop κ =
      if (arrivals κ ps).length % 2 = 1 then (arrivals κ ps).getLast? else none) ∧
    (∀ pre p post, ps = pre ++ p :: post →
      ∃ calls : List DAENode.ExternalMsg,
        (receiveAll n pre).receive p =
          (receiveAll n (pre ++ [p]),
            calls.map (receiveAll n (pre ++ [p])).handleExternalMessaging) ∧
        ((arrivals (dropKey p) pre).length % 2 = 0 → calls = []) ∧
        ((arrivals (dropKey p) pre).length % 2 = 1 →
          ∃ q, (arrivals (dropKey p) pre).getLast? = some q ∧
            calls =
              [{ isDeaddrop := false
                 session := (dropKey p).1
                 seq := (dropKey p).2
                 msgType := .externalReplyDeaddropMessaging
                 destId := p.header.relayReplyId
                 clientKey := p.header.keyId
                 ctPackage := q.payload
                 size := q.payloadSize },
               { isDeaddrop := false
                 session := (dropKey p).1
                 seq := (dropKey p).2
                 msgType := .externalReplyDeaddropMessaging
                 destId := q.header.relayReplyId
                 clientKey := p.header.keyId
                 ctPackage := p.payload
                 size := p.payloadSize }]) ∧
        ((receiveAll n pre).handleDeaddrop p).2 = calls ∧
        ((receiveAll n (arrivals (dropKey p) pre)).handleDeaddrop p).2 = calls) ∧
    ∀ κ, (receiveAll n (arrivals κ ps)).recvListDeaddrop κ =
      (receiveAll n ps).recvListDeaddrop κ := by
  have hsub : ∀ κ qs, (∀ p ∈ qs, IsDrop p) → ∀ p ∈ arrivals κ qs, IsDrop p :=
    fun κ qs h p hp => h p ((List.mem_filter.mp hp).1)
  have hidem : ∀ κ qs, arrivals κ (arrivals κ qs) = arrivals κ qs := by
    intro κ qs
    simp [arrivals, List.filter_filter]
  refine ⟨fun κ => receiveAll_table hempty κ ps hps, ?_, ?_⟩
  · rintro pre p post rfl
    have hpre : ∀ q ∈ pre, IsDrop q := fun q hq => hps q (by simp [hq])
    have hcalls := calls_of_arrivals hempty hpre p
    refine ⟨_, ?_, ?_, ?_, rfl, ?_⟩
    · rw [receiveAll_snoc, receive_drop (hps p (by simp))]
    · intro heven
      rw [hcalls]
      split <;> simp [heven]
    · intro hodd
      cases hlast : (arrivals (dropKey p) pre).getLast? with
      | none =>
          rw [List.getLast?_eq_none_iff] at hlast
          rw [hlast] at hodd
          cases hodd
      | some q =>
          refine ⟨q, rfl, ?_⟩
          rw [hcalls, hlast]
          simp only [hodd, if_true]
          rfl
    · rw [hcalls, calls_of_arrivals hempty (hsub _ pre hpre), hidem]
  · intro κ
    rw [receiveAll_table hempty κ _ (hsub κ ps hps),
      receiveAll_table hempty κ ps hps, hidem]

/-- A message of session 1 and sequence number 0 at its dead drop. -/
def dropOf (sender : Nat) (payload : List UInt8) : AnonymousPacket :=
  .external .externalDeaddropMessaging "10.22.1.16" sender "10.22.1.16" 0 3010
    "10.22.1.16" sender 3010 "10.22.1.16" 0 3010 0 false payload payload.length
    true 1

theorem deaddrop_pairing_two :
    (receiveAll (DAENode.new (pairRoster.cfg 0))
      [dropOf 0 [7], dropOf 1 [8, 9]]).recvListDeaddrop (1, 0) = none := by
  have hdrops : ∀ p ∈ [dropOf 0 [7], dropOf 1 [8, 9]], IsDrop p := by
    intro p hp
    simp only [List.mem_cons, List.not_mem_nil, or_false] at hp
    rcases hp with rfl | rfl <;> exact ⟨rfl, rfl, rfl⟩
  rw [(deaddrop_pairing (fun _ => rfl) _ hdrops).1]
  decide

end Daenet.Proofs
