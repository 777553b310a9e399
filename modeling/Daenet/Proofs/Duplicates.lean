import Daenet.Proofs.DeadDrop
import Daenet.Proofs.Routing

/-!
# The dead drop does not recognise duplicates

Datagrams may arrive twice, and the dead drop has no way to tell: its table is
keyed by `(session, seq)` and remembers one packet, not who has sent what. So
copies are arrivals like any other. The first arrival of a key is swapped with
the second, the third with the fourth and so on, and the replies are read off
these pairs — `replies_iff`. Whether a copy does harm is then a matter of where
it falls: after a completed exchange it only waits, while its original waits it
is swapped with it and the sender gets its own payload back.
-/

namespace Daenet.Proofs

open Daenet.Ref Daenet.Spec

/-! ## Consecutive pairs -/

section Pairs

variable {α : Type}

/-- The first with the second, the third with the fourth, and so on. -/
def pairsOf : List α → List (α × α)
  | a :: b :: l => (a, b) :: pairsOf l
  | _ => []

theorem pairsOf_snoc (l : List α) (c : α) :
    pairsOf (l ++ [c]) =
      pairsOf l ++
        if l.length % 2 = 1 then l.getLast?.toList.map (·, c) else [] := by
  induction l using pairsOf.induct with
  | case1 a b l ih =>
      have hlen : (a :: b :: l).length % 2 = l.length % 2 := by
        rw [List.length_cons, List.length_cons]
        omega
      show (a, b) :: pairsOf (l ++ [c]) = _
      rw [ih, hlen]
      cases l with
      | nil => rfl
      | cons d l =>
          rw [List.getLast?_cons_cons, List.getLast?_cons_cons]
          rfl
  | case2 l h =>
      match l with
      | [] => rfl
      | [a] => rfl
      | a :: b :: l => exact absurd rfl (h a b l)

/-- A last arrival that finds nobody waiting forms no pair. -/
theorem pairsOf_snoc_even {l : List α} (h : l.length % 2 = 0) (c : α) :
    pairsOf (l ++ [c]) = pairsOf l := by
  rw [pairsOf_snoc, if_neg (by omega), List.append_nil]

theorem mem_pairsOf_append {l : List α} {x : α × α} (l' : List α)
    (h : x ∈ pairsOf l) : x ∈ pairsOf (l ++ l') := by
  induction l' using List.reverseRecOn with
  | nil => rwa [List.append_nil]
  | append_singleton l' c ih =>
      rw [← List.append_assoc, pairsOf_snoc]
      exact List.mem_append_left _ ih

/-- `l'` is `l` with some elements repeated, each copy somewhere after its
original. -/
inductive Repeats : List α → List α → Prop where
  | nil : Repeats [] []
  | keep {l l' : List α} (a : α) (h : Repeats l l') : Repeats (l ++ [a]) (l' ++ [a])
  | copy {l l' : List α} {a : α} (ha : a ∈ l) (h : Repeats l l') :
      Repeats l (l' ++ [a])

theorem Repeats.subset {l l' : List α} (h : Repeats l l') : ∀ a ∈ l', a ∈ l := by
  induction h with
  | nil => exact fun _ ha => ha
  | keep a _ ih =>
      intro b hb
      rcases List.mem_append.mp hb with hb | hb
      · exact List.mem_append_left _ (ih b hb)
      · exact List.mem_append_right _ hb
  | copy ha _ ih =>
      intro b hb
      rcases List.mem_append.mp hb with hb | hb
      · exact ih b hb
      · rw [List.mem_singleton.mp hb]
        exact ha

end Pairs

/-! ## Replies -/

/-- What a reply says: the receiver's key, session, sequence number and
payload. -/
structure Reply where
  receiver : Nat
  session : Int
  seq : Int
  payload : List UInt8
  deriving DecidableEq

/-- The reply in a packet. -/
def replyOf (p : AnonymousPacket) : Reply :=
  ⟨p.header.keyId, p.header.sessionId, p.header.index, p.payload⟩

/-- The replies a node sends on one arrival. -/
def answers (n : DAENode) (p : AnonymousPacket) : List Reply :=
  ((n.receive p).2.filterMap packetOf).map replyOf

/-- The replies a node sends over a sequence of arrivals. -/
def replies (n : DAENode) : List AnonymousPacket → List Reply
  | [] => []
  | p :: ps => answers n p ++ replies (n.receive p).1 ps

/-- What the sender of `a` gets for `b`. -/
def swapped (a b : AnonymousPacket) : Reply :=
  ⟨a.header.relayReplyId, a.header.sessionId, a.header.index,
    b.payload.take b.payloadSize.toNat⟩

theorem replies_snoc (n : DAENode) (ps : List AnonymousPacket)
    (p : AnonymousPacket) :
    replies n (ps ++ [p]) = replies n ps ++ answers (receiveAll n ps) p := by
  induction ps generalizing n with
  | nil => simp [replies, receiveAll]
  | cons q ps ih =>
      show answers n q ++ replies _ (ps ++ [p]) = (answers n q ++ _) ++ _
      rw [ih, List.append_assoc]
      rfl

/-- The replies are those of the calls to `handle_external_messaging`. -/
theorem answers_drop {n : DAENode} {p : AnonymousPacket} (h : IsDrop p) :
    answers n p = (n.handleDeaddrop p).2.map fun x =>
      ⟨x.destId, x.session, x.seq, x.ctPackage.take x.size.toNat⟩ := by
  unfold answers
  rw [receive_drop h]
  generalize (n.handleDeaddrop p).1 = n'
  induction (n.handleDeaddrop p).2 with
  | nil => rfl
  | cons x xs ih =>
      obtain ⟨q, hq, hcar⟩ := mail_carries n' x
      have hreply : replyOf q =
          ⟨x.destId, x.session, x.seq, x.ctPackage.take x.size.toNat⟩ := by
        simp only [replyOf, hcar.key, hcar.session, hcar.seq, hcar.payload]
      show ((n'.handleExternalMessaging x :: _).filterMap packetOf).map replyOf = _
      rw [hq]
      show replyOf q :: _ = _
      rw [hreply]
      exact congrArg _ ih

variable {n : DAENode} (hempty : ∀ κ, n.recvListDeaddrop κ = none)

include hempty

/-- An arrival is answered when it is the second of a pair. -/
theorem answers_iff {ps : List AnonymousPacket} (hps : ∀ q ∈ ps, IsDrop q)
    {p : AnonymousPacket} (hp : IsDrop p) (r : Reply) :
    r ∈ answers (receiveAll n ps) p ↔
      ∃ q, (arrivals (dropKey p) ps).length % 2 = 1 ∧
        (arrivals (dropKey p) ps).getLast? = some q ∧
        (r = swapped p q ∨ r = swapped q p) := by
  rw [answers_drop hp, calls_of_arrivals hempty hps]
  cases hlast : (arrivals (dropKey p) ps).getLast? with
  | none => simp
  | some q =>
      have hkey : dropKey q = dropKey p := by
        have hmem := List.mem_of_getLast? hlast
        simpa using (List.mem_filter.mp hmem).2
      obtain ⟨hsession, hseq⟩ := Prod.mk.inj hkey
      by_cases hodd : (arrivals (dropKey p) ps).length % 2 = 1
      · simp only [hodd, if_true, List.map_cons, List.map_nil, List.mem_cons,
          List.not_mem_nil, or_false, true_and, Option.some.injEq,
          exists_eq_left', swapped, DAENode.swapReply, hsession, hseq]
      · simp [hodd]

/-- The replies over any sequence of arrivals are those of swapping, for each
key, the first arrival with the second, the third with the fourth, and so
on. -/
theorem replies_iff (ps : List AnonymousPacket) (hps : ∀ q ∈ ps, IsDrop q)
    (r : Reply) :
    r ∈ replies n ps ↔
      ∃ κ a b, (a, b) ∈ pairsOf (arrivals κ ps) ∧
        (r = swapped a b ∨ r = swapped b a) := by
  induction ps using List.reverseRecOn with
  | nil => simp [replies, arrivals, pairsOf]
  | append_singleton ps p ih =>
      have hp : IsDrop p := hps p (by simp)
      have hpre : ∀ q ∈ ps, IsDrop q := fun q hq => hps q (by simp [hq])
      rw [replies_snoc, List.mem_append, ih hpre, answers_iff hempty hpre hp]
      constructor
      · rintro (⟨κ, a, b, hab, hr⟩ | ⟨q, hodd, hlast, hr⟩)
        · refine ⟨κ, a, b, ?_, hr⟩
          rw [arrivals_snoc]
          split
          · rw [pairsOf_snoc]
            exact List.mem_append_left _ hab
          · exact hab
        · refine ⟨dropKey p, q, p, ?_, hr.symm⟩
          rw [arrivals_snoc, if_pos rfl, pairsOf_snoc, if_pos hodd, hlast]
          simp
      · rintro ⟨κ, a, b, hab, hr⟩
        rw [arrivals_snoc] at hab
        split at hab
        · next hκ =>
            subst hκ
            rw [pairsOf_snoc] at hab
            rcases List.mem_append.mp hab with hab | hab
            · exact Or.inl ⟨dropKey p, a, b, hab, hr⟩
            · split at hab
              · next hodd =>
                  obtain ⟨q, hq, heq⟩ := List.mem_map.mp hab
                  obtain ⟨rfl, rfl⟩ := Prod.mk.inj heq
                  exact Or.inr ⟨q, hodd, Option.mem_toList.mp hq, hr.symm⟩
              · cases hab
        · exact Or.inl ⟨κ, a, b, hab, hr⟩

/-- The same pairs make the same replies. -/
theorem replies_congr {ps ps' : List AnonymousPacket}
    (hps : ∀ p ∈ ps, IsDrop p) (hps' : ∀ p ∈ ps', IsDrop p)
    (h : ∀ κ a b,
      ((a, b) ∈ pairsOf (arrivals κ ps') ∨ (b, a) ∈ pairsOf (arrivals κ ps')) ↔
        ((a, b) ∈ pairsOf (arrivals κ ps) ∨ (b, a) ∈ pairsOf (arrivals κ ps)))
    (r : Reply) : r ∈ replies n ps' ↔ r ∈ replies n ps := by
  -- Either order of a pair makes the same two replies.
  have hturn : ∀ {qs qs' : List AnonymousPacket},
      (∀ κ a b, (a, b) ∈ pairsOf (arrivals κ qs) →
        (a, b) ∈ pairsOf (arrivals κ qs') ∨ (b, a) ∈ pairsOf (arrivals κ qs')) →
      (∃ κ a b, (a, b) ∈ pairsOf (arrivals κ qs) ∧
        (r = swapped a b ∨ r = swapped b a)) →
      ∃ κ a b, (a, b) ∈ pairsOf (arrivals κ qs') ∧
        (r = swapped a b ∨ r = swapped b a) := by
    rintro qs qs' hsub ⟨κ, a, b, hab, hr⟩
    rcases hsub κ a b hab with hab | hba
    · exact ⟨κ, a, b, hab, hr⟩
    · exact ⟨κ, b, a, hba, hr.symm⟩
  rw [replies_iff hempty ps' hps', replies_iff hempty ps hps]
  exact ⟨hturn fun κ a b hab => (h κ a b).mp (Or.inl hab),
    hturn fun κ a b hab => (h κ a b).mpr (Or.inl hab)⟩

/-- Duplicated arrivals. The replies are those of the consecutive pairs of each
key's arrivals, copies counted. They are the same as without the copies when
the pairs are; that is so for a key with no copies, and for one whose exchanges
were complete when its one copy came. A copy that comes while its original
waits is swapped with it, and its sender is sent its own payload. -/
theorem duplicates_as_arrivals {ps ps' : List AnonymousPacket}
    (hps : ∀ p ∈ ps, IsDrop p) (hrep : Repeats ps ps') :
    (∀ r, r ∈ replies n ps' ↔
      ∃ κ a b, (a, b) ∈ pairsOf (arrivals κ ps') ∧
        (r = swapped a b ∨ r = swapped b a)) ∧
    ((∀ κ a b,
        ((a, b) ∈ pairsOf (arrivals κ ps') ∨ (b, a) ∈ pairsOf (arrivals κ ps')) ↔
          ((a, b) ∈ pairsOf (arrivals κ ps) ∨
            (b, a) ∈ pairsOf (arrivals κ ps))) →
      ∀ r, r ∈ replies n ps' ↔ r ∈ replies n ps) ∧
    ((∀ κ, arrivals κ ps' = arrivals κ ps ∨
        ((arrivals κ ps).length % 2 = 0 ∧
          ∃ c, arrivals κ ps' = arrivals κ ps ++ [c])) →
      ∀ r, r ∈ replies n ps' ↔ r ∈ replies n ps) ∧
    ∀ pre between post p, ps' = pre ++ p :: between ++ p :: post →
      (arrivals (dropKey p) pre).length % 2 = 0 →
      arrivals (dropKey p) between = [] → swapped p p ∈ replies n ps' := by
  have hps' : ∀ p ∈ ps', IsDrop p := fun p hp => hps p (hrep.subset p hp)
  refine ⟨replies_iff hempty ps' hps', replies_congr hempty hps hps', ?_, ?_⟩
  · intro hlate
    have hpairs : ∀ κ, pairsOf (arrivals κ ps') = pairsOf (arrivals κ ps) := by
      intro κ
      rcases hlate κ with hsame | ⟨heven, c, hc⟩
      · rw [hsame]
      · rw [hc, pairsOf_snoc_even heven]
    refine replies_congr hempty hps hps' fun κ a b => ?_
    rw [hpairs κ]
  · rintro pre between post p rfl heven hbetween
    have harr : arrivals (dropKey p) (pre ++ p :: between ++ p :: post) =
        arrivals (dropKey p) pre ++ [p] ++ [p] ++ arrivals (dropKey p) post := by
      have hsplit : pre ++ p :: between ++ p :: post =
          pre ++ [p] ++ between ++ [p] ++ post := by simp
      unfold arrivals at hbetween ⊢
      rw [hsplit]
      simp only [List.filter_append, hbetween, List.append_nil]
      simp
    refine (replies_iff hempty _ hps' _).mpr ⟨dropKey p, p, p, ?_, Or.inl rfl⟩
    rw [harr]
    refine mem_pairsOf_append _ ?_
    rw [pairsOf_snoc, if_pos (by rw [List.length_append, List.length_singleton]; omega)]
    simp

omit hempty

/-- The packet of client 0 arrives twice, then that of client 1: client 0 is sent
its own payload, and client 1's is not swapped. -/
theorem duplicate_swapped_with_itself :
    Repeats [dropOf 0 [7], dropOf 1 [8, 9]]
        [dropOf 0 [7], dropOf 0 [7], dropOf 1 [8, 9]] ∧
      replies (DAENode.new (pairRoster.cfg 0)) [dropOf 0 [7], dropOf 1 [8, 9]] =
        [⟨1, 1, 0, [7]⟩, ⟨0, 1, 0, [8, 9]⟩] ∧
      replies (DAENode.new (pairRoster.cfg 0))
          [dropOf 0 [7], dropOf 0 [7], dropOf 1 [8, 9]] =
        [⟨0, 1, 0, [7]⟩, ⟨0, 1, 0, [7]⟩] := by
  refine ⟨?_, by decide, by decide⟩
  exact .keep (l := [dropOf 0 [7]]) _ (.copy (by simp) (.keep (l := []) _ .nil))

theorem duplicates_as_arrivals_late :
    (⟨0, 1, 0, [8, 9]⟩ : Reply) ∈ replies (DAENode.new (pairRoster.cfg 0))
      [dropOf 0 [7], dropOf 1 [8, 9], dropOf 0 [7]] := by
  have hdrops : ∀ p ∈ [dropOf 0 [7], dropOf 1 [8, 9]], IsDrop p := by
    intro p hp
    simp only [List.mem_cons, List.not_mem_nil, or_false] at hp
    rcases hp with rfl | rfl <;> exact ⟨rfl, rfl, rfl⟩
  have hrep : Repeats [dropOf 0 [7], dropOf 1 [8, 9]]
      [dropOf 0 [7], dropOf 1 [8, 9], dropOf 0 [7]] :=
    .copy (by simp) (.keep (l := [dropOf 0 [7]]) _ (.keep (l := []) _ .nil))
  obtain ⟨_, _, hlate, _⟩ := duplicates_as_arrivals
    (n := DAENode.new (pairRoster.cfg 0)) (fun _ => rfl) hdrops hrep
  refine (hlate fun κ => ?_) _ |>.mpr (by decide)
  by_cases hκ : (1, 0) = κ
  · subst hκ
    exact Or.inr ⟨by decide, dropOf 0 [7], by decide⟩
  · refine Or.inl ?_
    have h0 : dropKey (dropOf 0 [7]) ≠ κ := hκ
    have h1 : dropKey (dropOf 1 [8, 9]) ≠ κ := hκ
    simp [arrivals, h0, h1]

end Daenet.Proofs
