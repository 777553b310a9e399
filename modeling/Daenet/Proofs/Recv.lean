import Daenet.Ref.DAESocket

/-!
# What a blocking receive answers

`recv` copies the payload over the front of the caller's buffer and then looks
for `fin` in the buffer, three bytes of it, whatever the payload's size. A
payload of three bytes or more decides the test alone. A shorter one is read
together with what stood behind it: the tail of an earlier payload, or what the
buffer held before the first call.

So a sequence of calls answers for its packets exactly when no short payload
completes a `fin` that the buffer holds the rest of (`Clear`), a condition on
the payloads and the initial buffer only.
-/

namespace Daenet.Proofs

open Daenet.Lib Daenet.Ref

/-- The bytes that end a session. -/
def finBytes : List UInt8 := [102, 105, 110]

/-- What `recv` should say of a payload. -/
def answer (payload : List UInt8) : Int :=
  if payload.take 3 = finBytes then 8888 else payload.length

/-- A buffer with a payload copied over its front. -/
def overlay (buf payload : List UInt8) : List UInt8 :=
  payload ++ buf.drop payload.length

/-- No short payload completes a `fin` in the buffer it is copied to. -/
def Clear (buf : List UInt8) : List (List UInt8) → Prop
  | [] => True
  | payload :: later =>
      (payload.length < 3 → (overlay buf payload).take 3 ≠ finBytes) ∧
        Clear (overlay buf payload) later

/-- `k` calls, one after another, into the same buffer: what they return. -/
def recvAll (isActive : Bool) : Nat → DAENode → List UInt8 → Option (List Int)
  | 0, _, _ => some []
  | k + 1, n, buf =>
      match DAESocket.recv isActive n buf with
      | .returned value n' buf' => (recvAll isActive k n' buf').map (value :: ·)
      | _ => none

/-- A packet whose header gives the size of the payload behind it. -/
def Sized (p : AnonymousPacket) : Prop :=
  p.header.size = p.payload.length ∧ p.payload.length < 2 ^ 64

variable {n : DAENode} {buf payload : List UInt8} {p : AnonymousPacket}
  {rest : List AnonymousPacket}

theorem length_overlay (h : payload.length ≤ buf.length) :
    (overlay buf payload).length = buf.length := by
  unfold overlay
  rw [List.length_append, List.length_drop]
  omega

/-- Three readable bytes decide the comparison; no byte of `fin` ends it
early. -/
theorem strncmp_fin (h : 3 ≤ buf.length) :
    DAESocket.strncmp 3 DAESocket.fin buf =
      some (decide (buf.take 3 = finBytes)) := by
  match buf, h with
  | a :: b :: c :: tail, _ =>
      simp only [DAESocket.fin, DAESocket.strncmp, finBytes, List.take_succ_cons,
        List.take_zero]
      by_cases ha : (102 : UInt8) = a
      · by_cases hb : (105 : UInt8) = b
        · by_cases hc : (110 : UInt8) = c
          · subst ha hb hc
            rfl
          · subst ha hb
            simp [hc, Ne.symm hc]
        · subst ha
          simp [hb, Ne.symm hb]
      · simp [ha, Ne.symm ha]

/-- One call. -/
theorem recv_eq (hq : n.recvListUser = p :: rest) (hp : Sized p)
    (hfit : p.payload.length ≤ buf.length) (hbuf : 3 ≤ buf.length) :
    DAESocket.recv true n buf =
      .returned
        (if (overlay buf p.payload).take 3 = finBytes then 8888
          else p.payload.length)
        { n with recvListUser := rest } (overlay buf p.payload) := by
  have hsize : (p.header.size % 2 ^ 64).toNat = p.payload.length := by
    have := hp.2
    rw [hp.1]
    omega
  have hcopy : (slice p.payload 0 p.payload.length).bind (blit buf 0) =
      some (overlay buf p.payload) := by
    rw [slice_all, Option.bind_some, blit, if_pos (by omega)]
    simp [overlay]
  have hlen : 3 ≤ (overlay buf p.payload).length := by
    rw [length_overlay hfit]
    exact hbuf
  unfold DAESocket.recv
  rw [hq]
  simp only [hsize, hcopy, strncmp_fin hlen]
  by_cases h : (overlay buf p.payload).take 3 = finBytes
  · simp [h]
  · simp [h, hp.1]

/-- The buffer decides as the payload does, unless the payload is short. -/
theorem overlay_take (h : 3 ≤ payload.length) :
    (overlay buf payload).take 3 = payload.take 3 :=
  List.take_append_of_le_length h

/-- One call answers for its packet unless a short payload completes a `fin`. -/
theorem recv_answer_iff :
    (if (overlay buf payload).take 3 = finBytes then (8888 : Int)
        else payload.length) = answer payload ↔
      (payload.length < 3 → (overlay buf payload).take 3 ≠ finBytes) := by
  unfold answer
  by_cases hlen : payload.length < 3
  · have hne : payload.take 3 ≠ finBytes := by
      intro h
      have := congrArg List.length h
      rw [List.length_take] at this
      simp [finBytes] at this
      omega
    rw [if_neg hne]
    by_cases h : (overlay buf payload).take 3 = finBytes
    · rw [if_pos h]
      refine iff_of_false (by omega) ?_
      exact fun hc => hc hlen h
    · rw [if_neg h]
      exact iff_of_true rfl fun _ => h
  · rw [overlay_take (by omega)]
    exact iff_of_true rfl fun h => absurd h hlen

/-- **A sequence of blocking receives answers for its packets**, `8888` for
those that begin with `fin` and the size for the others, exactly when no short
payload completes a `fin` in the buffer. -/
theorem recv_answers_iff (n : DAENode) (buf : List UInt8) (hbuf : 3 ≤ buf.length)
    (hpackets : ∀ p ∈ n.recvListUser,
      Sized p ∧ p.payload.length ≤ buf.length) :
    recvAll true n.recvListUser.length n buf =
        some (n.recvListUser.map fun p => answer p.payload) ↔
      Clear buf (n.recvListUser.map AnonymousPacket.payload) := by
  generalize hq : n.recvListUser = queue at hpackets ⊢
  induction queue generalizing n buf with
  | nil => exact iff_of_true rfl trivial
  | cons p rest ih =>
      obtain ⟨hp, hfit⟩ := hpackets p (List.mem_cons_self ..)
      have hrest := ih { n with recvListUser := rest } (overlay buf p.payload)
        (by rw [length_overlay hfit]; exact hbuf) rfl fun q hq => by
          rw [length_overlay hfit]
          exact hpackets q (List.mem_cons_of_mem _ hq)
      have hstep := recv_eq hq hp hfit hbuf
      rw [List.length_cons, recvAll, hstep]
      simp only [List.map_cons, Clear, Option.map_eq_some_iff, List.cons.injEq]
      rw [← recv_answer_iff, ← hrest]
      constructor
      · rintro ⟨later, hlater, hhead, rfl⟩
        exact ⟨hhead, hlater⟩
      · rintro ⟨hhead, hlater⟩
        exact ⟨_, hlater, hhead, rfl⟩

/-- A packet of the dead drop with this payload. -/
def reply (payload : List UInt8) : AnonymousPacket :=
  .external .externalReplyDeaddropMessaging "" 0 "" 0 0 "" 0 0 "" 0 0 0 false
    payload payload.length true 0

/-- A node with these payloads waiting for the application. -/
def holding (payloads : List (List UInt8)) : DAENode :=
  { DAENode.new ⟨"10.22.1.16", 3010, 0, 1, ⟨"", 0, 0⟩, 10, true, false, false⟩
    with recvListUser := payloads.map reply }

/-- `hello`, `f` and `fin` into an empty buffer. -/
theorem recv_answers_iff_fin :
    recvAll true 3 (holding [[104, 101, 108, 108, 111], [102], finBytes])
      (List.replicate 8 0) = some [5, 1, 8888] :=
  (recv_answers_iff (holding [[104, 101, 108, 108, 111], [102], finBytes])
    (List.replicate 8 0) (by decide)
    (by unfold Sized; decide)).mpr
    ⟨by decide, by decide, by decide, trivial⟩

/-- An empty payload after `fin` is answered as `fin`: the buffer still holds
it. -/
theorem short_packet_misread :
    ¬ ∀ (n : DAENode) (buf : List UInt8), 3 ≤ buf.length →
      (∀ p ∈ n.recvListUser, Sized p ∧ p.payload.length ≤ buf.length) →
      recvAll true n.recvListUser.length n buf =
        some (n.recvListUser.map fun p => answer p.payload) := by
  intro h
  have hbad := h (holding [finBytes, []]) (List.replicate 8 0) (by decide)
    (by unfold Sized; decide)
  exact absurd hbad (by decide)

end Daenet.Proofs
