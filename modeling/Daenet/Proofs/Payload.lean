import Daenet.Proofs.DeadDrop
import Daenet.Proofs.Routing
import Daenet.Ref.DAESocket

/-!
# Which payloads fit

The header and the payload share one buffer of `MAX_MTU` bytes, and no code
path compares the two: `DAESocket::send` takes up to `MAX_MTU` bytes of payload,
the packet constructor copies them behind the header, and every hop unpacks
and repacks. `Built` are the packets made for one payload on its way to the
dead drop, through the swap and on to the peer, over any relays. They are all
intact exactly when the payload leaves room for the header.
-/

namespace Daenet.Ref

/-- A packet as `recvfrom` leaves it: what does not fit into a buffer of
`MAX_MTU` bytes is cut off. -/
def AnonymousPacket.datagram (p : AnonymousPacket) : AnonymousPacket :=
  { p with payload := p.payload.take (maxMtu - sizeofHeader) }

end Daenet.Ref

namespace Daenet.Proofs

open Daenet.Ref Daenet.Spec

/-- The packets built for a payload: the one the sender's node makes, those of
the relays, and the dead drop's, which takes it from its table when the peer's
packet arrives or from the arriving packet when the peer's was there first. -/
inductive Built (buf : List UInt8) : AnonymousPacket → Prop where
  | sent (n : DAENode) (s : DAESocket) {p : AnonymousPacket}
      (hs : s.serviceType = .externalDeaddropMessaging)
      (h : n.handleExternalMessaging (s.send buf).2 = .safeSend p) : Built buf p
  | relayed (n : DAENode) {p p' : AnonymousPacket} (hp : Built buf p)
      (hd : p.header.isDest = false)
      (h : (n.receive p.datagram).2 = [.safeSend p']) : Built buf p'
  | takenOut (n : DAENode) {p q p' : AnonymousPacket} (hp : Built buf p)
      (hq : IsDrop q) (hwait : n.recvListDeaddrop (dropKey q) = some p.datagram)
      (h : (n.receive q).2[0]? = some (.safeSend p')) : Built buf p'
  | swapped (n : DAENode) {p q p' : AnonymousPacket} (hp : Built buf p)
      (hd : IsDrop p) (hwait : n.recvListDeaddrop (dropKey p) = some q)
      (h : (n.receive p.datagram).2[1]? = some (.safeSend p')) : Built buf p'

/-- Every packet built for the payload fits the buffer and holds the payload,
and what the peer's `recv` finds in its queue is the payload and its size. -/
def Intact (buf : List UInt8) : Prop :=
  (∀ p, Built buf p → p.totalSize ≤ maxMtu ∧ p.payload = buf) ∧
  ∀ (n : DAENode) p, Built buf p →
    p.header.id = .externalReplyDeaddropMessaging → p.header.isDest = true →
    ∃ q, (n.receive p.datagram).1.recvListUser = n.recvListUser ++ [q] ∧
      q.payload = buf ∧ q.payloadSize = (buf.length : Int)

/-- A packet that holds the payload, of one of the dead-drop kinds. -/
structure HoldsPayload (buf : List UInt8) (p : AnonymousPacket) : Prop where
  kind : p.header.id = .externalDeaddropMessaging ∨
    p.header.id = .externalReplyDeaddropMessaging
  msgType : p.header.msgType = false
  size : p.header.size = buf.length
  payload : p.payload = buf

section

variable {buf : List UInt8} {p : AnonymousPacket}

theorem send_payload (s : DAESocket) (buf : List UInt8) :
    (s.send buf).2.msgType = s.serviceType ∧ (s.send buf).2.ctPackage = buf ∧
      (s.send buf).2.size = buf.length := by
  cases s
  exact ⟨rfl, rfl, rfl⟩

/-- A packet made from a message with the payload holds it. -/
theorem holdsPayload_of_carries {x : DAENode.ExternalMsg} (h : Carries x p)
    (hx : DeaddropKind x) (hpkg : x.ctPackage = buf) (hsize : x.size = buf.length) :
    HoldsPayload buf p where
  kind := by
    rcases hx with hx | hx
    · exact Or.inl (h.id.trans hx)
    · exact Or.inr (h.id.trans hx)
  msgType := h.msgType
  size := h.size.trans hsize
  payload := by rw [h.payload, hpkg, hsize, Int.toNat_natCast, List.take_length]

/-- A payload that leaves room for the header survives the wire. -/
theorem datagram_of_holds (h : HoldsPayload buf p)
    (hfit : buf.length ≤ maxMtu - sizeofHeader) : p.datagram = p := by
  unfold AnonymousPacket.datagram
  rw [h.payload, List.take_of_length_le hfit, ← h.payload]

/-- A packet made from a message is the one the handler made. -/
theorem holds_of_handled {n : DAENode} {x : DAENode.ExternalMsg}
    (h : n.handleExternalMessaging x = .safeSend p) (hx : DeaddropKind x)
    (hpkg : x.ctPackage = buf) (hsize : x.size = buf.length) :
    HoldsPayload buf p := by
  obtain ⟨p', hp', hcar⟩ := mail_carries n x
  rw [hp'] at h
  injection h with h
  subst h
  exact holdsPayload_of_carries hcar hx hpkg hsize

theorem built_holds (hfit : buf.length ≤ maxMtu - sizeofHeader)
    (hb : Built buf p) : HoldsPayload buf p := by
  induction hb with
  | sent n s hs h =>
      obtain ⟨htype, hpkg, hsize⟩ := send_payload s buf
      exact holds_of_handled h (Or.inl (htype.trans hs)) hpkg hsize
  | @relayed n p p' _ hd h ih =>
      rw [datagram_of_holds ih hfit, receive_unmarked ih.kind ih.msgType hd] at h
      injection h with h _
      exact holds_of_handled h ih.kind ih.payload ih.size
  | @takenOut n p q p' _ hq hwait h ih =>
      rw [datagram_of_holds ih hfit] at hwait
      rw [receive_drop hq, handleDeaddrop_second hwait] at h
      injection h with h
      exact holds_of_handled h (Or.inr rfl) ih.payload ih.size
  | @swapped n p q p' _ hd hwait h ih =>
      rw [datagram_of_holds ih hfit, receive_drop hd,
        handleDeaddrop_second hwait] at h
      injection h with h
      exact holds_of_handled h (Or.inr rfl) ih.payload ih.size

/-- A reply marked for its node waits there for `recv` as it came. -/
theorem receive_reply_marked {n : DAENode}
    (hid : p.header.id = .externalReplyDeaddropMessaging)
    (hmsg : p.header.msgType = false) (hd : p.header.isDest = true) :
    n.receive p = ({ n with recvListUser := n.recvListUser ++ [p] }, []) := by
  simp only [DAENode.receive, AnonymousPacket.isInternalMsg, hmsg, hid,
    DAENode.processMessage, hd, if_true]

/-- The first packet of any send is `sizeofHeader` bytes longer than the
payload. -/
theorem first_totalSize (n : DAENode) (s : DAESocket)
    (hs : s.serviceType = .externalDeaddropMessaging) (buf : List UInt8) :
    ∃ p, Built buf p ∧ p.totalSize = sizeofHeader + buf.length := by
  obtain ⟨p, hp, hcar⟩ := mail_carries n (s.send buf).2
  refine ⟨p, .sent n s hs hp, ?_⟩
  show (sizeofHeader : Int) + p.header.size = _
  rw [hcar.size, (send_payload s buf).2.2]

/-- A socket: some packet is always built. -/
def loneSocket : DAESocket := ⟨⟨0⟩, .externalDeaddropMessaging, 0, 2, 1, 0⟩

/-- A payload is intact on every way exactly when it leaves room for the
header: `MAX_MTU` less the size of `anonymous_header_t`. -/
theorem payload_intact_iff (buf : List UInt8) :
    Intact buf ↔ buf.length ≤ maxMtu - sizeofHeader := by
  constructor
  · intro h
    obtain ⟨p, hb, htotal⟩ := first_totalSize (pairNodes 0) loneSocket rfl buf
    have hle := (h.1 p hb).1
    rw [htotal] at hle
    unfold maxMtu sizeofHeader at *
    omega
  · intro hfit
    refine ⟨?_, ?_⟩
    · intro p hb
      have hholds := built_holds hfit hb
      refine ⟨?_, hholds.payload⟩
      show (sizeofHeader : Int) + p.header.size ≤ maxMtu
      rw [hholds.size]
      unfold maxMtu sizeofHeader at *
      omega
    · intro n p hb hid hd
      have hholds := built_holds hfit hb
      refine ⟨p, ?_, hholds.payload, hholds.size⟩
      rw [datagram_of_holds hholds hfit, receive_reply_marked hid
        hholds.msgType hd]

/-- The payload of the ping-pong test, `MAX_MTU` bytes, makes a packet that is
larger than its buffer. -/
theorem payload_overflows :
    ¬ Intact (List.replicate maxMtu 0) ∧
      ∃ p, Built (List.replicate maxMtu 0) p ∧ p.totalSize = 1184 := by
  obtain ⟨p, hb, htotal⟩ := first_totalSize (pairNodes 0) loneSocket rfl
    (List.replicate maxMtu 0)
  rw [List.length_replicate] at htotal
  refine ⟨fun h => ?_, p, hb, htotal⟩
  have hle := (h.1 p hb).1
  rw [htotal] at hle
  exact absurd hle (by decide)

end

end Daenet.Proofs
