import Daenet.Proofs.DeadDrop
import Daenet.Proofs.Handlers
import Daenet.Ref.Datagram

/-!
# Which datagrams are harmless

The dispatch trusts the datagram. What it trusts differs from service to
service — an index, one of three addresses, a size — and for some services it
depends on the node: a notification's address is only read when the notifier is
adopted, and the second half of a swap reads the packet that was stored.
`WellFormed` says it for each, and `contained_iff` that it is neither too much
nor too little.

Where the dispatch stays inside its buffers it does to the node what the
handlers do with the packet the datagram is taken for (`dispatch_view`).
-/

namespace Daenet.Proofs

open Daenet.Ref Daenet.Spec

/-- A computation without a fault. -/
def Succeeds {α : Type} (x : Except Fault α) : Prop := ∃ a, x = .ok a

/-- Dispatching the datagram, and reading it from the queue if that is where it
went, touches only fingers in the table, payload that was received and
addresses that end in their fields, and builds only packets that fit. -/
structure Contained (r : Receiver) (d : Datagram) : Prop where
  dispatched : Succeeds (r.dispatch d)
  read : ∀ r' es, r.dispatch d = .ok (r', es) → r'.recvListUser ≠ r.recvListUser →
    Succeeds d.readPayload

/-- The address field at `offset` holds a terminated string. -/
def Terminated (d : Datagram) (offset : Nat) : Prop :=
  0 ∈ (d.buf.drop offset).take sizeofIp

/-- The payload the header announces was received. -/
def Whole (d : Datagram) : Prop :=
  d.header.size = 0 ∨ (0 < d.header.size ∧ sizeofHeader + d.header.size ≤ d.size)

/-- There is a first finger to look at, unless the key is the node's own id. -/
def Routable (n : DAENode) (key : Nat) : Prop := n.id = key ∨ 0 < n.m

/-- What the service of the datagram reads is as it should be. -/
def WellFormed (r : Receiver) (d : Datagram) : Prop :=
  let n := r.node
  let h := d.header
  match h.msgType, h.id with
  | true, .internalJoinFindSuccessor =>
      Terminated d relayReplyIpOffset ∧ Routable n h.keyId
  | true, .internalReplyFindSuccessor =>
      (0 ≤ h.index ∧ h.index < n.m) ∧ Terminated d keyIpOffset
  | true, .internalFindPredecessor => Terminated d relayReplyIpOffset
  | true, .internalReplyGetPredecessor => Terminated d keyIpOffset
  | true, .internalNotifyPredecessorJoin =>
      n.predecessor = noId ∨ n.isInRange n.predecessor n.id h.keyId = true →
        Terminated d relayIpOffset
  | true, .internalFetchSuccessorList => 0 < n.m ∧ Terminated d relayReplyIpOffset
  | true, .internalReplySuccessorList => h.keyId ≠ n.id → Terminated d keyIpOffset
  | true, .internalCheckPredecessorExistence
  | true, .internalCheckSuccessorExistence => Terminated d relayReplyIpOffset
  | true, .internalReplySuccessorExistence => 0 < n.m
  | false, .externalPingpongService | false, .externalReplyPingpongService =>
      Routable n h.keyId ∧ Whole d
  | false, .externalDeaddropMessaging =>
      if h.isDest then
        ∀ pre, r.recvListDeaddrop (h.sessionId, h.index) = some pre →
          (Routable n h.relayReplyId ∧ Whole pre) ∧
            Routable n pre.header.relayReplyId ∧ Whole d
      else Routable n h.keyId ∧ Whole d
  | false, .externalReplyDeaddropMessaging =>
      if h.isDest then Whole d else Routable n h.keyId ∧ Whole d
  | _, _ => True

section

variable {α β : Type} {x : Except Fault α} {f : α → Except Fault β}
  {d : Datagram} {n : DAENode} {r r' : Receiver} {es : List Effect}

/-! ## Accesses -/

theorem do_eq_ok {b : β} : (x >>= f) = .ok b ↔ ∃ a, x = .ok a ∧ f a = .ok b := by
  cases x with
  | error fault => exact ⟨fun h => (by cases h), fun ⟨_, h, _⟩ => (by cases h)⟩
  | ok a =>
      refine ⟨fun h => ⟨a, rfl, h⟩, ?_⟩
      rintro ⟨_, ha, h⟩
      injection ha with ha
      exact ha ▸ h

@[simp] theorem succeeds_ok (a : α) : Succeeds (.ok a : Except Fault α) := ⟨a, rfl⟩

theorem succeeds_bind :
    Succeeds (x >>= f) ↔ ∃ a, x = .ok a ∧ Succeeds (f a) := by
  unfold Succeeds
  simp only [do_eq_ok]
  constructor
  · rintro ⟨b, a, hx, hf⟩
    exact ⟨a, hx, b, hf⟩
  · rintro ⟨a, hx, b, hf⟩
    exact ⟨b, a, hx, hf⟩

/-- When nothing that follows can fail. -/
theorem succeeds_bind_ok {g : α → β} :
    Succeeds (x >>= fun a => .ok (g a)) ↔ Succeeds x := by
  rw [succeeds_bind]
  exact ⟨fun ⟨a, hx, _⟩ => ⟨a, hx⟩, fun ⟨a, hx⟩ => ⟨a, hx, succeeds_ok _⟩⟩

theorem address_eq_ok {offset : Nat} {ip : String} :
    d.address offset = .ok ip ↔ Terminated d offset ∧ ip = d.string offset := by
  unfold Datagram.address Terminated
  split
  · next h => simp [h, eq_comm]
  · next h => simp [h]

theorem succeeds_address {offset : Nat} :
    Succeeds (d.address offset) ↔ Terminated d offset := by
  simp [Succeeds, address_eq_ok]

theorem readPayload_eq_ok {bytes : List UInt8} :
    d.readPayload = .ok bytes ↔ Whole d ∧ bytes = d.packet.payload := by
  unfold Datagram.readPayload Whole
  split
  · next h =>
      rw [Except.ok.injEq]
      exact ⟨fun he => ⟨h, he.symm⟩, fun he => he.2.symm⟩
  · next h => exact ⟨fun he => (by cases he), fun he => absurd he.1 h⟩

theorem succeeds_readPayload : Succeeds d.readPayload ↔ Whole d := by
  simp [Succeeds, readPayload_eq_ok]

theorem fingerAccess_eq_ok {m : Nat} {index : Int} {u : Unit} :
    fingerAccess m index = .ok u ↔ 0 ≤ index ∧ index < m := by
  unfold fingerAccess
  split <;> simp_all

theorem lookupAccess_eq_ok {key : Nat} {u : Unit} :
    lookupAccess n key = .ok u ↔ Routable n key := by
  unfold lookupAccess Routable
  split
  · next h => simp [h]
  · next h => simp [h, fingerAccess_eq_ok]

/-- A payload that was received makes a packet that fits. -/
theorem Whole.fits (h : Whole d) : (sizeofHeader : Int) + d.header.size ≤ maxMtu := by
  have hle := d.le
  rcases h with h | ⟨_, h⟩
  · rw [h]
    unfold sizeofHeader maxMtu
    omega
  · unfold maxMtu at *
    omega

theorem routePayload_eq_ok {y : DAENode.ExternalMsg} {e : Effect}
    (hsize : y.size = d.header.size) (hbytes : y.ctPackage = d.packet.payload) :
    routePayload n y d = .ok e ↔
      (Routable n y.destId ∧ Whole d) ∧ e = n.handleExternalMessaging y := by
  have hmsg : { y with ctPackage := d.packet.payload } = y := by rw [← hbytes]
  have hfit : Whole d → (sizeofHeader : Int) + y.size ≤ maxMtu := by
    intro h
    rw [hsize]
    exact h.fits
  unfold routePayload
  simp only [do_eq_ok, lookupAccess_eq_ok, readPayload_eq_ok]
  constructor
  · rintro ⟨_, hroute, bytes, ⟨hwhole, hb⟩, he⟩
    rw [if_pos (hfit hwhole), hb, hmsg] at he
    injection he with he
    exact ⟨⟨hroute, hwhole⟩, he.symm⟩
  · rintro ⟨⟨hroute, hwhole⟩, rfl⟩
    refine ⟨(), hroute, _, ⟨hwhole, rfl⟩, ?_⟩
    rw [if_pos (hfit hwhole), hmsg]

/-! ## The dispatch -/

theorem view_same (r : Receiver) : SameTables r.node r.view := ⟨_, _, rfl⟩

/-- The datagram is one that goes to the application. -/
def Queued (d : Datagram) : Prop :=
  d.header.msgType = false ∧ d.header.id = .externalReplyDeaddropMessaging ∧
    d.header.isDest = true

theorem packet_header (d : Datagram) : d.packet.header = d.header := rfl

theorem passOn_eq_ok {e : Effect} :
    routePayload n (DAENode.passOn d.packet) d = .ok e ↔
      (Routable n d.header.keyId ∧ Whole d) ∧
        e = n.handleExternalMessaging (DAENode.passOn d.packet) := by
  refine routePayload_eq_ok ?_ ?_
  · rw [DAENode.passOn, AnonymousPacket.payloadSize, packet_header]
  · rw [DAENode.passOn]

theorem swapReply_size (p pre : AnonymousPacket) (key : Nat) :
    (DAENode.swapReply p pre key).size = pre.header.size := rfl

theorem swapReply_eq_ok {pre : Datagram} {key : Nat} {e : Effect} :
    routePayload n (DAENode.swapReply d.packet pre.packet key) pre = .ok e ↔
      (Routable n key ∧ Whole pre) ∧
        e = n.handleExternalMessaging (DAENode.swapReply d.packet pre.packet key) := by
  refine routePayload_eq_ok ?_ ?_
  · rw [swapReply_size, packet_header]
  · rw [DAENode.swapReply]

theorem succeeds_passOn :
    Succeeds (routePayload n (DAENode.passOn d.packet) d >>= fun e => .ok (r, [e])) ↔
      Routable n d.header.keyId ∧ Whole d := by
  rw [succeeds_bind_ok]
  simp only [Succeeds, passOn_eq_ok]
  simp

theorem succeeds_dispatchDeaddrop :
    Succeeds (r.dispatchDeaddrop d) ↔
      ∀ pre, r.recvListDeaddrop (d.header.sessionId, d.header.index) = some pre →
        (Routable r.node d.header.relayReplyId ∧ Whole pre) ∧
          Routable r.node pre.header.relayReplyId ∧ Whole d := by
  cases hpre : r.recvListDeaddrop (d.header.sessionId, d.header.index) with
  | none => simp [Receiver.dispatchDeaddrop, hpre]
  | some pre =>
      simp only [Receiver.dispatchDeaddrop, hpre, succeeds_bind, swapReply_eq_ok,
        succeeds_ok, Option.some.injEq, forall_eq']
      simp

/-- The dispatch stays inside its buffers when the datagram is well formed. -/
theorem succeeds_dispatch :
    Succeeds (r.dispatch d) ∧ (Queued d → Whole d) ↔ WellFormed r d := by
  cases hint : d.header.msgType with
  | true =>
      have hq : ¬ Queued d := fun h => (by rw [h.1] at hint; cases hint)
      cases hid : d.header.id <;>
        simp only [Receiver.dispatch, WellFormed, hint, hid, succeeds_ok,
          succeeds_bind, hq, false_implies, and_true,
          lookupAccess_eq_ok, fingerAccess_eq_ok, address_eq_ok]
      case internalNotifyPredecessorJoin =>
        split
        · next h => simp [h, succeeds_bind_ok, succeeds_address]
        · next h => simp [h]
      case internalReplySuccessorList =>
        split
        · next h => simp [h, succeeds_bind_ok, succeeds_address]
        · next h => simp [h]
      all_goals simp
  | false =>
      cases hid : d.header.id <;>
        simp only [Receiver.dispatch, WellFormed, Queued, hint, hid, succeeds_ok,
          succeeds_passOn]
      case externalDeaddropMessaging =>
        split
        · simp [succeeds_dispatchDeaddrop]
        · simp [succeeds_passOn]
      case externalReplyDeaddropMessaging =>
        split
        · next h => simp [h]
        · next h => simp [h, succeeds_passOn]
      all_goals simp

theorem header_relayIp : d.header.relayIp = d.string relayIpOffset := rfl

theorem header_relayReplyIp : d.header.relayReplyIp = d.string relayReplyIpOffset := rfl

theorem header_keyIp : d.header.keyIp = d.string keyIpOffset := rfl

/-! The writes of the handlers, seen through the view. -/

theorem view_setFinger (k : Int) (p : PeerPair) :
    r.view.setFinger k p = Receiver.view { r with node := r.node.setFinger k p } := rfl

theorem view_setPredecessorOfSuccessor (id : Nat) (ip : String) (port : Int) :
    r.view.setPredecessorOfSuccessor id ip port = Receiver.view
      { r with node := r.node.setPredecessorOfSuccessor id ip port } := rfl

theorem view_handleReplySuccessorList (id : Nat) (ip : String) (port counter : Int) :
    r.view.handleReplySuccessorList id ip port counter = Receiver.view
      { r with node := r.node.handleReplySuccessorList id ip port counter } := by
  by_cases h : id ≠ r.node.id
  · have hv : id ≠ r.view.id := h
    rw [DAENode.handleReplySuccessorList, DAENode.handleReplySuccessorList,
      if_pos h, if_pos hv]
    rfl
  · have hv : ¬ id ≠ r.view.id := h
    rw [DAENode.handleReplySuccessorList, DAENode.handleReplySuccessorList,
      if_neg h, if_neg hv]

theorem view_notify (id : Nat) (ip : String) (port : Int) :
    r.view.notify id ip port =
      Receiver.view { r with node := r.node.notify id ip port } := by
  by_cases h : r.node.predecessor = noId ∨
      r.node.isInRange r.node.predecessor r.node.id id
  · have hv : r.view.predecessor = noId ∨
        r.view.isInRange r.view.predecessor r.view.id id := h
    rw [DAENode.notify, DAENode.notify, if_pos h, if_pos hv]
    rfl
  · have hv : ¬ (r.view.predecessor = noId ∨
        r.view.isInRange r.view.predecessor r.view.id id) := h
    rw [DAENode.notify, DAENode.notify, if_neg h, if_neg hv]

theorem view_drops {msg : Int × Int} {x : Option Datagram} :
    { r.view with
      recvListDeaddrop :=
        Function.update r.view.recvListDeaddrop msg (x.map Datagram.packet) } =
      Receiver.view { r with
        recvListDeaddrop := Function.update r.recvListDeaddrop msg x } := by
  have hmap : Function.update r.view.recvListDeaddrop msg (x.map Datagram.packet) =
      fun k => (Function.update r.recvListDeaddrop msg x k).map Datagram.packet := by
    funext k
    by_cases hk : k = msg
    · rw [hk, Function.update_self, Function.update_self]
    · rw [Function.update_of_ne hk, Function.update_of_ne hk]
      rfl
  rw [hmap]
  rfl

theorem view_user :
    { r.view with recvListUser := r.view.recvListUser ++ [d.packet] } =
      Receiver.view { r with recvListUser := r.recvListUser ++ [d] } := by
  simp only [Receiver.view, List.map_append, List.map_cons, List.map_nil]

theorem passOn_view
    (h : (routePayload r.node (DAENode.passOn d.packet) d >>= fun e =>
      .ok (r, [e])) = .ok (r', es)) :
    r = r' ∧ [r.view.handleExternalMessaging (DAENode.passOn d.packet)] = es := by
  simp only [do_eq_ok, passOn_eq_ok, Except.ok.injEq, Prod.mk.injEq] at h
  obtain ⟨e, ⟨_, rfl⟩, hr, hes⟩ := h
  rw [(view_same r).handleExternalMessaging]
  exact ⟨hr, hes⟩

theorem dispatchDeaddrop_view (h : r.dispatchDeaddrop d = .ok (r', es)) :
    (r.view.handleDeaddrop d.packet).1 = r'.view ∧
      (r.view.handleDeaddrop d.packet).2.map r'.view.handleExternalMessaging = es ∧
      r'.recvListUser = r.recvListUser := by
  cases hpre : r.recvListDeaddrop (d.header.sessionId, d.header.index) with
  | none =>
      have hv : r.view.recvListDeaddrop (dropKey d.packet) = none :=
        congrArg (Option.map Datagram.packet) hpre
      simp only [Receiver.dispatchDeaddrop, hpre, Except.ok.injEq,
        Prod.mk.injEq] at h
      obtain ⟨rfl, rfl⟩ := h
      rw [handleDeaddrop_first hv]
      refine ⟨?_, rfl, rfl⟩
      rw [← view_drops, Option.map_some]
      rfl
  | some pre =>
      have hv : r.view.recvListDeaddrop (dropKey d.packet) = some pre.packet :=
        congrArg (Option.map Datagram.packet) hpre
      simp only [Receiver.dispatchDeaddrop, hpre, do_eq_ok, swapReply_eq_ok,
        Except.ok.injEq, Prod.mk.injEq] at h
      obtain ⟨first, ⟨_, rfl⟩, second, ⟨_, rfl⟩, rfl, rfl⟩ := h
      rw [handleDeaddrop_second hv]
      refine ⟨?_, ?_, rfl⟩
      · rw [← view_drops, Option.map_none]
        rfl
      · have hsame : ∀ drops,
            SameTables r.node (Receiver.view { r with recvListDeaddrop := drops }) :=
          fun _ => ⟨_, _, rfl⟩
        simp only [List.map_cons, List.map_nil, (hsame _).handleExternalMessaging,
          packet_header]

/-- The messages of the ring. -/
theorem dispatch_internal_view (hint : d.header.msgType = true)
    (h : r.dispatch d = .ok (r', es)) :
    r.view.receive d.packet = (r'.view, es) ∧
      (r'.recvListUser = r.recvListUser ∨ Queued d) := by
  obtain ⟨p, hp⟩ : ∃ p, d.packet = p := ⟨_, rfl⟩
  have hhead : d.header = p.header := by rw [← hp, packet_header]
  have hext : p.isInternalMsg = true := by
    rw [← hint, hhead]
    rfl
  cases hid : d.header.id <;>
    simp only [Receiver.dispatch, hint, hid, do_eq_ok, address_eq_ok,
      ← header_relayReplyIp, ← header_keyIp, DAENode.update_eq_setFinger,
      Except.ok.injEq, Prod.mk.injEq] at h <;>
    rw [hhead] at hid <;>
    simp only [hp, DAENode.receive, hext, hid, DAENode.processMessage,
      DAENode.update_eq_setFinger]
  case internalJoinFindSuccessor =>
    obtain ⟨ip, ⟨_, rfl⟩, _, _, rfl, rfl⟩ := h
    rw [(view_same r).handleFindSuccessor, hhead]
    exact ⟨rfl, .inl rfl⟩
  case internalReplyFindSuccessor =>
    obtain ⟨_, _, ip, ⟨_, rfl⟩, rfl, rfl⟩ := h
    rw [view_setFinger, hhead]
    exact ⟨rfl, .inl rfl⟩
  case internalReplyGetPredecessor =>
    obtain ⟨ip, ⟨_, rfl⟩, rfl, rfl⟩ := h
    rw [view_setPredecessorOfSuccessor, hhead]
    exact ⟨rfl, .inl rfl⟩
  case internalNotifyPredecessorJoin =>
    rw [view_notify, ← hhead]
    split at h
    · next hadopt =>
        simp only [do_eq_ok, address_eq_ok, ← header_relayIp, Except.ok.injEq,
          Prod.mk.injEq] at h
        obtain ⟨ip, ⟨_, rfl⟩, rfl, rfl⟩ := h
        rw [DAENode.notify, if_pos hadopt]
        exact ⟨rfl, .inl rfl⟩
    · next hkeep =>
        simp only [Except.ok.injEq, Prod.mk.injEq] at h
        obtain ⟨rfl, rfl⟩ := h
        rw [DAENode.notify, if_neg hkeep]
        exact ⟨rfl, .inl rfl⟩
  case internalFetchSuccessorList =>
    obtain ⟨_, _, ip, ⟨_, rfl⟩, rfl, rfl⟩ := h
    rw [hhead]
    exact ⟨rfl, .inl rfl⟩
  case internalReplySuccessorList =>
    rw [view_handleReplySuccessorList, ← hhead]
    split at h
    · simp only [do_eq_ok, address_eq_ok, ← header_keyIp, Except.ok.injEq,
        Prod.mk.injEq] at h
      obtain ⟨ip, ⟨_, rfl⟩, rfl, rfl⟩ := h
      exact ⟨rfl, .inl rfl⟩
    · next hown =>
        simp only [Except.ok.injEq, Prod.mk.injEq] at h
        obtain ⟨rfl, rfl⟩ := h
        rw [DAENode.handleReplySuccessorList, if_neg hown]
        exact ⟨rfl, .inl rfl⟩
  case internalReplyPredecessorExistence =>
    obtain ⟨rfl, rfl⟩ := h
    rw [hhead]
    by_cases hkey : p.header.keyId = r.node.predecessor
    · have hv : p.header.keyId = r.view.predecessor := hkey
      rw [if_pos hkey, if_pos hv]
      exact ⟨rfl, .inl rfl⟩
    · have hv : ¬ p.header.keyId = r.view.predecessor := hkey
      rw [if_neg hkey, if_neg hv]
      exact ⟨rfl, .inl rfl⟩
  case internalReplySuccessorExistence =>
    obtain ⟨_, _, rfl, rfl⟩ := h
    rw [hhead]
    by_cases hkey : p.header.keyId = r.node.successor ∧ p.header.keyId ≠ r.node.id
    · have hv : p.header.keyId = r.view.successor ∧ p.header.keyId ≠ r.view.id :=
        hkey
      rw [if_pos hkey, if_pos hv]
      exact ⟨rfl, .inl rfl⟩
    · have hv : ¬ (p.header.keyId = r.view.successor ∧
          p.header.keyId ≠ r.view.id) := hkey
      rw [if_neg hkey, if_neg hv]
      exact ⟨rfl, .inl rfl⟩
  case internalFindPredecessor | internalCheckPredecessorExistence
      | internalCheckSuccessorExistence =>
    obtain ⟨ip, ⟨_, rfl⟩, rfl, rfl⟩ := h
    rw [hhead]
    exact ⟨rfl, .inl rfl⟩
  all_goals
    obtain ⟨rfl, rfl⟩ := h
    exact ⟨rfl, .inl rfl⟩

/-- The messages of the application. -/
theorem dispatch_external_view (hint : d.header.msgType = false)
    (h : r.dispatch d = .ok (r', es)) :
    r.view.receive d.packet = (r'.view, es) ∧
      (r'.recvListUser = r.recvListUser ∨ Queued d) := by
  obtain ⟨p, hp⟩ : ∃ p, d.packet = p := ⟨_, rfl⟩
  have hhead : d.header = p.header := by rw [← hp, packet_header]
  have hext : p.isInternalMsg = false := by
    rw [← hint, hhead]
    rfl
  cases hid : d.header.id <;>
    simp only [Receiver.dispatch, hint, hid, Except.ok.injEq,
      Prod.mk.injEq] at h <;>
    rw [hhead] at hid <;>
    simp only [hp, DAENode.receive, hext, hid, DAENode.processMessage]
  case externalPingpongService | externalReplyPingpongService =>
    obtain ⟨rfl, rfl⟩ := passOn_view h
    rw [hp]
    exact ⟨rfl, .inl rfl⟩
  case externalDeaddropMessaging =>
    split at h
    · next hdest =>
        obtain ⟨hnode, hes, huser⟩ := dispatchDeaddrop_view h
        rw [hhead] at hdest
        rw [hp] at hnode hes
        rw [if_pos hdest, hnode, hes]
        exact ⟨rfl, .inl huser⟩
    · next hdest =>
        obtain ⟨rfl, rfl⟩ := passOn_view h
        rw [hhead] at hdest
        rw [if_neg hdest, hp]
        exact ⟨rfl, .inl rfl⟩
  case externalReplyDeaddropMessaging =>
    split at h
    · next hdest =>
        simp only [Except.ok.injEq, Prod.mk.injEq] at h
        obtain ⟨rfl, rfl⟩ := h
        rw [hhead] at hdest
        rw [if_pos hdest, ← hp, view_user]
        exact ⟨rfl, .inr ⟨hint, by rw [hhead, hid], by rw [hhead, hdest]⟩⟩
    · next hdest =>
        obtain ⟨rfl, rfl⟩ := passOn_view h
        rw [hhead] at hdest
        rw [if_neg hdest, hp]
        exact ⟨rfl, .inl rfl⟩
  all_goals
    obtain ⟨rfl, rfl⟩ := h
    exact ⟨rfl, .inl rfl⟩

/-- What a node does with a datagram is what it does with the packet it takes it
for, and only a queued one is left for the application. -/
theorem dispatch_view (h : r.dispatch d = .ok (r', es)) :
    r.view.receive d.packet = (r'.view, es) ∧
      (r'.recvListUser = r.recvListUser ∨ Queued d) := by
  cases hint : d.header.msgType with
  | true => exact dispatch_internal_view hint h
  | false => exact dispatch_external_view hint h

theorem dispatch_queued (hq : Queued d) :
    r.dispatch d = .ok ({ r with recvListUser := r.recvListUser ++ [d] }, []) := by
  simp only [Receiver.dispatch, hq.1, hq.2.1]
  rw [if_pos hq.2.2]

theorem Contained.wellFormed (h : Contained r d) : WellFormed r d := by
  refine succeeds_dispatch.mp ⟨h.dispatched, fun hq => ?_⟩
  refine succeeds_readPayload.mp (h.read _ _ (dispatch_queued hq) fun he => ?_)
  have hlength := congrArg List.length he
  simp at hlength

theorem WellFormed.contained (h : WellFormed r d) : Contained r d := by
  obtain ⟨hok, hwhole⟩ := succeeds_dispatch.mpr h
  refine ⟨hok, fun r' es hd hne => succeeds_readPayload.mpr (hwhole ?_)⟩
  exact (dispatch_view hd).2.resolve_left hne

end

/-- A datagram is handled inside the buffers exactly when it is well formed. -/
theorem contained_iff (r : Receiver) (d : Datagram) :
    Contained r d ↔ WellFormed r d :=
  ⟨Contained.wellFormed, WellFormed.contained⟩

/-! ## A datagram that is not -/

/-- What a datagram that cannot be handled should leave alone. -/
structure Untouched (n n' : DAENode) : Prop where
  fingerTable : n'.fingerTable = n.fingerTable
  predecessor : n'.predecessor = n.predecessor ∧
    n'.predecessorIp = n.predecessorIp ∧ n'.predecessorPort = n.predecessorPort
  successorList : n'.successorList = n.successorList
  recvListDeaddrop : n'.recvListDeaddrop = n.recvListDeaddrop

/-- A header alone: a reply to `find_successor` for finger `0`, with key `0` and
an address of twenty ones. -/
def endlessReply : Datagram where
  buf := [0xf3, 0xff] ++ List.replicate 118 0 ++ List.replicate 20 0x31 ++
    List.replicate 8 0 ++ [1] ++ List.replicate 875 0
  size := 160
  length := by decide +kernel
  pos := by decide
  le := by decide

theorem endlessReply_id : endlessReply.header.id = .internalReplyFindSuccessor := by
  decide +kernel

theorem endlessReply_internal : endlessReply.header.msgType = true := by
  decide +kernel

theorem endlessReply_index : endlessReply.header.index = 0 := by
  decide +kernel

theorem endlessReply_key : endlessReply.header.keyId = 0 := by
  decide +kernel

theorem endlessReply_unterminated : ¬ Terminated endlessReply keyIpOffset := by
  unfold Terminated
  decide +kernel

theorem receive_found {n : DAENode} {p : AnonymousPacket}
    (hext : p.isInternalMsg = true)
    (hid : p.header.id = .internalReplyFindSuccessor) :
    n.receive p = (n.setFinger p.header.index p.keyPeer, []) := by
  simp only [DAENode.receive, hext, hid, DAENode.processMessage,
    DAENode.update_eq_setFinger]
  rfl

/-- The address does not end in its field, and the finger is written. -/
theorem malformed_reply_written :
    ¬ ∀ (r : Receiver) (d : Datagram),
      Contained r d ∨ Untouched r.view (r.view.receive d.packet).1 := by
  intro h
  let r : Receiver := ⟨pairNodes 0, fun _ => none, []⟩
  rcases h r endlessReply with hin | hsame
  · have hwell := hin.wellFormed
    simp only [WellFormed, endlessReply_internal, endlessReply_id] at hwell
    exact endlessReply_unterminated hwell.2
  · have hext : endlessReply.packet.isInternalMsg = true := endlessReply_internal
    have hid : endlessReply.packet.header.id = .internalReplyFindSuccessor :=
      endlessReply_id
    have hfinger := congrFun hsame.fingerTable endlessReply.packet.header.index
    rw [receive_found hext hid] at hfinger
    have hsucc := congrArg ChordFinger.successor hfinger
    simp only [DAENode.setFinger, DAENode.modifyFinger, Function.update_self,
      AnonymousPacket.keyPeer, packet_header, endlessReply_index,
      endlessReply_key] at hsucc
    exact absurd hsucc (by decide)

end Daenet.Proofs
