import Daenet.Proofs.Frames
import Daenet.Ref.TorSocket

/-!
# Onions

A text is wrapped from the inside out, by a loop that moves it back and forth
between two buffers, and unwrapped from the outside in, a layer at every node.
`Onion` is what the two have in common: the layers around a text, with the
header of each layer if there are headers. The loop of `generate_circuits`
builds an onion (`onionLayers_onion`); taking a layer off leaves the onion of
the next hop.

Nothing is assumed about the local arrays but their size: what was left in
them, the gaps of a header included, ends up inside the ciphertext and is
skipped on the other side.
-/

namespace Daenet.Proofs

open Daenet.Lib Daenet.Ref

/-- A local array of `MAX_MTU` bytes with whatever was left in it. -/
abbrev Scratch := { mem : List UInt8 // mem.length = maxMtu }

@[simp] theorem checked_some {α : Type} (a : α) :
    checked (some a) = Except.ok a := rfl

@[simp] theorem ok_bind {α β : Type} (a : α) (f : α → Except Stop β) :
    (Except.ok a >>= f) = f a := rfl

/-- `m` under the layers of the hops `i` to `L`; `Header j h` says that `h` can
be the header that names hop `j`. -/
inductive Onion (A : Aead) (key : List UInt8) (Header : Nat → List UInt8 → Prop)
    (L : Nat) (m : List UInt8) : Nat → List UInt8 → Prop where
  | core (nonce : Nonce) : Onion A key Header L m L (A.seal key nonce m)
  | layer {i : Nat} {h x : List UInt8} (nonce : Nonce) (hh : Header (i + 1) h)
      (hx : Onion A key Header L m (i + 1) x) :
      Onion A key Header L m i (A.seal key nonce (h ++ x))

section

variable {A : Aead} {key m x : List UInt8} {Header : Nat → List UInt8 → Prop}
  {L i c : Nat}

theorem Onion.le (hx : Onion A key Header L m i x) : i ≤ L := by
  induction hx with
  | core nonce => exact Nat.le_refl L
  | layer _ _ _ ih => exact Nat.le_of_succ_le ih

/-- An onion of no relays is the text under one layer. -/
theorem Onion.single (hx : Onion A key Header 0 m 0 x) :
    ∃ nonce, x = A.seal key nonce m := by
  cases hx with
  | core nonce => exact ⟨nonce, rfl⟩
  | layer _ _ hinner => exact absurd hinner.le (Nat.not_succ_le_zero 0)

/-- Every layer adds a nonce, a tag and the header. -/
theorem Onion.length (hA : A.Lawful key) (hc : ∀ j h, Header j h → h.length = c)
    (hx : Onion A key Header L m i x) :
    x.length = m.length + 28 + (28 + c) * (L - i) := by
  induction hx with
  | core nonce =>
      rw [seal_length hA, Nat.sub_self, Nat.mul_zero]
      rfl
  | @layer i h x nonce hh hinner ih =>
      have hi := hinner.le
      rw [seal_length hA, List.length_append, hc _ _ hh, ih,
        show L - i = (L - (i + 1)) + 1 by omega, Nat.mul_add]
      unfold npubBytes aBytes
      omega

/-! ## Headers -/

/-- The header of a layer: not the destination, the next hop is `peer`. -/
structure IsHeader (peer : TorPeer) (h : List UInt8) : Prop where
  length : h.length = sizeofTorMessage
  isDest : slice h 0 1 = some [0]
  ip : slice h 4 4 = some (leBytes 4 peer.ipRaw.toNat)
  port : slice h 8 2 = some (leBytes 2 (peer.port % 2 ^ 16).toNat)

/-- Storing a header in front of a text. -/
theorem store_header {mem text : List UInt8} (peer : TorPeer)
    (htext : slice mem sizeofTorMessage text.length = some text) :
    ∃ mem' h, TorMessage.store mem 0 peer = .ok mem' ∧
      mem'.length = mem.length ∧ IsHeader peer h ∧
      slice mem' 0 (text.length + sizeofTorMessage) = some (h ++ text) := by
  have hroom := (slice_bound htext).1
  unfold sizeofTorMessage at *
  obtain ⟨m₁, hb₁, hw₁⟩ := blit_spec mem 0 [0]
    (by rw [List.length_singleton]; omega)
  obtain ⟨m₂, hb₂, hw₂⟩ := blit_spec m₁ 4 (leBytes 4 peer.ipRaw.toNat)
    (by rw [leBytes_length, hw₁.length]; omega)
  obtain ⟨m₃, hb₃, hw₃⟩ := blit_spec m₂ 8
    (leBytes 2 (peer.port % 2 ^ 16).toNat)
    (by rw [leBytes_length, hw₂.length, hw₁.length]; omega)
  have hlen : m₃.length = mem.length := by rw [hw₃.length, hw₂.length, hw₁.length]
  have hhead : slice m₃ 0 12 = some ((m₃.drop 0).take 12) :=
    slice_eq_some (by omega)
  have h₂ := hw₂.here
  have h₃ := hw₃.here
  rw [leBytes_length] at h₂ h₃
  have hkeep := fun o n (h : 12 ≤ o) => (hw₃.after o n (by
    rw [leBytes_length]; omega)).trans ((hw₂.after o n (by
    rw [leBytes_length]; omega)).trans (hw₁.after o n (by
    rw [List.length_singleton]; omega)))
  refine ⟨m₃, (m₃.drop 0).take 12, ?_, hlen, ⟨(slice_bound hhead).2, ?_, ?_, ?_⟩, ?_⟩
  · simp only [TorMessage.store, hb₁, hb₂, hb₃, checked_some, ok_bind]
  · rw [← slice_slice hhead (by omega), hw₃.before 0 1 (by omega),
      hw₂.before 0 1 (by omega)]
    exact hw₁.here
  · rw [← slice_slice hhead (by omega), hw₃.before 4 4 (by omega), h₂]
  · rw [← slice_slice hhead (by omega), h₃]
  · rw [Nat.add_comm]
    refine slice_append hhead ?_
    rw [hkeep _ _ (by omega)]
    exact htext

/-- Reading a header back. -/
theorem load_header {mem rest h : List UInt8} {peer : TorPeer}
    (hport : 0 ≤ peer.port ∧ peer.port < 2 ^ 16) (hh : IsHeader peer h)
    (hmem : slice mem 0 (h ++ rest).length = some (h ++ rest)) :
    TorMessage.load mem = .ok ⟨0, peer.ipRaw.toNat, peer.port.toNat⟩ := by
  have hlen := hh.length
  unfold sizeofTorMessage at hlen
  have hread : ∀ o n, o + n ≤ 12 → slice mem o n = slice h o n := by
    intro o n hle
    have hfront := (slice_add (n := 12) (k := rest.length)
      (by rw [List.length_append, hlen] at hmem; exact hmem)).1
    rw [List.take_left' hlen] at hfront
    rw [← slice_slice hfront hle, Nat.zero_add]
  simp only [TorMessage.load, hread 0 1 (by omega), hread 4 4 (by omega),
    hread 8 2 (by omega), hh.isDest, hh.ip, hh.port, checked_some, ok_bind,
    leNat_leBytes]
  have hip := peer.ipRaw.toNat_lt
  congr 2
  · exact Nat.mod_eq_of_lt (by omega)
  · rw [Nat.mod_eq_of_lt (by omega)]
    omega

/-! ## Building -/

/-- A nonce and the ciphertext behind it, written at the front of a buffer. -/
theorem blit_seal (hA : A.Lawful key) (nonce : Nonce) (buf p : List UInt8)
    (hroom : p.length + 28 ≤ buf.length) :
    ∃ b₁ b₂, blit buf 0 nonce.val = some b₁ ∧
      blit b₁ npubBytes (A.encrypt key nonce.val p) = some b₂ ∧
      b₂.length = buf.length ∧
      slice b₂ 0 ((A.encrypt key nonce.val p).length + npubBytes) =
        some (A.seal key nonce p) := by
  have hn := nonce.property
  have hc := hA.length nonce.val p
  unfold npubBytes aBytes at *
  obtain ⟨b₁, hb₁, hw₁⟩ := blit_spec buf 0 nonce.val (by omega)
  obtain ⟨b₂, hb₂, hw₂⟩ := blit_spec b₁ 12 (A.encrypt key nonce.val p)
    (by rw [hw₁.length]; omega)
  refine ⟨b₁, b₂, hb₁, hb₂, hw₂.length.trans hw₁.length, ?_⟩
  rw [Nat.add_comm, Aead.seal]
  refine slice_append ?_ (by rw [Nat.zero_add]; exact hw₂.here)
  rw [hw₂.before 0 12 (by omega)]
  have h := hw₁.here
  rwa [hn] at h

/-- The header in front of hop `j`'s layer, if there are headers. -/
def HeaderOf (t : TorSocket) (header : Bool) (j : Nat) (h : List UInt8) : Prop :=
  if header then IsHeader (t.relays j) h else h = []

/-- What a header takes. -/
def headerSize (header : Bool) : Nat := if header then sizeofTorMessage else 0

theorem HeaderOf.length {t : TorSocket} {header : Bool} {j : Nat}
    {h : List UInt8} (hh : HeaderOf t header j h) :
    h.length = headerSize header := by
  cases header with
  | true => exact IsHeader.length hh
  | false => exact congrArg List.length hh

/-- One turn of the loop puts the next layer on. -/
theorem layer_built (t : TorSocket) (header : Bool) (j : Nat)
    {buffer : List UInt8} (hroom : headerSize header + x.length ≤ buffer.length) :
    ∃ b₁ b₂ h, blit buffer (headerSize header) x = some b₁ ∧
      t.putHeader header j b₁ = .ok b₂ ∧
      b₂.length = buffer.length ∧ HeaderOf t header j h ∧
      slice b₂ 0 (x.length + headerSize header) = some (h ++ x) := by
  obtain ⟨b₁, hb₁, hw₁⟩ := blit_spec _ _ _ hroom
  cases header with
  | true =>
      obtain ⟨b₂, h, hstore, hlen, hh, hslice⟩ := store_header (t.relays j) hw₁.here
      exact ⟨b₁, b₂, h, hb₁, hstore, hlen.trans hw₁.length, hh, hslice⟩
  | false => exact ⟨b₁, b₁, [], hb₁, rfl, hw₁.length, rfl, hw₁.here⟩

/-- The loop of `generate_circuits` builds the layers down to the first hop. -/
theorem onionLayers_onion {t : TorSocket} {header : Bool} (nonces : Nat → Nonce)
    (hA : A.Lawful t.rawKey)
    (hfit : m.length + 28 + (28 + headerSize header) * L + sizeofWord ≤ maxMtu) :
    ∀ (i : Nat) (x buf buffer : List UInt8),
      buf.length + sizeofWord = maxMtu → buffer.length = maxMtu →
      Onion A t.rawKey (HeaderOf t header) L m i x →
      slice buf 0 x.length = some x →
      ∃ buf' x', TorSocket.onionLayers A t header nonces i buf buffer x.length =
          .ok (buf', x'.length) ∧ slice buf' 0 x'.length = some x' ∧
        Onion A t.rawKey (HeaderOf t header) L m 0 x' := by
  intro i
  induction i with
  | zero =>
      intro x buf buffer _ _ ho hx
      exact ⟨buf, x, rfl, hx, ho⟩
  | succ i ih =>
      intro x buf buffer hbuf hbuffer ho hx
      have hi := ho.le
      have hlen := ho.length hA fun _ _ h => h.length
      -- A layer more still fits.
      have hmul : (28 + headerSize header) * (L - (i + 1)) +
          (28 + headerSize header) ≤ (28 + headerSize header) * L := by
        rw [← Nat.mul_succ]
        exact Nat.mul_le_mul_left _ (by omega)
      obtain ⟨b₁, b₂, h, hb₁, hstore, hlen₂, hh, hplain⟩ := layer_built t
        header (i + 1) (show headerSize header + x.length ≤ buffer.length by omega)
      obtain ⟨c₁, c₂, hc₁, hc₂, hlen', hseal⟩ := blit_seal hA
        (nonces i) buf (h ++ x) (by rw [List.length_append, hh.length]; omega)
      have hsize : (A.encrypt t.rawKey (nonces i).val (h ++ x)).length + npubBytes =
          (A.seal t.rawKey (nonces i) (h ++ x)).length := by
        rw [seal_length hA, hA.length]
        omega
      rw [hsize] at hseal
      obtain ⟨buf', x', hrun, hx', ho'⟩ := ih (A.seal t.rawKey (nonces i) (h ++ x))
        c₂ b₂ (by omega) (by omega) (.layer (nonces i) hh ho) hseal
      refine ⟨buf', x', ?_, hx', ho'⟩
      unfold headerSize at hb₁ hplain
      simp only [TorSocket.onionLayers, hx, hb₁, hstore, hplain, hc₁, hc₂,
        checked_some, ok_bind, hsize]
      exact hrun

/-- `generate_circuits` makes the whole onion. -/
theorem generateCircuits_onion {t : TorSocket} {header : Bool} {layer : Nat}
    (nonces : Nat → Nonce) (hA : A.Lawful t.rawKey) {buffer buf : List UInt8}
    (hfit : m.length + 28 + (28 + headerSize header) * layer + sizeofWord ≤ maxMtu)
    (hbuf : buf.length + sizeofWord = maxMtu) (hbuffer : buffer.length = maxMtu)
    (hm : slice buf 0 m.length = some m) :
    ∃ buf' x, t.generateCircuits A header layer nonces buffer buf m.length =
        .ok (buf', x.length) ∧ slice buf' 0 x.length = some x ∧
      Onion A t.rawKey (HeaderOf t header) layer m 0 x := by
  have hsize := hA.length (nonces layer).val m
  have hseal := seal_length hA (nonces layer) m
  obtain ⟨b₁, b₂, hb₁, hb₂, hlen₂, htext⟩ := blit_seal hA
    (nonces layer) buffer m (by omega)
  obtain ⟨c, hc, hw⟩ := blit_spec buf 0 (A.seal t.rawKey (nonces layer) m)
    (by rw [hseal]; unfold npubBytes aBytes; omega)
  have hlen : (A.encrypt t.rawKey (nonces layer).val m).length + npubBytes =
      (A.seal t.rawKey (nonces layer) m).length := by omega
  rw [hlen] at htext
  obtain ⟨buf', x, hrun, hx, ho⟩ := onionLayers_onion (m := m) nonces hA hfit
    layer _ c b₂ (by rw [hw.length]; exact hbuf) (hlen₂.trans hbuffer)
    (.core (nonces layer)) hw.here
  refine ⟨buf', x, ?_, hx, ho⟩
  simp only [TorSocket.generateCircuits, hm, hb₁, hb₂, hlen, htext, hc,
    checked_some, ok_bind]
  exact hrun

/-- `TorSocket::send` puts an onion on the wire: with headers when it asks for a
circuit, and of one layer when it is not the circuit's sender. -/
theorem send_onion {t : TorSocket} (nonces : Nat → Nonce)
    (hA : A.Lawful t.rawKey) (buffer buff : Scratch) {fromBuf : List UInt8}
    (m : List UInt8) (size : Int) (header : Bool) (layer : Nat)
    (hheader : header = (t.isSender && size == -1))
    (hlayer : layer = if t.isSender then t.numLayers else 0)
    (hsize : m.length = if header then sizeofTorMessage else size.toNat)
    (hm : slice fromBuf 0 m.length = some m)
    (hfit : m.length + 28 + (28 + headerSize header) * layer + sizeofWord ≤ maxMtu) :
    ∃ x, t.send A nonces buffer.val (buff.val.drop sizeofWord) fromBuf size =
        .ok (frameOf x) ∧
      Onion A t.rawKey (HeaderOf t header) layer m 0 x := by
  have hbuf : (buff.val.drop sizeofWord).length + sizeofWord = maxMtu := by
    rw [List.length_drop, buff.property]
    rfl
  obtain ⟨c, hc, hw⟩ := blit_spec (buff.val.drop sizeofWord) 0 m (by omega)
  obtain ⟨buf', x, hrun, hx, ho⟩ := generateCircuits_onion (t := t) nonces hA hfit
    (by rw [hw.length]; exact hbuf) buffer.property hw.here
  refine ⟨x, ?_, ho⟩
  simp only [TorSocket.send, ← hheader, ← hlayer, ← hsize, hm, hc, hrun, hx,
    checked_some, ok_bind]

/-! ## Taking layers off -/

/-- One turn of the loop of `recv_decrypt_onion`. -/
theorem decryptLayers_step {buffer : List UInt8} (buf : List UInt8)
    (hA : A.Lawful key) (nonce : Nonce) {y : List UInt8} (k : Nat)
    (hbuf : y.length ≤ buf.length)
    (hx : slice buffer 0 (A.seal key nonce y).length = some (A.seal key nonce y)) :
    ∃ buffer' buf', decryptLayers A key (k + 1) buffer buf
        (A.seal key nonce y).length = decryptLayers A key k buffer' buf' y.length ∧
      buf'.length = buf.length ∧ slice buffer' 0 y.length = some y ∧
      slice buf' 0 y.length = some y := by
  have hlen := seal_length hA nonce y
  have hroom := (slice_bound hx).1
  obtain ⟨b₁, hb₁, hw₁⟩ := blit_spec buf 0 y (by omega)
  obtain ⟨b₂, hb₂, hw₂⟩ := blit_spec buffer 0 y (by omega)
  refine ⟨b₂, b₁, ?_, hw₁.length, hw₂.here, hw₁.here⟩
  rw [decryptLayers, if_neg (by omega)]
  simp only [hx, unseal_seal hA, hb₁, hb₂, checked_some, ok_bind]

/-- Taking all layers off an onion without headers. -/
theorem decryptLayers_onion {buffer : List UInt8} (buf : List UInt8)
    (hA : A.Lawful key)
    (ho : Onion A key (fun _ h => h = []) L m i x)
    (hbuf : x.length ≤ buf.length) (hx : slice buffer 0 x.length = some x) :
    ∃ buf', decryptLayers A key (L - i + 1) buffer buf x.length =
        .ok (some m.length, buf') ∧ slice buf' 0 m.length = some m := by
  induction ho generalizing buffer buf with
  | core nonce =>
      have hlen := seal_length hA nonce m
      obtain ⟨_, buf', hstep, _, _, hm⟩ := decryptLayers_step buf hA
        nonce (L - L) (by omega) hx
      refine ⟨buf', ?_, hm⟩
      rw [hstep, Nat.sub_self]
      rfl
  | @layer i h x nonce hh hinner ih =>
      subst hh
      have hi := hinner.le
      have hlen := seal_length hA nonce x
      rw [List.nil_append] at hbuf hx ⊢
      obtain ⟨buffer', buf', hstep, hsame, hin, _⟩ := decryptLayers_step
        buf hA nonce (L - i) (by omega) hx
      obtain ⟨buf'', hrun, hm⟩ := ih buf' (by omega) hin
      refine ⟨buf'', ?_, hm⟩
      rw [hstep, show L - i = L - (i + 1) + 1 by omega]
      exact hrun

/-- `recv_with_header_size` on a frame that arrives whole. -/
theorem recvWithHeaderSize_whole (shared : Scratch)
    (hfit : (frameOf x).length ≤ maxMtu) :
    ∃ mem' n, recvWithHeaderSize ⟨shared.val, 0⟩ maxMtu [frameOf x] =
        .ok (.frame mem' n n []) ∧ bodySize n = x.length ∧
      slice mem' sizeofWord x.length = some x := by
  obtain ⟨mem', hread, _, hbody⟩ := readFrame_whole shared.property hfit
  refine ⟨mem', (frameOf x).length, ?_, bodySize_frame hfit, hbody⟩
  rw [recvWithHeaderSize, if_pos rfl]
  exact hread

theorem keep_zero (mem : List UInt8) (n : Nat) : keep mem n 0 = some mem := if_pos rfl

/-- `recv_decrypt_onion` on such a frame: its body, in `buffer`, goes through the
loop. -/
theorem recvDecryptOnion_whole (A : Aead) (key : List UInt8) (layer : Nat)
    (buffer shared : Scratch) (buf : List UInt8)
    (hfit : (frameOf x).length ≤ maxMtu) :
    ∃ buffer' mem', slice buffer' 0 x.length = some x ∧
      recvDecryptOnion A key layer buffer.val buf ⟨shared.val, 0⟩ [frameOf x] =
        (decryptLayers A key (layer + 1) buffer' buf x.length).bind
          fun r => .ok (r.1, r.2, ⟨mem', 0⟩, []) := by
  obtain ⟨mem', n, hread, hsize, hbody⟩ := recvWithHeaderSize_whole shared hfit
  rw [frameOf_length] at hfit
  obtain ⟨buffer', hb, hw⟩ := blit_spec buffer.val 0 x
    (by rw [buffer.property]; omega)
  refine ⟨buffer', mem', hw.here, ?_⟩
  rw [recvDecryptOnion, recvDecryptOnionWith, hread, ok_bind]
  simp only [hsize, hbody, hb, Nat.sub_self, keep_zero, checked_some, ok_bind]
  generalize decryptLayers A key (layer + 1) buffer' buf x.length = r
  cases r with
  | error stop => rfl
  | ok r => rfl

/-- `TorSocket::recv` of a socket that is no sender takes one layer off. -/
theorem recv_one_layer {t : TorSocket} (hA : A.Lawful t.rawKey)
    (ht : t.isSender = false) (nonce : Nonce) {y : List UInt8}
    (buffer buf shared : Scratch)
    (hfit : (frameOf (A.seal t.rawKey nonce y)).length ≤ maxMtu) :
    ∃ buf' mem', t.recv A buffer.val buf.val ⟨shared.val, 0⟩
        [frameOf (A.seal t.rawKey nonce y)] =
          .ok (some y.length, buf', ⟨mem', 0⟩, []) ∧
      slice buf' 0 y.length = some y := by
  have hlen := seal_length hA nonce y
  obtain ⟨buffer', mem', hbody, hrecv⟩ := recvDecryptOnion_whole A t.rawKey
    0 buffer shared buf.val hfit
  rw [frameOf_length] at hfit
  obtain ⟨_, buf', hstep, _, _, hin⟩ := decryptLayers_step buf.val hA nonce
    0 (by rw [buf.property]; omega) hbody
  refine ⟨buf', mem', ?_, hin⟩
  rw [TorSocket.recv, ht, if_neg Bool.false_ne_true, hrecv, hstep]
  rfl

/-! ## Creating a circuit -/

/-- A node that gets the onion of a hop before the last one connects to the next
hop and sends it the onion inside. -/
theorem acceptOne_layer {t : TorSocket} (hA : A.Lawful t.rawKey) {peer : TorPeer}
    {h : List UInt8} (hport : 0 ≤ peer.port ∧ peer.port < 2 ^ 16)
    (hh : IsHeader peer h) (nonce : Nonce) (buffer buf shared : Scratch)
    (hfit : (frameOf (A.seal t.rawKey nonce (h ++ x))).length ≤ maxMtu) :
    acceptOne A t buffer.val buf.val ⟨shared.val, 0⟩
        [frameOf (A.seal t.rawKey nonce (h ++ x))] =
      .ok (.forward peer.ipRaw.toNat peer.port.toNat (frameOf x)) := by
  have hlen := seal_length hA nonce (h ++ x)
  obtain ⟨buf', mem', hrecv, hin⟩ := recv_one_layer (A := A)
    (t := { t with isSender := false }) hA rfl nonce buffer buf shared hfit
  have hload := load_header hport hh hin
  rw [frameOf_length] at hfit
  rw [List.length_append, hh.length] at hlen hin hrecv
  have hrest : slice buf' sizeofTorMessage x.length = some x := by
    have hsplit := (slice_add hin).2
    rwa [List.drop_left' hh.length, Nat.zero_add] at hsplit
  have hsize : (((sizeofTorMessage + x.length : Nat) - sizeofTorMessage : Int) %
      2 ^ 32).toNat = x.length := by
    unfold sizeofTorMessage maxMtu at *
    omega
  rw [acceptOne, hrecv, ok_bind]
  simp only [hload, ok_bind]
  rw [if_neg Nat.zero_ne_one, hsize, hrest]
  rfl

/-- The last hop finds that it is the destination. -/
theorem acceptOne_core {t : TorSocket} (hA : A.Lawful t.rawKey)
    (hm : m.length = sizeofTorMessage) (hdest : slice m 0 1 = some [1])
    (nonce : Nonce) (buffer buf shared : Scratch)
    (hfit : (frameOf (A.seal t.rawKey nonce m)).length ≤ maxMtu) :
    acceptOne A t buffer.val buf.val ⟨shared.val, 0⟩
        [frameOf (A.seal t.rawKey nonce m)] = .ok .dest := by
  obtain ⟨buf', mem', hrecv, hin⟩ := recv_one_layer (A := A)
    (t := { t with isSender := false }) hA rfl nonce buffer buf shared hfit
  rw [hm] at hin
  have hread : ∀ o n, o + n ≤ sizeofTorMessage → slice buf' o n = slice m o n := by
    intro o n hle
    rw [← slice_slice hin hle, Nat.zero_add]
  obtain ⟨ip, hip⟩ : ∃ ip, slice m 4 4 = some ip :=
    ⟨_, slice_eq_some (by rw [hm]; decide)⟩
  obtain ⟨port, hport⟩ : ∃ port, slice m 8 2 = some port :=
    ⟨_, slice_eq_some (by rw [hm]; decide)⟩
  have hload : TorMessage.load buf' = .ok ⟨1, leNat ip, leNat port⟩ := by
    simp only [TorMessage.load, hread 0 1 (by decide), hread 4 4 (by decide),
      hread 8 2 (by decide), hdest, hip, hport, checked_some, ok_bind]
    rfl
  rw [acceptOne, hrecv, ok_bind]
  simp only [hload, ok_bind, if_true]

/-- The frame of an onion fits when the whole onion does. -/
theorem Onion.fits (hA : A.Lawful key) (hc : ∀ j h, Header j h → h.length = c)
    (ho : Onion A key Header L m i x)
    (hfit : m.length + 28 + (28 + c) * L + sizeofWord ≤ maxMtu) :
    (frameOf x).length ≤ maxMtu := by
  have hlen := ho.length hA hc
  have hmul : (28 + c) * (L - i) ≤ (28 + c) * L :=
    Nat.mul_le_mul_left _ (Nat.sub_le L i)
  rw [frameOf_length]
  omega

/-- An onion with headers goes from hop to hop: hop `j` connects to hop `j + 1`
and sends it the onion inside, and hop `L` is the destination. -/
theorem Onion.visits {t : TorSocket} {node : Nat → TorSocket}
    (hA : A.Lawful key) (hkey : ∀ j, (node j).rawKey = key)
    (hports : ∀ j ≤ L, 0 ≤ (t.relays j).port ∧ (t.relays j).port < 2 ^ 16)
    (hm : m.length = sizeofTorMessage) (hdest : slice m 0 1 = some [1])
    (hfit : m.length + 28 + (28 + sizeofTorMessage) * L + sizeofWord ≤ maxMtu)
    (buffer buf shared : Nat → Scratch)
    (ho : Onion A key (HeaderOf t true) L m i x) :
    ∃ frames : Nat → List UInt8, frames i = frameOf x ∧
      (∀ j, i ≤ j → j < L →
        acceptOne A (node j) (buffer j).val (buf j).val ⟨(shared j).val, 0⟩
            [frames j] =
          .ok (.forward (t.relays (j + 1)).ipRaw.toNat
            (t.relays (j + 1)).port.toNat (frames (j + 1)))) ∧
      acceptOne A (node L) (buffer L).val (buf L).val ⟨(shared L).val, 0⟩
        [frames L] = .ok .dest := by
  induction ho with
  | core nonce =>
      refine ⟨fun _ => frameOf (A.seal key nonce m), rfl,
        fun j hj hlt => absurd hlt (Nat.not_lt.mpr hj), ?_⟩
      have hfits := (@Onion.core A key (HeaderOf t true) L m nonce).fits hA
        (fun _ _ h => h.length) hfit
      rw [← hkey L] at hA hfits ⊢
      exact acceptOne_core hA hm hdest nonce _ _ _ hfits
  | @layer i h x nonce hh hinner ih =>
      obtain ⟨frames, hfirst, hhops, hlast⟩ := ih
      have hi := hinner.le
      have hfits := (Onion.layer nonce hh hinner).fits hA
        (fun _ _ h => h.length) hfit
      refine ⟨Function.update frames i (frameOf (A.seal key nonce (h ++ x))),
        Function.update_self .., ?_, ?_⟩
      · intro j hij hj
        rw [Function.update_of_ne (show j + 1 ≠ i by omega)]
        rcases Nat.lt_or_eq_of_le hij with hlt | rfl
        · rw [Function.update_of_ne (by omega)]
          exact hhops j hlt hj
        · rw [Function.update_self, hfirst]
          rw [← hkey i] at hA hfits ⊢
          exact acceptOne_layer hA (hports (i + 1) hi) hh nonce _ _ _ hfits
      · rw [Function.update_of_ne (by omega)]
        exact hlast

/-- Creating a circuit. The message that `send(buf, -1)` puts on the wire is
taken by the accept loops from relay to relay: every one before the last
connects to exactly the next one chosen and sends it the next message, and the
last one, alone, finds that the request is for it. -/
theorem circuit_visits_relays {t : TorSocket} (hA : A.Lawful t.rawKey)
    (ht : t.isSender = true)
    (hports : ∀ j ≤ t.numLayers, 0 ≤ (t.relays j).port ∧ (t.relays j).port < 65536)
    (hfit : 40 * (t.numLayers + 1) + sizeofWord ≤ maxMtu)
    (node : Nat → TorSocket) (hkey : ∀ j, (node j).rawKey = t.rawKey)
    (nonces : Nat → Nonce) (buffer buff fromBuf : Scratch)
    (hdest : fromBuf.val.head? = some 1) (locals bufs shared : Nat → Scratch) :
    ∃ frames : Nat → List UInt8,
      t.send A nonces buffer.val (buff.val.drop sizeofWord) fromBuf.val (-1) =
        .ok (frames 0) ∧
      (∀ i < t.numLayers,
        acceptOne A (node i) (locals i).val (bufs i).val ⟨(shared i).val, 0⟩
            [frames i] =
          .ok (.forward (t.relays (i + 1)).ipRaw.toNat
            (t.relays (i + 1)).port.toNat (frames (i + 1)))) ∧
      acceptOne A (node t.numLayers) (locals t.numLayers).val
          (bufs t.numLayers).val ⟨(shared t.numLayers).val, 0⟩
          [frames t.numLayers] = .ok .dest := by
  have hroom : 0 + sizeofTorMessage ≤ fromBuf.val.length := by
    rw [fromBuf.property]
    decide
  have hmsg := slice_eq_some hroom
  have hm := (slice_bound hmsg).2
  generalize (fromBuf.val.drop 0).take sizeofTorMessage = m at hmsg hm
  have hone : slice m 0 1 = some [1] := by
    rw [← slice_slice hmsg (by decide), Nat.zero_add]
    match hb : fromBuf.val with
    | [] => rw [hb] at hdest; cases hdest
    | b :: rest =>
        rw [hb] at hdest
        injection hdest with hdest
        subst hdest
        rw [slice_eq_some (by rw [List.length_cons]; omega)]
        rfl
  have hfit' : m.length + 28 + (28 + headerSize true) * t.numLayers + sizeofWord ≤
      maxMtu := by
    rw [hm, headerSize, if_pos rfl]
    unfold sizeofTorMessage at *
    omega
  obtain ⟨x, hsend, ho⟩ := send_onion nonces hA buffer buff m (-1) true _
    (by rw [ht]; rfl) (by rw [if_pos ht]) (by rw [if_pos rfl, hm])
    (by rw [hm]; exact hmsg) hfit'
  obtain ⟨frames, hfirst, hhops, hlast⟩ := ho.visits hA hkey hports hm hone hfit'
    locals bufs shared
  exact ⟨frames, by rw [hsend, hfirst], fun i hi => hhops i (Nat.zero_le i) hi,
    hlast⟩

/-! ## Data through a circuit -/

/-- A relay on the way out takes a layer off. -/
theorem recvCryptoSend_decrypt (hA : A.Lawful key) (nonce nonce' : Nonce)
    {y : List UInt8} (shared : Scratch)
    (hfit : (frameOf (A.seal key nonce' y)).length ≤ maxMtu) :
    ∃ mem', recvCryptoSend A key false nonce ⟨shared.val, 0⟩
        [frameOf (A.seal key nonce' y)] =
      .ok (some (frameOf y), ⟨mem', 0⟩, []) := by
  have hlen := seal_length hA nonce' y
  obtain ⟨mem', n, hread, hsize, hbody⟩ := recvWithHeaderSize_whole shared hfit
  rw [frameOf_length] at hfit
  refine ⟨mem', ?_⟩
  rw [recvCryptoSend, recvCryptoSendWith, hread, ok_bind]
  simp only [Bool.false_eq_true, if_false, hsize, hbody, checked_some, ok_bind,
    unseal_seal hA, Nat.sub_self, keep_zero]
  rw [if_neg (by omega), if_neg (by omega)]

/-- A relay on the way back puts a layer on. -/
theorem recvCryptoSend_encrypt (hA : A.Lawful key) (nonce : Nonce)
    {y : List UInt8} (shared : Scratch)
    (hfit : (frameOf (A.seal key nonce y)).length ≤ maxMtu) :
    ∃ mem', recvCryptoSend A key true nonce ⟨shared.val, 0⟩ [frameOf y] =
      .ok (some (frameOf (A.seal key nonce y)), ⟨mem', 0⟩, []) := by
  have hlen := seal_length hA nonce y
  rw [frameOf_length] at hfit
  obtain ⟨mem', n, hread, hsize, hbody⟩ := recvWithHeaderSize_whole (x := y) shared
    (by rw [frameOf_length]; omega)
  refine ⟨mem', ?_⟩
  rw [recvCryptoSend, recvCryptoSendWith, hread, ok_bind]
  simp only [if_true, hsize, hbody, checked_some, ok_bind, Nat.sub_self, keep_zero]
  rw [if_neg (by omega)]

/-- The way out: every relay takes a layer off, the last one is left. -/
theorem Onion.goes_out (hA : A.Lawful key)
    (hfit : m.length + 28 + (28 + 0) * L + sizeofWord ≤ maxMtu)
    (nonces : Nat → Nonce) (shared : Nat → Scratch)
    (ho : Onion A key (fun _ h => h = []) L m i x) :
    ∃ frames : Nat → List UInt8, frames i = frameOf x ∧
      (∀ j, i ≤ j → j < L → ∃ mem',
        recvCryptoSend A key false (nonces j) ⟨(shared j).val, 0⟩ [frames j] =
          .ok (some (frames (j + 1)), ⟨mem', 0⟩, [])) ∧
      ∃ nonce, frames L = frameOf (A.seal key nonce m) := by
  have hc : ∀ (j : Nat) (h : List UInt8), h = [] → h.length = 0 :=
    fun _ _ h => congrArg List.length h
  induction ho with
  | core nonce =>
      exact ⟨fun _ => frameOf (A.seal key nonce m), rfl,
        fun j hj hlt => absurd hlt (Nat.not_lt.mpr hj), nonce, rfl⟩
  | @layer i h x nonce hh hinner ih =>
      obtain ⟨frames, hfirst, hhops, hlast⟩ := ih
      have hi := hinner.le
      have hfits := (Onion.layer nonce hh hinner).fits hA hc hfit
      subst hh
      rw [List.nil_append] at hfits ⊢
      refine ⟨Function.update frames i (frameOf (A.seal key nonce x)),
        Function.update_self .., ?_, ?_⟩
      · intro j hij hj
        rw [Function.update_of_ne (show j + 1 ≠ i by omega)]
        rcases Nat.lt_or_eq_of_le hij with hlt | rfl
        · rw [Function.update_of_ne (by omega)]
          exact hhops j hlt hj
        · rw [Function.update_self, hfirst]
          exact recvCryptoSend_decrypt hA _ nonce _ hfits
      · rw [Function.update_of_ne (by omega)]
        exact hlast

/-- The texts on the way back, after each relay. -/
def wrapped (A : Aead) (key : List UInt8) (nonces : Nat → Nonce)
    (x : List UInt8) : Nat → List UInt8
  | 0 => x
  | j + 1 => A.seal key (nonces j) (wrapped A key nonces x j)

theorem wrapped_onion (A : Aead) (key : List UInt8) (L : Nat) (m : List UInt8)
    (nonces : Nat → Nonce) (nonce : Nonce) :
    ∀ j ≤ L, Onion A key (fun _ h => h = []) L m (L - j)
      (wrapped A key nonces (A.seal key nonce m) j) := by
  intro j
  induction j with
  | zero => exact fun _ => .core nonce
  | succ j ih =>
      intro hj
      have h := ih (by omega)
      rw [show L - j = L - (j + 1) + 1 by omega] at h
      exact .layer (h := []) (nonces j) rfl h

/-- Data through a circuit, in both directions. What the sender's `send` puts on
the wire passes the relays, each taking a layer off, and is read back by the
destination with its exact length; what the destination sends passes the
relays, each putting a layer on, and is read back by the sender. -/
theorem onion_round_trip {t d : TorSocket} (hA : A.Lawful t.rawKey)
    (ht : t.isSender = true) (hd : d.isSender = false)
    (hkey : d.rawKey = t.rawKey) (payload : List UInt8)
    (hfit : payload.length + 28 * (t.numLayers + 1) + sizeofWord ≤ maxMtu)
    (nonces relayNonces : Nat → Nonce) (buffer buff buffer' buf : Scratch)
    (shared : Nat → Scratch) (shared' : Scratch) :
    (∃ frames : Nat → List UInt8,
      t.send A nonces buffer.val (buff.val.drop sizeofWord) payload
          payload.length = .ok (frames 0) ∧
      (∀ i < t.numLayers, ∃ mem',
        recvCryptoSend A t.rawKey false (relayNonces i) ⟨(shared i).val, 0⟩
          [frames i] = .ok (some (frames (i + 1)), ⟨mem', 0⟩, [])) ∧
      ∃ buf' mem', d.recv A buffer'.val buf.val ⟨shared'.val, 0⟩
          [frames t.numLayers] =
          .ok (some payload.length, buf', ⟨mem', 0⟩, []) ∧
        slice buf' 0 payload.length = some payload) ∧
    ∃ frames : Nat → List UInt8,
      d.send A nonces buffer.val (buff.val.drop sizeofWord) payload
          payload.length = .ok (frames 0) ∧
      (∀ i < t.numLayers, ∃ mem',
        recvCryptoSend A t.rawKey true (relayNonces i) ⟨(shared i).val, 0⟩
          [frames i] = .ok (some (frames (i + 1)), ⟨mem', 0⟩, [])) ∧
      ∃ buf' mem', t.recv A buffer'.val buf.val ⟨shared'.val, 0⟩
          [frames t.numLayers] =
          .ok (some payload.length, buf', ⟨mem', 0⟩, []) ∧
        slice buf' 0 payload.length = some payload := by
  have hne : ((payload.length : Int) == -1) = false :=
    beq_false_of_ne (by omega)
  have hfit' : payload.length + 28 + (28 + 0) * t.numLayers + sizeofWord ≤ maxMtu := by
    omega
  have hc : ∀ (j : Nat) (h : List UInt8), h = [] → h.length = 0 :=
    fun _ _ h => congrArg List.length h
  refine ⟨?_, ?_⟩
  · obtain ⟨x, hsend, ho⟩ := send_onion nonces hA buffer buff payload
      payload.length false _ (by rw [hne, Bool.and_false])
      (if_pos ht).symm (by rw [if_neg Bool.false_ne_true]; rfl) slice_all hfit'
    obtain ⟨frames, hfirst, hhops, nonce, hlast⟩ := Onion.goes_out hA hfit'
      relayNonces shared ho
    refine ⟨frames, by rw [hsend, hfirst], fun i hi => hhops i (Nat.zero_le i) hi, ?_⟩
    have hfits := (@Onion.core A _ (fun _ h => h = []) t.numLayers payload nonce).fits hA hc hfit'
    rw [hlast]
    rw [← hkey] at hA hfits ⊢
    exact recv_one_layer hA hd nonce _ _ _ hfits
  · obtain ⟨x, hsend, ho⟩ := send_onion (t := d) nonces
      (hkey ▸ hA) buffer buff payload payload.length false 0 (by rw [hne, Bool.and_false])
      (by rw [hd, if_neg Bool.false_ne_true])
      (by rw [if_neg Bool.false_ne_true]; rfl) slice_all
      (by rw [Nat.mul_zero]; omega)
    obtain ⟨nonce, rfl⟩ := ho.single
    rw [hkey] at hsend
    -- The text after the `j`-th relay is an onion of `j` relays.
    have honion := fun j hj => wrapped_onion A t.rawKey t.numLayers
      payload relayNonces nonce j hj
    refine ⟨fun j => frameOf (wrapped A t.rawKey relayNonces
      (A.seal t.rawKey nonce payload) j), hsend, ?_, ?_⟩
    · intro j hj
      exact recvCryptoSend_encrypt hA (relayNonces j) _
        ((honion (j + 1) hj).fits hA hc hfit')
    · have hlast := honion t.numLayers (Nat.le_refl _)
      rw [Nat.sub_self] at hlast
      have hfits := hlast.fits hA hc hfit'
      obtain ⟨body, mem', hbody, hrecv⟩ := recvDecryptOnion_whole A
        t.rawKey t.numLayers buffer' shared' buf.val hfits
      rw [frameOf_length] at hfits
      obtain ⟨buf', hrun, hin⟩ := decryptLayers_onion buf.val hA hlast
        (by rw [buf.property]; omega) hbody
      refine ⟨buf', mem', ?_, hin⟩
      rw [Nat.sub_zero] at hrun
      rw [TorSocket.recv, ht, if_pos rfl, hrecv, hrun]
      rfl

end

/-- A circuit of one relay to a destination. -/
def oneRelay : TorSocket where
  isSender := true
  numLayers := 1
  relays := fun i => ⟨8000 + i, 0x100007f⟩
  rawKey := [1]

/-- An array of zeros. -/
def zeros : Scratch := ⟨List.replicate maxMtu 0, List.length_replicate⟩

/-- An array that starts with `is_dest = 1`. -/
def arrived : Scratch :=
  ⟨1 :: List.replicate (maxMtu - 1) 0, by
    rw [List.length_cons, List.length_replicate]
    exact Nat.sub_add_cancel (by decide)⟩

theorem circuit_visits_one :
    ∃ frames : Nat → List UInt8,
      oneRelay.send taggedAead (fun _ => zeroNonce) zeros.val
          (zeros.val.drop sizeofWord) arrived.val (-1) = .ok (frames 0) ∧
      acceptOne taggedAead oneRelay zeros.val zeros.val ⟨zeros.val, 0⟩ [frames 0] =
        .ok (.forward 0x100007f 8001 (frames 1)) ∧
      acceptOne taggedAead oneRelay zeros.val zeros.val ⟨zeros.val, 0⟩ [frames 1] =
        .ok .dest := by
  have hports : ∀ j ≤ oneRelay.numLayers,
      0 ≤ (oneRelay.relays j).port ∧ (oneRelay.relays j).port < 65536 := by
    intro j hj
    have hj : j ≤ 1 := hj
    show 0 ≤ (8000 + (j : Int)) ∧ (8000 + (j : Int)) < 65536
    omega
  obtain ⟨frames, hsend, hhops, hlast⟩ := circuit_visits_relays
    (taggedAead_lawful _) rfl hports (by decide) (fun _ => oneRelay) (fun _ => rfl)
    (fun _ => zeroNonce) zeros zeros arrived rfl (fun _ => zeros)
    (fun _ => zeros) (fun _ => zeros)
  exact ⟨frames, hsend, hhops 0 (by decide), hlast⟩

theorem onion_round_trip_one :
    ∃ frames : Nat → List UInt8,
      oneRelay.send taggedAead (fun _ => zeroNonce) zeros.val
          (zeros.val.drop sizeofWord) [7, 8] 2 = .ok (frames 0) ∧
      (∃ mem', recvCryptoSend taggedAead [1] false zeroNonce ⟨zeros.val, 0⟩
        [frames 0] = .ok (some (frames 1), ⟨mem', 0⟩, [])) ∧
      ∃ buf' mem', TorSocket.recv taggedAead { oneRelay with isSender := false }
          zeros.val zeros.val ⟨zeros.val, 0⟩ [frames 1] =
          .ok (some 2, buf', ⟨mem', 0⟩, []) ∧
        slice buf' 0 2 = some [7, 8] := by
  obtain ⟨⟨frames, hsend, hhops, hlast⟩, _⟩ := onion_round_trip (t := oneRelay)
    (d := { oneRelay with isSender := false }) (taggedAead_lawful _) rfl rfl rfl
    [7, 8] (by decide) (fun _ => zeroNonce) (fun _ => zeroNonce) zeros zeros zeros
    zeros (fun _ => zeros) zeros
  exact ⟨frames, hsend, hhops 0 (by decide), hlast⟩

end Daenet.Proofs
