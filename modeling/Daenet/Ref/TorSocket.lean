import Daenet.Ref.Frame

/-!
# The onion socket

`TorSocket.cpp`: a client builds a circuit by sending one message wrapped in a
layer for every relay, each layer with the address of the next hop; every node
takes one layer off in its accept loop and passes the rest on, until the
message says that it has arrived. After that data is wrapped the same way
without the addresses, and relays take layers off on the way out and put them
on on the way back.

The functions work on local arrays of `MAX_MTU` bytes whose contents are left
over from whatever used the stack before; these contents are arguments here.
All nodes use one key.
-/

namespace Daenet.Ref

open Daenet.Lib

/-- An access that is a fault outside its buffer. -/
def checked {α : Type} : Option α → Except Stop α
  | none => .error .fault
  | some a => .ok a

/-- `tor_peer_t`, what the circuits use of it. -/
structure TorPeer where
  port : Int
  ipRaw : UInt32
  deriving DecidableEq, Repr

/-- `sizeof(tor_message_t)`: a byte, a gap of three, an `in_addr_t`, a
`uint16_t` and a gap of two. -/
def sizeofTorMessage : Nat := 12

/-- `tor_message_t` as it is read from memory. -/
structure TorMessage where
  isDest : Nat
  ip : Nat
  port : Nat
  deriving DecidableEq, Repr

namespace TorMessage

/-- Assigning the three fields at the front of a buffer; the gaps keep what they
held. -/
def store (mem : List UInt8) (isDest : UInt8) (peer : TorPeer) :
    Except Stop (List UInt8) := do
  let mem ← checked (blit mem 0 [isDest])
  let mem ← checked (blit mem 4 (leBytes 4 peer.ipRaw.toNat))
  checked (blit mem 8 (leBytes 2 (peer.port % 2 ^ 16).toNat))

/-- Reading them back. -/
def load (mem : List UInt8) : Except Stop TorMessage := do
  let isDest ← checked (slice mem 0 1)
  let ip ← checked (slice mem 4 4)
  let port ← checked (slice mem 8 2)
  .ok ⟨leNat isDest, leNat ip, leNat port⟩

end TorMessage

/-- A `shared_buffer` and how much of it is in use. -/
structure SharedBuffer where
  bytes : List UInt8
  used : Nat

/-- `recv_with_header_size`. -/
def recvWithHeaderSize (s : SharedBuffer) (size : Nat)
    (chunks : List (List UInt8)) : Except Stop Read :=
  readFrame chunks s.bytes s.used
    (if s.used = 0 then size else lengthWord s.bytes)

/-- `recv_crypto_send`, with what `memcpy` does to the left-over: what it sends
on, if it does not answer `-1`. -/
def recvCryptoSendWith (copy : List UInt8 → Nat → Nat → Option (List UInt8))
    (A : Aead) (key : List UInt8) (encrypt : Bool)
    (nonce : Nonce) (s : SharedBuffer) (chunks : List (List UInt8)) :
    Except Stop (Option (List UInt8) × SharedBuffer × List (List UInt8)) := do
  match ← recvWithHeaderSize s maxMtu chunks with
  | .reset mem rest => .ok (none, { s with bytes := mem }, rest)
  | .frame mem total expected rest =>
      let totalSize := bodySize expected
      let sharedSize := total - expected
      if encrypt then
        let body ← checked (slice mem sizeofWord totalSize)
        let out := A.seal key nonce body
        if maxMtu < sizeofWord + out.length then .error .fault
        else
          let mem' ← checked (copy mem (totalSize + sizeofWord) sharedSize)
          .ok (some (frameOf out), ⟨mem', sharedSize⟩, rest)
      else if totalSize < npubBytes + aBytes then
        .ok (none, ⟨mem, sharedSize⟩, rest)
      else
        let body ← checked (slice mem sizeofWord totalSize)
        match A.unseal key body with
        | none => .ok (none, ⟨mem, sharedSize⟩, rest)
        | some out =>
            if maxMtu < sizeofWord + out.length then .error .fault
            else
              let mem' ← checked (copy mem (totalSize + sizeofWord) sharedSize)
              .ok (some (frameOf out), ⟨mem', sharedSize⟩, rest)

/-- `recv_crypto_send`, where `memcpy` between overlapping ranges is undefined. -/
def recvCryptoSend (A : Aead) (key : List UInt8) (encrypt : Bool)
    (nonce : Nonce) (s : SharedBuffer) (chunks : List (List UInt8)) :
    Except Stop (Option (List UInt8) × SharedBuffer × List (List UInt8)) :=
  recvCryptoSendWith keep A key encrypt nonce s chunks

/-- The loop of `recv_decrypt_onion`: `k` layers off the first `size` bytes of
`buffer`, each result going through `buf` and back. -/
def decryptLayers (A : Aead) (key : List UInt8) :
    Nat → List UInt8 → List UInt8 → Nat →
      Except Stop (Option Nat × List UInt8)
  | 0, _, buf, size => .ok (some size, buf)
  | k + 1, buffer, buf, size =>
      if size < npubBytes + aBytes then .ok (none, buf)
      else do
        let body ← checked (slice buffer 0 size)
        match A.unseal key body with
        | none => .ok (none, buf)
        | some m =>
            let buf' ← checked (blit buf 0 m)
            let buffer' ← checked (blit buffer 0 m)
            decryptLayers A key k buffer' buf' m.length

/-- `recv_decrypt_onion`, with what `memcpy` does to the left-over: the number it
answers, `-1` being `none`, and what is in the caller's `buf` then. -/
def recvDecryptOnionWith (copy : List UInt8 → Nat → Nat → Option (List UInt8))
    (A : Aead) (key : List UInt8) (layer : Nat)
    (buffer buf : List UInt8) (s : SharedBuffer) (chunks : List (List UInt8)) :
    Except Stop (Option Nat × List UInt8 × SharedBuffer × List (List UInt8)) := do
  match ← recvWithHeaderSize s maxMtu chunks with
  | .reset mem rest => .ok (none, buf, { s with bytes := mem }, rest)
  | .frame mem total expected rest =>
      let size := bodySize expected
      let sharedSize := total - expected
      let body ← checked (slice mem sizeofWord size)
      let buffer ← checked (blit buffer 0 body)
      let mem' ← checked (copy mem (size + sizeofWord) sharedSize)
      let (answer, buf') ← decryptLayers A key (layer + 1) buffer buf size
      .ok (answer, buf', ⟨mem', sharedSize⟩, rest)

/-- `recv_decrypt_onion`, where `memcpy` between overlapping ranges is
undefined. -/
def recvDecryptOnion (A : Aead) (key : List UInt8) (layer : Nat)
    (buffer buf : List UInt8) (s : SharedBuffer) (chunks : List (List UInt8)) :
    Except Stop (Option Nat × List UInt8 × SharedBuffer × List (List UInt8)) :=
  recvDecryptOnionWith keep A key layer buffer buf s chunks

/-- `TorSocket`, what `send` and `recv` use of it and of its relay's metadata. -/
structure TorSocket where
  isSender : Bool
  numLayers : Nat
  relays : Nat → TorPeer
  rawKey : List UInt8

namespace TorSocket

/-- The header of a layer, when the layers have one: the next hop is `i`. -/
def putHeader (t : TorSocket) (header : Bool) (i : Nat) (buffer : List UInt8) :
    Except Stop (List UInt8) :=
  if header then TorMessage.store buffer 0 (t.relays i) else .ok buffer

/-- The loop of `generate_circuits`, for the layers below `i`: `buf` and
`buffer` change places in every turn. -/
def onionLayers (A : Aead) (t : TorSocket) (header : Bool)
    (nonces : Nat → Nonce) :
    Nat → List UInt8 → List UInt8 → Nat → Except Stop (List UInt8 × Nat)
  | 0, buf, _, len => .ok (buf, len)
  | i + 1, buf, buffer, len => do
      let offset := if header then sizeofTorMessage else 0
      let text ← checked (slice buf 0 len)
      let buffer ← checked (blit buffer offset text)
      let buffer ← t.putHeader header (i + 1) buffer
      let plain ← checked (slice buffer 0 (len + offset))
      let cipher := A.encrypt t.rawKey (nonces i).val plain
      let buf ← checked (blit buf 0 (nonces i).val)
      let buf ← checked (blit buf npubBytes cipher)
      onionLayers A t header nonces i buf buffer (cipher.length + npubBytes)

/-- `generate_circuits`: the layer for the destination and those for the
relays, over the first `size` bytes of `buf`. -/
def generateCircuits (A : Aead) (t : TorSocket) (header : Bool) (layer : Nat)
    (nonces : Nat → Nonce) (buffer buf : List UInt8) (size : Nat) :
    Except Stop (List UInt8 × Nat) := do
  let plain ← checked (slice buf 0 size)
  let cipher := A.encrypt t.rawKey (nonces layer).val plain
  let buffer ← checked (blit buffer 0 (nonces layer).val)
  let buffer ← checked (blit buffer npubBytes cipher)
  let len := cipher.length + npubBytes
  let text ← checked (slice buffer 0 len)
  let buf ← checked (blit buf 0 text)
  onionLayers A t header nonces layer buf buffer len

/-- `send`: what goes on the wire. A sender's `size` of `-1` asks for a
circuit. `buf` is `buff` without the length word. -/
def send (A : Aead) (t : TorSocket) (nonces : Nat → Nonce)
    (buffer buf fromBuf : List UInt8) (size : Int) :
    Except Stop (List UInt8) := do
  let header := t.isSender && size == -1
  let size := if header then sizeofTorMessage else size.toNat
  let text ← checked (slice fromBuf 0 size)
  let buf ← checked (blit buf 0 text)
  let (buf, size) ← generateCircuits A t header
    (if t.isSender then t.numLayers else 0) nonces buffer buf size
  let body ← checked (slice buf 0 size)
  .ok (frameOf body)

/-- `recv`. -/
def recv (A : Aead) (t : TorSocket) (buffer buf : List UInt8)
    (s : SharedBuffer) (chunks : List (List UInt8)) :
    Except Stop (Option Nat × List UInt8 × SharedBuffer × List (List UInt8)) :=
  recvDecryptOnion A t.rawKey (if t.isSender then t.numLayers else 0) buffer buf
    s chunks

end TorSocket

/-- What the accept loop does with a connection: it is for this node, or it
connects to the next hop and sends the rest there. -/
inductive Accepted where
  | dest
  | forward (ip port : Nat) (sent : List UInt8)
  deriving DecidableEq, Repr

/-- One turn of the loop of `AnonymousRelay::accept`, on a socket that is no
sender; the size, `-1` included, is turned into a `uint32_t`. -/
def acceptOne (A : Aead) (t : TorSocket) (buffer buf : List UInt8)
    (s : SharedBuffer) (chunks : List (List UInt8)) : Except Stop Accepted := do
  let (size, buf, _, _) ←
    TorSocket.recv A { t with isSender := false } buffer buf s chunks
  let msg ← TorMessage.load buf
  if msg.isDest = 1 then .ok .dest
  else
    let size : Int := match size with
      | some l => l
      | none => -1
    let rest := ((size - sizeofTorMessage) % 2 ^ 32).toNat
    let body ← checked (slice buf sizeofTorMessage rest)
    .ok (.forward msg.ip msg.port (frameOf body))

end Daenet.Ref
