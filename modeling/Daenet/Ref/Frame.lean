import Daenet.Lib.Bytes
import Daenet.Ref.Packet

/-!
# Frames over a byte stream

What the TCP and the onion sockets share: a frame is a length word, which
counts itself, and a body; and a reader collects a frame in a buffer it keeps
from call to call.

The stream arrives in chunks, one for each return of `recv`, and the chunks are
an input: every theorem quantifies over how the stream is cut. A chunk longer
than what was asked for is not something the network can return, and the reader
says so instead of going on; `Stop.fault` is an access outside a buffer or a
`memcpy` between ranges that overlap, neither of which the source checks for.

AES-GCM is a parameter.
-/

namespace Daenet.Ref

open Daenet.Lib

/-- `crypto_aead_aes256gcm_NPUBBYTES`. -/
def npubBytes : Nat := 12

/-- `crypto_aead_aes256gcm_ABYTES`. -/
def aBytes : Nat := 16

/-- `sizeof(uint32_t)`. -/
def sizeofWord : Nat := 4

/-- What `randombytes_buf` fills a nonce with. -/
abbrev Nonce := { bytes : List UInt8 // bytes.length = npubBytes }

/-- `crypto_aead_aes256gcm_encrypt` and `_decrypt`, without additional data:
key, nonce, text. -/
structure Aead where
  encrypt : List UInt8 → List UInt8 → List UInt8 → List UInt8
  decrypt : List UInt8 → List UInt8 → List UInt8 → Option (List UInt8)

/-- What the sockets rely on: the tag adds `ABYTES`, and decryption undoes
encryption under the same key. -/
structure Aead.Lawful (A : Aead) (key : List UInt8) : Prop where
  length : ∀ nonce m, (A.encrypt key nonce m).length = m.length + aBytes
  decrypt_encrypt : ∀ nonce m,
    A.decrypt key nonce (A.encrypt key nonce m) = some m

/-- Why a call did not come to its end. -/
inductive Stop where
  | fault
  | tooLong
  deriving DecidableEq, Repr

/-- How a frame reader's loop ends: a frame of `expected` bytes at the front of
`total` bytes, or the connection was reset. -/
inductive Read where
  | frame (mem : List UInt8) (total expected : Nat) (rest : List (List UInt8))
  | reset (mem : List UInt8) (rest : List (List UInt8))

/-- `*(uint32_t*)shared_buffer`. -/
def lengthWord (mem : List UInt8) : Nat := leNat (mem.take sizeofWord)

/-- The loop of `TcpSocket::recv` and of `recv_with_header_size`: read until
`expected` bytes are there, and take the length word afresh after every chunk,
however much of it has arrived. -/
def readFrame : List (List UInt8) → List UInt8 → Nat → Nat → Except Stop Read
  | [], mem, total, expected =>
      if total < expected then .ok (.reset mem [])
      else .ok (.frame mem total expected [])
  | chunk :: rest, mem, total, expected =>
      if total < expected then
        if expected < chunk.length then .error .tooLong
        else if chunk = [] then .ok (.reset mem rest)
        else match blit mem total chunk with
          | none => .error .fault
          | some mem' =>
              readFrame rest mem' (total + chunk.length) (lengthWord mem')
      else .ok (.frame mem total expected (chunk :: rest))

/-- The size of the body as the callers compute it, an `unsigned int`: for an
`expected` below four it wraps around. -/
def bodySize (expected : Nat) : Nat := (expected + 2 ^ 32 - sizeofWord) % 2 ^ 32

/-- `memcpy(shared_buffer, shared_buffer + expected, used)`: what was read beyond
the frame moves to the front. The two ranges may not overlap. -/
def keep (mem : List UInt8) (expected used : Nat) : Option (List UInt8) :=
  if used = 0 then some mem
  else if expected < used then none
  else (slice mem expected used).bind fun bytes => blit mem 0 bytes

/-- The same copy as it is meant: the bytes move to the front, however many they
are. -/
def shift (mem : List UInt8) (expected used : Nat) : Option (List UInt8) :=
  if used = 0 then some mem
  else (slice mem expected used).bind fun bytes => blit mem 0 bytes

/-- A frame around a body. -/
def frameOf (body : List UInt8) : List UInt8 :=
  leBytes sizeofWord (body.length + sizeofWord) ++ body

/-- A text encrypted under a nonce, with the nonce before it. -/
def Aead.seal (A : Aead) (key : List UInt8) (nonce : Nonce) (m : List UInt8) :
    List UInt8 :=
  nonce.val ++ A.encrypt key nonce.val m

/-- Undoing it, for a body of at least a nonce and a tag. -/
def Aead.unseal (A : Aead) (key body : List UInt8) : Option (List UInt8) :=
  A.decrypt key (body.take npubBytes) (body.drop npubBytes)

end Daenet.Ref
