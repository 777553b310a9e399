import Daenet.Ref.Frame

/-!
# The TCP socket

`TcpSocket`: a frame per message, its body the nonce and the ciphertext. The
receiver's buffer holds two frames; what a read has brought in beyond the frame
it returns is moved to the front and kept for the next call.
-/

namespace Daenet.Ref

open Daenet.Lib

/-- `TcpSocket`, the receiver's side. -/
structure TcpSocket where
  sharedBuffer : List UInt8
  usedBufferSize : Nat

/-- What `recv` answers: the bytes it wrote to the caller's buffer, or `-1`. -/
inductive Received where
  | data (bytes : List UInt8)
  | failed
  deriving DecidableEq, Repr

namespace TcpSocket

/-- `send`: what it puts on the wire, as far as it fits `full_buf`. -/
def send (A : Aead) (key : List UInt8) (nonce : Nonce) (buf : List UInt8) :
    Option (List UInt8) :=
  let frame := frameOf (A.seal key nonce buf)
  if frame.length ≤ maxMtu then some frame else none

/-- `recv` into a buffer of `size` bytes. `total_size` is an `int`, but it is
compared with and subtracted from as an `unsigned int`. -/
def recv (A : Aead) (key : List UInt8) (s : TcpSocket) (size : Nat)
    (chunks : List (List UInt8)) :
    Except Stop (Received × TcpSocket × List (List UInt8)) :=
  let expected :=
    if s.usedBufferSize = 0 then size else lengthWord s.sharedBuffer
  match readFrame chunks s.sharedBuffer s.usedBufferSize expected with
  | .error stop => .error stop
  | .ok (.reset mem rest) => .ok (.failed, { s with sharedBuffer := mem }, rest)
  | .ok (.frame mem total expected rest) =>
      let used := total - expected
      if bodySize expected < npubBytes + aBytes then
        .ok (.failed, ⟨mem, used⟩, rest)
      else match slice mem sizeofWord (bodySize expected) with
        | none => .error .fault
        | some body =>
            match A.unseal key body with
            | none => .ok (.failed, ⟨mem, used⟩, rest)
            | some m =>
                if size < m.length then .error .fault
                else match keep mem expected used with
                  | none => .error .fault
                  | some mem' => .ok (.data m, ⟨mem', used⟩, rest)

/-- `n` calls of `recv(buf, MAX_MTU)`, one after the other. -/
def recvAll (A : Aead) (key : List UInt8) :
    Nat → TcpSocket → List (List UInt8) → Except Stop (List Received)
  | 0, _, _ => .ok []
  | n + 1, s, chunks =>
      match s.recv A key maxMtu chunks with
      | .error stop => .error stop
      | .ok (r, s', rest) => (recvAll A key n s' rest).map (r :: ·)

end TcpSocket

end Daenet.Ref
