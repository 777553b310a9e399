import Daenet.Lib.Absorb
import Daenet.Lib.Bytes

/-!
# The hash of a file

`md5.h`: a message is added in pieces of any length, whole blocks of 64 bytes are worked
into the state at once, and the rest waits in a buffer of 128 bytes. `finalize` pads
what waits there. The buffer is the list of the bytes filled in; `none` is a write
behind its end.
-/

namespace Daenet.Ref

open Daenet.Lib

/-- `m_state`. -/
structure MD5State where
  a : UInt32
  b : UInt32
  c : UInt32
  d : UInt32
  deriving DecidableEq, Repr

/-- `MD5`. -/
structure MD5 where
  buffer : List UInt8
  sizeCounter : UInt64
  state : MD5State

namespace MD5

/-- `BLOCK_SIZE`. -/
abbrev blockSize : Nat := 64

/-- `reset`. -/
def new : MD5 where
  buffer := []
  sizeCounter := 0
  state := ⟨0x67452301, 0xefcdab89, 0x98badcfe, 0x10325476⟩

/-! ## One block -/

def f (x y z : UInt32) : UInt32 := (x &&& (y ^^^ z)) ^^^ z
def g (x y z : UInt32) : UInt32 := y ^^^ ((x ^^^ y) &&& z)
def h (x y z : UInt32) : UInt32 := x ^^^ y ^^^ z
def ii (x y z : UInt32) : UInt32 := y ^^^ (x ||| ~~~z)

def rotl (x s : UInt32) : UInt32 := if s = 0 then x else (x <<< s) ||| (x >>> (32 - s))

/-- `Loader`. -/
def load (block : List UInt8) (idx : Nat) : UInt32 :=
  let byte (i : Nat) : UInt32 := (block.getD (4 * idx + i) 0).toUInt32
  (byte 0 <<< 0) ||| (byte 1 <<< 8) ||| (byte 2 <<< 16) ||| (byte 3 <<< 24)

/-- The last three arguments of the calls of `round`, in order: `k`, `s` and `t`. -/
def roundsF : List (Nat × UInt32 × UInt32) :=
  [(0, 7, 0xd76aa478), (1, 12, 0xe8c7b756), (2, 17, 0x242070db), (3, 22, 0xc1bdceee),
    (4, 7, 0xf57c0faf), (5, 12, 0x4787c62a), (6, 17, 0xa8304613), (7, 22, 0xfd469501),
    (8, 7, 0x698098d8), (9, 12, 0x8b44f7af), (10, 17, 0xffff5bb1), (11, 22, 0x895cd7be),
    (12, 7, 0x6b901122), (13, 12, 0xfd987193), (14, 17, 0xa679438e), (15, 22, 0x49b40821)]

def roundsG : List (Nat × UInt32 × UInt32) :=
  [(1, 5, 0xf61e2562), (6, 9, 0xc040b340), (11, 14, 0x265e5a51), (0, 20, 0xe9b6c7aa),
    (5, 5, 0xd62f105d), (10, 9, 0x02441453), (15, 14, 0xd8a1e681), (4, 20, 0xe7d3fbc8),
    (9, 5, 0x21e1cde6), (14, 9, 0xc33707d6), (3, 14, 0xf4d50d87), (8, 20, 0x455a14ed),
    (13, 5, 0xa9e3e905), (2, 9, 0xfcefa3f8), (7, 14, 0x676f02d9), (12, 20, 0x8d2a4c8a)]

def roundsH : List (Nat × UInt32 × UInt32) :=
  [(5, 4, 0xfffa3942), (8, 11, 0x8771f681), (11, 16, 0x6d9d6122), (14, 23, 0xfde5380c),
    (1, 4, 0xa4beea44), (4, 11, 0x4bdecfa9), (7, 16, 0xf6bb4b60), (10, 23, 0xbebfbc70),
    (13, 4, 0x289b7ec6), (0, 11, 0xeaa127fa), (3, 16, 0xd4ef3085), (6, 23, 0x04881d05),
    (9, 4, 0xd9d4d039), (12, 11, 0xe6db99e5), (15, 16, 0x1fa27cf8), (2, 23, 0xc4ac5665)]

def roundsI : List (Nat × UInt32 × UInt32) :=
  [(0, 6, 0xf4292244), (7, 10, 0x432aff97), (14, 15, 0xab9423a7), (5, 21, 0xfc93a039),
    (12, 6, 0x655b59c3), (3, 10, 0x8f0ccc92), (10, 15, 0xffeff47d), (1, 21, 0x85845dd1),
    (8, 6, 0x6fa87e4f), (15, 10, 0xfe2ce6e0), (6, 15, 0xa3014314), (13, 21, 0x4e0811a1),
    (4, 6, 0xf7537e82), (11, 10, 0xbd3af235), (2, 15, 0x2ad7d2bb), (9, 21, 0xeb86d391)]

/-- A call of `round`. The next one names the registers in turn: what was `d` is `a`. -/
def round (x : Nat → UInt32) (func : UInt32 → UInt32 → UInt32 → UInt32) (r : MD5State) :
    Nat × UInt32 × UInt32 → MD5State
  | (k, s, t) => ⟨r.d, r.b + rotl (r.a + func r.b r.c r.d + x k + t) s, r.b, r.c⟩

/-- One turn of the loop of `addDataImpl`. -/
def compress (state : MD5State) (block : List UInt8) : MD5State :=
  let x := load block
  let r := roundsF.foldl (round x f) state
  let r := roundsG.foldl (round x g) r
  let r := roundsH.foldl (round x h) r
  let r := roundsI.foldl (round x ii) r
  ⟨state.a + r.a, state.b + r.b, state.c + r.c, state.d + r.d⟩

/-! ## Messages -/

/-- `addDataImpl`. -/
def addDataImpl (md5 : MD5) (data : List UInt8) : MD5 :=
  { md5 with
    sizeCounter := md5.sizeCounter + .ofNat data.length
    state := blocks blockSize compress (data.length / blockSize) md5.state data }

/-- `Buffer::push_back`, and `fill` with what it is filled with. -/
def pushBack (buffer data : List UInt8) : Option (List UInt8) :=
  if buffer.length + data.length ≤ blockSize * 2 then some (buffer ++ data) else none

/-- The part of `addData` behind the buffer, which is empty. -/
def addBlocks (md5 : MD5) (data : List UInt8) : Option MD5 :=
  let dataSize := data.length
  if dataSize < blockSize then
    (pushBack [] data).map fun buffer => { md5 with buffer := buffer }
  else
    let len := dataSize - dataSize % blockSize
    let md5 := md5.addDataImpl (data.take len)
    if len < dataSize then
      (pushBack [] (data.drop len)).map fun buffer => { md5 with buffer := buffer }
    else some md5

/-- `addData`. What is free of the buffer is a signed number, and the minimum one of
`size_t`. -/
def addData (md5 : MD5) (data : List UInt8) : Option MD5 :=
  if md5.buffer = [] then md5.addBlocks data
  else do
    let free := ((blockSize - md5.buffer.length : Int) % 2 ^ 64).toNat
    let len := min free data.length
    let buffer ← pushBack md5.buffer (data.take len)
    if buffer.length < blockSize then return { md5 with buffer := buffer }
    let md5 := md5.addDataImpl buffer
    { md5 with buffer := [] }.addBlocks (data.drop len)

/-- The two bytes that a turn of the loop of `finalize` stores. -/
def storeSize (low high : UInt32) (buffer : List UInt8) (i : Nat) : List UInt8 :=
  let shift := UInt32.ofNat (8 * i)
  (buffer.set (buffer.length - 8 + i) (low >>> shift).toUInt8).set
    (buffer.length - 4 + i) (high >>> shift).toUInt8

/-- `finalize`. -/
def finalize (md5 : MD5) : Option MD5 := do
  let sizeCounter := md5.sizeCounter + .ofNat md5.buffer.length
  let buffer ← pushBack md5.buffer [(1 : UInt8) <<< 7]
  let len := blockSize - (buffer.length + 8) % blockSize
  let buffer ← pushBack buffer (List.replicate (len + 8) 0)
  let sizeCounterBits := sizeCounter * 8
  let low := (sizeCounterBits >>> 0).toUInt32
  let high := (sizeCounterBits >>> 32).toUInt32
  let buffer := [0, 1, 2, 3].foldl (storeSize low high) buffer
  let md5 := { md5 with sizeCounter := sizeCounter }.addDataImpl buffer
  return { md5 with buffer := [] }

/-- `toArray`, and the memory at `raw_value()`. -/
def toArray (md5 : MD5) : List UInt8 :=
  [md5.state.a, md5.state.b, md5.state.c, md5.state.d].flatMap fun word => leBytes 4 word.toNat

end MD5

end Daenet.Ref
