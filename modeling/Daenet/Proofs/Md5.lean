import Mathlib.Data.Fin.VecNotation
import Daenet.Ref.Md5

/-!
# The hash is MD5, except for one length in 64

The standard, RFC 1321, hashes a message as a whole, padded to whole blocks. Its 64
operations write into the four registers by turns, with the function, the word, the
rotation and the constant given by the number of the operation. The code has other forms
of the functions, lists the arguments of each round and turns the registers instead
(`turned`). It takes the message in pieces and keeps the state and the residue
(`Absorbed`), so that the pieces do not matter.

It pads with the least number of zeros that makes the length come out, but at least
one. For a message of 55 bytes behind the last whole block no zero is needed, and there
are 64: the digest is that of a longer padding.
-/

namespace Daenet.Proofs

open Daenet.Lib Daenet.Ref

/-! ## The standard

Functions, table and registers as RFC 1321 has them in 3.3 and 3.4; nothing of the code
is used but the type of its state. -/

def stdF (x y z : UInt32) : UInt32 := (x &&& y) ||| (~~~x &&& z)

def stdG (x y z : UInt32) : UInt32 := (x &&& z) ||| (y &&& ~~~z)

def stdH (x y z : UInt32) : UInt32 := x ^^^ y ^^^ z

def stdI (x y z : UInt32) : UInt32 := y ^^^ (x ||| ~~~z)

/-- A word of a block, low byte first. -/
def stdLoad (block : List UInt8) (idx : Nat) : UInt32 :=
  .ofNat (leNat [block.getD (4 * idx) 0, block.getD (4 * idx + 1) 0,
    block.getD (4 * idx + 2) 0, block.getD (4 * idx + 3) 0])

/-- The table `T` of 3.4, with `T[1]` in front: the integer part of `4294967296` times
the sine of the index. -/
def stdT : List UInt32 :=
  [0xd76aa478, 0xe8c7b756, 0x242070db, 0xc1bdceee,
    0xf57c0faf, 0x4787c62a, 0xa8304613, 0xfd469501,
    0x698098d8, 0x8b44f7af, 0xffff5bb1, 0x895cd7be,
    0x6b901122, 0xfd987193, 0xa679438e, 0x49b40821,
    0xf61e2562, 0xc040b340, 0x265e5a51, 0xe9b6c7aa,
    0xd62f105d, 0x02441453, 0xd8a1e681, 0xe7d3fbc8,
    0x21e1cde6, 0xc33707d6, 0xf4d50d87, 0x455a14ed,
    0xa9e3e905, 0xfcefa3f8, 0x676f02d9, 0x8d2a4c8a,
    0xfffa3942, 0x8771f681, 0x6d9d6122, 0xfde5380c,
    0xa4beea44, 0x4bdecfa9, 0xf6bb4b60, 0xbebfbc70,
    0x289b7ec6, 0xeaa127fa, 0xd4ef3085, 0x04881d05,
    0xd9d4d039, 0xe6db99e5, 0x1fa27cf8, 0xc4ac5665,
    0xf4292244, 0x432aff97, 0xab9423a7, 0xfc93a039,
    0x655b59c3, 0x8f0ccc92, 0xffeff47d, 0x85845dd1,
    0x6fa87e4f, 0xfe2ce6e0, 0xa3014314, 0x4e0811a1,
    0xf7537e82, 0xbd3af235, 0x2ad7d2bb, 0xeb86d391]

/-- The function of the `i`-th operation: sixteen of them in each of the four rounds. -/
def stdFunc (i : Nat) : UInt32 → UInt32 → UInt32 → UInt32 :=
  match i / 16 with
  | 0 => stdF
  | 1 => stdG
  | 2 => stdH
  | _ => stdI

/-- The word of the block that the operation adds. -/
def stdIndex (i : Nat) : Nat :=
  match i / 16 with
  | 0 => i % 16
  | 1 => (5 * i + 1) % 16
  | 2 => (3 * i + 5) % 16
  | _ => 7 * i % 16

/-- How far it rotates. -/
def stdShift (i : Nat) : Nat :=
  match i / 16, i % 4 with
  | 0, 0 => 7 | 0, 1 => 12 | 0, 2 => 17 | 0, _ => 22
  | 1, 0 => 5 | 1, 1 => 9 | 1, 2 => 14 | 1, _ => 20
  | 2, 0 => 4 | 2, 1 => 11 | 2, 2 => 16 | 2, _ => 23
  | _, 0 => 6 | _, 1 => 10 | _, 2 => 15 | _, _ => 21

def stdRotate (x : UInt32) (s : Nat) : UInt32 := ⟨x.toBitVec.rotateLeft s⟩

/-- The `i`-th operation `[abcd k s i]` on the registers `A`, `B`, `C` and `D`. It is
`A` that the first one writes, then `D`, `C` and `B`. -/
def stdStep (x : Nat → UInt32) (r : Fin 4 → UInt32) (i : Nat) : Fin 4 → UInt32 :=
  let a := Fin.ofNat 4 (3 * i)
  Function.update r a (r (a + 1) + stdRotate
    (r a + stdFunc i (r (a + 1)) (r (a + 2)) (r (a + 3)) + x (stdIndex i) + stdT.getD i 0)
    (stdShift i))

def stdCompress (state : MD5State) (block : List UInt8) : MD5State :=
  let r := (List.range 64).foldl (stdStep (stdLoad block))
    ![state.a, state.b, state.c, state.d]
  ⟨state.a + r 0, state.b + r 1, state.c + r 2, state.d + r 3⟩

/-- The registers at the start, low byte first. -/
def stdInit : MD5State where
  a := .ofNat (leNat [0x01, 0x23, 0x45, 0x67])
  b := .ofNat (leNat [0x89, 0xab, 0xcd, 0xef])
  c := .ofNat (leNat [0xfe, 0xdc, 0xba, 0x98])
  d := .ofNat (leNat [0x76, 0x54, 0x32, 0x10])

/-- The padding of a message of `n` bytes, with `extra` zeros more than there have to
be. -/
def padding (extra n : Nat) : List UInt8 :=
  0x80 :: (List.replicate ((119 - n % 64) % 64 + extra) 0 ++ leBytes 8 (8 * n))

/-- The digest of a message, with `extra` zeros in the padding; none in the standard. -/
def digest (extra : Nat) (message : List UInt8) : List UInt8 :=
  let state := absorb 64 stdCompress stdInit (message ++ padding extra message.length)
  [state.a, state.b, state.c, state.d].flatMap fun word => leBytes 4 word.toNat

/-! ## One block -/

theorem f_eq (x y z : UInt32) : MD5.f x y z = stdF x y z := by
  rw [MD5.f, stdF, ← UInt32.toBitVec_inj]
  simp only [UInt32.toBitVec_xor, UInt32.toBitVec_and, UInt32.toBitVec_or, UInt32.toBitVec_not]
  ext i hi
  simp only [BitVec.getElem_xor, BitVec.getElem_and, BitVec.getElem_or, BitVec.getElem_not]
  cases x.toBitVec[i] <;> cases y.toBitVec[i] <;> cases z.toBitVec[i] <;> rfl

theorem g_eq (x y z : UInt32) : MD5.g x y z = stdG x y z := by
  rw [MD5.g, stdG, ← UInt32.toBitVec_inj]
  simp only [UInt32.toBitVec_xor, UInt32.toBitVec_and, UInt32.toBitVec_or, UInt32.toBitVec_not]
  ext i hi
  simp only [BitVec.getElem_xor, BitVec.getElem_and, BitVec.getElem_or, BitVec.getElem_not]
  cases x.toBitVec[i] <;> cases y.toBitVec[i] <;> cases z.toBitVec[i] <;> rfl

/-- A byte moved up, under a number that ends below it. -/
theorem or_shifted_byte {x : Nat} {k : Nat} (b : UInt8) (hx : x < 2 ^ k) :
    x ||| (b.toNat <<< k) = x + 2 ^ k * b.toNat := by
  rw [Nat.or_comm, ← Nat.shiftLeft_add_eq_or_of_lt hx, Nat.shiftLeft_eq, Nat.add_comm,
    Nat.mul_comm]

theorem toNat_shifted_byte (b : UInt8) {k : UInt32} (hk : k.toNat ≤ 24) :
    (b.toUInt32 <<< k).toNat = b.toNat <<< k.toNat := by
  have hb := b.toNat_lt
  have hpow : 2 ^ k.toNat ≤ 2 ^ 24 := Nat.pow_le_pow_right (by decide) hk
  have hle : b.toNat * 2 ^ k.toNat ≤ 255 * 2 ^ 24 := Nat.mul_le_mul (by omega) hpow
  rw [UInt32.toNat_shiftLeft, Nat.mod_eq_of_lt (by omega : k.toNat < 32), Nat.shiftLeft_eq,
    Nat.shiftLeft_eq]
  exact Nat.mod_eq_of_lt (Nat.lt_of_le_of_lt hle (by decide))

theorem load_eq (block : List UInt8) (idx : Nat) : MD5.load block idx = stdLoad block idx := by
  rw [MD5.load, stdLoad, ← UInt32.toNat_inj, UInt32.toNat_ofNat']
  dsimp only
  rw [Nat.add_zero]
  generalize block.getD (4 * idx) 0 = a
  generalize block.getD (4 * idx + 1) 0 = b
  generalize block.getD (4 * idx + 2) 0 = c
  generalize block.getD (4 * idx + 3) 0 = d
  have ha := a.toNat_lt
  have hb := b.toNat_lt
  have hc := c.toNat_lt
  have hd := d.toNat_lt
  simp only [UInt32.toNat_or]
  rw [toNat_shifted_byte a (by decide), toNat_shifted_byte b (by decide),
    toNat_shifted_byte c (by decide), toNat_shifted_byte d (by decide)]
  change a.toNat ||| b.toNat <<< 8 ||| c.toNat <<< 16 ||| d.toNat <<< 24 = _
  rw [or_shifted_byte b (by omega), or_shifted_byte c (by omega), or_shifted_byte d (by omega)]
  simp only [leNat]
  omega

theorem new_state : MD5.new.state = stdInit := by decide

theorem rotl_eq (x : UInt32) {s : Nat} (hpos : 0 < s) (hlt : s < 32) :
    MD5.rotl x (.ofNat s) = stdRotate x s := by
  have hs : (UInt32.ofNat s).toNat = s := by
    rw [UInt32.toNat_ofNat', Nat.mod_eq_of_lt (by omega)]
  have hne : UInt32.ofNat s ≠ 0 := by
    intro h
    have := congrArg UInt32.toNat h
    rw [hs, UInt32.toNat_zero] at this
    omega
  have hsub : (32 - UInt32.ofNat s).toNat = 32 - s := by
    rw [UInt32.toNat_sub_of_le _ _ (by rw [UInt32.le_iff_toNat_le, hs]; exact Nat.le_of_lt hlt),
      hs]
    rfl
  rw [MD5.rotl, if_neg hne, stdRotate, BitVec.rotateLeft_def, Nat.mod_eq_of_lt hlt]
  rw [← UInt32.toBitVec_inj]
  apply BitVec.eq_of_toNat_eq
  simp only [UInt32.toBitVec_or, BitVec.toNat_or, UInt32.toNat_toBitVec,
    UInt32.toNat_shiftLeft, UInt32.toNat_shiftRight, hs, hsub, BitVec.toNat_shiftLeft,
    BitVec.toNat_ushiftRight, Nat.mod_eq_of_lt hlt,
    Nat.mod_eq_of_lt (show 32 - s < 32 by omega)]

/-- The code's arguments of the sixteen calls from the `16 * n`-th on. -/
def stdArguments (n : Nat) : List (Nat × UInt32 × UInt32) :=
  (List.range' (16 * n) 16).map fun i => (stdIndex i, .ofNat (stdShift i), stdT.getD i 0)

theorem roundsF_eq : MD5.roundsF = stdArguments 0 := by decide

theorem roundsG_eq : MD5.roundsG = stdArguments 1 := by decide

theorem roundsH_eq : MD5.roundsH = stdArguments 2 := by decide

theorem roundsI_eq : MD5.roundsI = stdArguments 3 := by decide

/-- The registers as the code names them before the `i`-th call. -/
def turned (r : Fin 4 → UInt32) (i : Nat) : MD5State :=
  let a := Fin.ofNat 4 (3 * i)
  ⟨r a, r (a + 1), r (a + 2), r (a + 3)⟩

theorem round_turned (x : Nat → UInt32) (r : Fin 4 → UInt32) (i : Nat) :
    MD5.round x (stdFunc i) (turned r i) (stdIndex i, .ofNat (stdShift i), stdT.getD i 0) =
      turned (stdStep x r i) (i + 1) := by
  have hnext : Fin.ofNat 4 (3 * (i + 1)) = Fin.ofNat 4 (3 * i) + 3 := by
    apply Fin.ext
    simp only [Fin.ofNat, Fin.val_add]
    omega
  have hshift : 0 < stdShift i ∧ stdShift i < 32 := by
    unfold stdShift
    split <;> decide
  simp only [MD5.round, turned, stdStep, hnext, rotl_eq _ hshift.1 hshift.2]
  generalize Fin.ofNat 4 (3 * i) = a
  generalize stdRotate _ _ = w
  revert a
  simp [Fin.forall_fin_succ, Function.update]

/-- The calls of one round, from the `i`-th operation on. -/
theorem rounds_turned (x : Nat → UInt32) {n : Nat}
    {func : UInt32 → UInt32 → UInt32 → UInt32} (hfunc : ∀ i, i / 16 = n → stdFunc i = func)
    (k : Nat) :
    ∀ (r : Fin 4 → UInt32) (i : Nat), 16 * n ≤ i → i + k ≤ 16 * (n + 1) →
      ((List.range' i k).map fun i =>
        (stdIndex i, UInt32.ofNat (stdShift i), stdT.getD i 0)).foldl
          (MD5.round x func) (turned r i) =
        turned ((List.range' i k).foldl (stdStep x) r) (i + k) := by
  induction k with
  | zero => exact fun _ _ _ _ => rfl
  | succ k ih =>
      intro r i hlow hhigh
      have hround := round_turned x r i
      rw [hfunc i (by omega)] at hround
      rw [List.range'_succ, List.map_cons, List.foldl_cons, List.foldl_cons, hround,
        ih _ (i + 1) (by omega) (by omega), Nat.add_right_comm, Nat.add_assoc]

theorem arguments_turned (x : Nat → UInt32) {n : Nat}
    {func : UInt32 → UInt32 → UInt32 → UInt32} (hfunc : ∀ i, i / 16 = n → stdFunc i = func)
    (r : Fin 4 → UInt32) :
    (stdArguments n).foldl (MD5.round x func) (turned r (16 * n)) =
      turned ((List.range' (16 * n) 16).foldl (stdStep x) r) (16 * (n + 1)) :=
  rounds_turned x hfunc 16 r (16 * n) (Nat.le_refl _) (by omega)

/-- The function is the same within a round. -/
theorem stdFunc_round {n : Nat} {func : UInt32 → UInt32 → UInt32 → UInt32}
    (h : stdFunc (16 * n) = func) (i : Nat) (hi : i / 16 = n) : stdFunc i = func := by
  rw [← h, ← hi]
  unfold stdFunc
  rw [Nat.mul_div_cancel_left _ (by decide)]

theorem compress_eq : MD5.compress = stdCompress := by
  funext state block
  have hf : MD5.f = stdF := funext fun x => funext fun y => funext (f_eq x y)
  have hg : MD5.g = stdG := funext fun x => funext fun y => funext (g_eq x y)
  have hload : MD5.load block = stdLoad block := funext (load_eq block)
  have hsplit : List.range 64 = List.range' (16 * 0) 16 ++ List.range' (16 * 1) 16 ++
      List.range' (16 * 2) 16 ++ List.range' (16 * 3) 16 := by decide
  -- after each round of sixteen calls the registers are again in their places
  have hfirst := arguments_turned (stdLoad block) (stdFunc_round (n := 0) (rfl : _ = stdF))
  have hsecond := arguments_turned (stdLoad block) (stdFunc_round (n := 1) (rfl : _ = stdG))
  have hthird := arguments_turned (stdLoad block) (stdFunc_round (n := 2) (rfl : _ = MD5.h))
  have hfourth := arguments_turned (stdLoad block) (stdFunc_round (n := 3) (rfl : _ = MD5.ii))
  have hstart : state = turned ![state.a, state.b, state.c, state.d] (16 * 0) := rfl
  simp only [MD5.compress, stdCompress, hf, hg, hload, roundsF_eq, roundsG_eq, roundsH_eq,
    roundsI_eq, hsplit, List.foldl_append]
  generalize ![state.a, state.b, state.c, state.d] = r at hstart ⊢
  rw [hstart, hfirst, hsecond, hthird, hfourth]
  rfl

/-! ## Pieces -/

/-- The state after some pieces, as a function of the message they make up. -/
structure Absorbed (md5 : MD5) (message : List UInt8) : Prop where
  buffer : md5.buffer = residue 64 message
  state : md5.state = absorb 64 MD5.compress MD5.new.state message
  size : md5.sizeCounter = .ofNat (message.length / 64 * 64)

theorem new_absorbed : Absorbed MD5.new [] := ⟨rfl, rfl, rfl⟩

/-- Whole blocks worked in. -/
theorem addDataImpl_absorbed {md5 : MD5} {message data : List UInt8} {n k : Nat}
    (hmessage : message.length = n * 64) (hdata : data.length = k * 64)
    (hstate : md5.state = absorb 64 MD5.compress MD5.new.state message)
    (hsize : md5.sizeCounter = .ofNat message.length) :
    Absorbed { md5.addDataImpl data with buffer := [] } (message ++ data) := by
  have hlength : (message ++ data).length = (n + k) * 64 := by
    rw [List.length_append]
    omega
  refine ⟨?_, ?_, ?_⟩
  · have hnil := residue_aligned (y := []) (by decide) hlength
    rw [List.append_nil] at hnil
    rw [hnil]
    rfl
  · rw [absorb_aligned (by decide) hmessage, ← hstate]
    rfl
  · change md5.sizeCounter + .ofNat data.length = _
    rw [hsize, ← UInt64.ofNat_add, hlength, Nat.mul_div_cancel _ (by decide), hmessage, hdata,
      ← Nat.add_mul]

theorem pushBack_some {buffer data : List UInt8} (h : buffer.length + data.length ≤ 128) :
    MD5.pushBack buffer data = some (buffer ++ data) := if_pos h

/-- With an empty buffer, the message so far is one of whole blocks. -/
theorem Absorbed.whole {md5 : MD5} {message : List UInt8} (habs : Absorbed md5 message)
    (hempty : md5.buffer = []) :
    ∃ n, message.length = n * 64 ∧ md5.sizeCounter = .ofNat message.length := by
  have hmod : message.length % 64 = 0 := by
    rw [← residue_length_eq, ← habs.buffer, hempty]
    rfl
  have hn : message.length = message.length / 64 * 64 := by omega
  exact ⟨message.length / 64, hn, by rw [habs.size, ← hn]⟩

/-- Less than a block put into the empty buffer. -/
theorem Absorbed.short {md5 : MD5} {message data : List UInt8} (habs : Absorbed md5 message)
    (hempty : md5.buffer = []) (hshort : data.length < 64) :
    Absorbed { md5 with buffer := data } (message ++ data) := by
  obtain ⟨n, hn, hsize⟩ := habs.whole hempty
  refine ⟨?_, ?_, ?_⟩
  · rw [residue_aligned (by decide) hn, residue_short hshort]
  · rw [absorb_aligned (by decide) hn, absorb_short hshort]
    exact habs.state
  · have hdiv : (message ++ data).length / 64 * 64 = message.length := by
      rw [List.length_append]
      omega
    rw [hdiv]
    exact hsize

theorem addBlocks_absorbed {md5 : MD5} {message : List UInt8} (habs : Absorbed md5 message)
    (hempty : md5.buffer = []) (data : List UInt8) :
    ∃ md5', md5.addBlocks data = some md5' ∧ Absorbed md5' (message ++ data) := by
  obtain ⟨n, hn, hsize⟩ := habs.whole hempty
  simp only [MD5.addBlocks, MD5.blockSize]
  by_cases hshort : data.length < 64
  · rw [if_pos hshort, pushBack_some (by rw [List.length_nil]; omega), List.nil_append]
    exact ⟨_, rfl, habs.short hempty hshort⟩
  · rw [if_neg hshort]
    have htake : (data.take (data.length - data.length % 64)).length =
        data.length / 64 * 64 := by
      rw [List.length_take]
      omega
    have hwhole := addDataImpl_absorbed hn htake habs.state hsize
    have hkeep : (md5.addDataImpl (data.take (data.length - data.length % 64))).buffer = [] :=
      hempty
    by_cases hrest : data.length - data.length % 64 < data.length
    · have hdrop : (data.drop (data.length - data.length % 64)).length < 64 := by
        rw [List.length_drop]
        omega
      rw [if_pos hrest, pushBack_some (by rw [List.length_nil]; omega), List.nil_append]
      have hshort := hwhole.short rfl hdrop
      rw [List.append_assoc, List.take_append_drop] at hshort
      exact ⟨_, rfl, hshort⟩
    · rw [if_neg hrest]
      rw [List.take_of_length_le (by omega)] at hwhole hkeep ⊢
      rw [← hkeep] at hwhole
      exact ⟨_, rfl, hwhole⟩

theorem addData_absorbed {md5 : MD5} {message : List UInt8} (habs : Absorbed md5 message)
    (data : List UInt8) :
    ∃ md5', md5.addData data = some md5' ∧ Absorbed md5' (message ++ data) := by
  simp only [MD5.addData]
  by_cases hempty : md5.buffer = []
  · rw [if_pos hempty]
    exact addBlocks_absorbed habs hempty data
  · rw [if_neg hempty]
    have hlt : md5.buffer.length < 64 := by
      rw [habs.buffer]
      exact residue_length (by decide) message
    have hmod : md5.buffer.length = message.length % 64 := by
      rw [habs.buffer, residue_length_eq]
    have hfree : ((MD5.blockSize - md5.buffer.length : Int) % 2 ^ 64).toNat =
        64 - md5.buffer.length := by
      rw [MD5.blockSize]
      omega
    rw [hfree]
    have hlen : (data.take (min (64 - md5.buffer.length) data.length)).length =
        min (64 - md5.buffer.length) data.length := by
      rw [List.length_take, Nat.min_assoc, Nat.min_self]
    rw [pushBack_some (by rw [hlen]; omega)]
    simp only [Option.bind_eq_bind, Option.bind_some, MD5.blockSize]
    by_cases hfill : data.length < 64 - md5.buffer.length
    · have hall : data.take (min (64 - md5.buffer.length) data.length) = data :=
        List.take_of_length_le (by omega)
      have hshort : (residue 64 message ++ data).length < 64 := by
        rw [← habs.buffer, List.length_append]
        omega
      rw [hall, habs.buffer, if_pos hshort]
      refine ⟨_, rfl, ?_, ?_, ?_⟩
      · rw [residue_append (by decide), residue_short hshort]
      · rw [absorb_append (by decide), absorb_short hshort]
        exact habs.state
      · rw [List.length_append]
        have hdiv : (message.length + data.length) / 64 = message.length / 64 := by omega
        rw [hdiv]
        exact habs.size
    · have hblock : (md5.buffer ++ data.take (min (64 - md5.buffer.length) data.length)).length
          = 1 * 64 := by
        rw [List.length_append, hlen]
        omega
      rw [if_neg (by rw [hblock]; decide)]
      -- the message up to here, with what fills the buffer, is one of whole blocks
      have hfront := length_take_blocks 64 message
      have hstart : absorb 64 MD5.compress MD5.new.state
          (message.take (message.length / 64 * 64)) = md5.state := by
        rw [absorb_take (by decide), habs.state]
      have hfull := addDataImpl_absorbed hfront hblock hstart.symm
        (by rw [hfront]; exact habs.size)
      rw [← List.append_assoc, habs.buffer, take_append_residue] at hfull
      obtain ⟨md5', hadd, habs'⟩ := addBlocks_absorbed hfull rfl
        (data.drop (min (64 - md5.buffer.length) data.length))
      rw [List.append_assoc, ← habs.buffer, List.take_append_drop] at habs'
      rw [← habs.buffer] at hadd
      exact ⟨md5', hadd, habs'⟩

/-- Any pieces of a message. -/
theorem addData_run {md5 : MD5} {message : List UInt8} (habs : Absorbed md5 message)
    (chunks : List (List UInt8)) :
    ∃ md5', chunks.foldlM MD5.addData md5 = some md5' ∧
      Absorbed md5' (message ++ chunks.flatten) := by
  induction chunks generalizing md5 message with
  | nil =>
      rw [List.flatten_nil, List.append_nil]
      exact ⟨md5, rfl, habs⟩
  | cons chunk chunks ih =>
      obtain ⟨md5₁, hadd, habs₁⟩ := addData_absorbed habs chunk
      obtain ⟨md5', hrun, habs'⟩ := ih habs₁
      rw [List.append_assoc, ← List.flatten_cons] at habs'
      refine ⟨md5', ?_, habs'⟩
      rw [List.foldlM_cons, hadd]
      exact hrun

/-! ## Padding -/

theorem leBytes_mod (k n : Nat) : leBytes k (n % 256 ^ k) = leBytes k n := by
  have h := leBytes_leNat (leBytes k n)
  rw [leBytes_length, leNat_leBytes] at h
  exact h

theorem storeSize_append (low high : UInt32) (front : List UInt8) {back : List UInt8}
    (hback : back.length = 8) (i : Nat) :
    MD5.storeSize low high (front ++ back) i =
      front ++ MD5.storeSize low high back i := by
  have hindex : ∀ k ≤ 8, (front ++ back).length - k + i = front.length + (8 - k + i) := by
    intro k hk
    rw [List.length_append]
    omega
  simp only [MD5.storeSize]
  rw [hindex 8 (by decide), hindex 4 (by decide), hback,
    List.set_append_right _ _ (Nat.le_add_right ..), Nat.add_sub_cancel_left,
    List.set_append_right _ _ (Nat.le_add_right ..), Nat.add_sub_cancel_left]

theorem storeSize_length (low high : UInt32) (buffer : List UInt8) (i : Nat) :
    (MD5.storeSize low high buffer i).length = buffer.length := by
  rw [MD5.storeSize, List.length_set, List.length_set]

theorem storeSizes_append (low high : UInt32) (front : List UInt8) (is : List Nat)
    {back : List UInt8} (hback : back.length = 8) :
    is.foldl (MD5.storeSize low high) (front ++ back) =
      front ++ is.foldl (MD5.storeSize low high) back := by
  induction is generalizing back with
  | nil => rfl
  | cons i is ih =>
      rw [List.foldl_cons, List.foldl_cons, storeSize_append _ _ _ hback,
        ih (by rw [storeSize_length, hback])]

theorem shifted_toUInt8 (word : UInt32) {i : Nat} (hi : i < 4) :
    (word >>> UInt32.ofNat (8 * i)).toUInt8.toNat = word.toNat / 2 ^ (8 * i) % 256 := by
  have hshift : (UInt32.ofNat (8 * i)).toNat % 32 = 8 * i := by
    rw [UInt32.toNat_ofNat']
    omega
  rw [UInt32.toNat_toUInt8, UInt32.toNat_shiftRight, hshift, Nat.shiftRight_eq_div_pow]

/-- The four bytes of a word. -/
theorem leNat_shifted (word : UInt32) :
    leNat [(word >>> UInt32.ofNat (8 * 0)).toUInt8, (word >>> UInt32.ofNat (8 * 1)).toUInt8,
      (word >>> UInt32.ofNat (8 * 2)).toUInt8, (word >>> UInt32.ofNat (8 * 3)).toUInt8] =
      word.toNat := by
  have hlt := word.toNat_lt
  simp only [leNat]
  rw [shifted_toUInt8 word (by decide), shifted_toUInt8 word (by decide),
    shifted_toUInt8 word (by decide), shifted_toUInt8 word (by decide)]
  omega

/-- The loop of `finalize` over the last eight bytes. -/
theorem storeSizes_eq (bits : UInt64) :
    [0, 1, 2, 3].foldl (MD5.storeSize (bits >>> 0).toUInt32 (bits >>> 32).toUInt32)
      (List.replicate 8 0) = leBytes 8 bits.toNat := by
  have hlt := bits.toNat_lt
  have hlow : (bits >>> 0).toUInt32.toNat = bits.toNat % 2 ^ 32 := by
    rw [UInt64.toNat_toUInt32, UInt64.toNat_shiftRight]
    rfl
  have hhigh : (bits >>> 32).toUInt32.toNat = bits.toNat / 2 ^ 32 := by
    rw [UInt64.toNat_toUInt32, UInt64.toNat_shiftRight, Nat.shiftRight_eq_div_pow]
    exact Nat.mod_eq_of_lt (by change bits.toNat / 2 ^ 32 < 2 ^ 32; omega)
  generalize (bits >>> 0).toUInt32 = low at hlow
  generalize (bits >>> 32).toUInt32 = high at hhigh
  have hbytes : [0, 1, 2, 3].foldl (MD5.storeSize low high) (List.replicate 8 0) =
      [(low >>> UInt32.ofNat (8 * 0)).toUInt8, (low >>> UInt32.ofNat (8 * 1)).toUInt8,
        (low >>> UInt32.ofNat (8 * 2)).toUInt8, (low >>> UInt32.ofNat (8 * 3)).toUInt8] ++
      [(high >>> UInt32.ofNat (8 * 0)).toUInt8, (high >>> UInt32.ofNat (8 * 1)).toUInt8,
        (high >>> UInt32.ofNat (8 * 2)).toUInt8, (high >>> UInt32.ofNat (8 * 3)).toUInt8] :=
    rfl
  have hvalue := leNat_append
    [(low >>> UInt32.ofNat (8 * 0)).toUInt8, (low >>> UInt32.ofNat (8 * 1)).toUInt8,
      (low >>> UInt32.ofNat (8 * 2)).toUInt8, (low >>> UInt32.ofNat (8 * 3)).toUInt8]
    [(high >>> UInt32.ofNat (8 * 0)).toUInt8, (high >>> UInt32.ofNat (8 * 1)).toUInt8,
      (high >>> UInt32.ofNat (8 * 2)).toUInt8, (high >>> UInt32.ofNat (8 * 3)).toUInt8]
  rw [leNat_shifted, leNat_shifted, ← hbytes] at hvalue
  have hlength : ([0, 1, 2, 3].foldl (MD5.storeSize low high)
      (List.replicate 8 0)).length = 8 := by
    rw [hbytes]
    rfl
  rw [← leBytes_leNat ([0, 1, 2, 3].foldl (MD5.storeSize low high) (List.replicate 8 0)),
    hlength, hvalue, hlow, hhigh]
  refine congrArg (leBytes 8) ?_
  simp only [List.length_cons, List.length_nil]
  omega

/-- What `finalize` hashes at the end: the residue and a padding, with 64 zeros too many
when none is needed. -/
theorem finalize_absorbed {md5 : MD5} {message : List UInt8} (habs : Absorbed md5 message) :
    ∃ md5', md5.finalize = some md5' ∧
      md5'.state = absorb 64 MD5.compress MD5.new.state
        (message ++ padding (if message.length % 64 = 55 then 64 else 0) message.length) := by
  have hmod : md5.buffer.length = message.length % 64 := by
    rw [habs.buffer, residue_length_eq]
  have hsize : md5.sizeCounter + .ofNat md5.buffer.length = .ofNat message.length := by
    rw [habs.size, hmod, ← UInt64.ofNat_add]
    congr 1
    omega
  have hbits : ((UInt64.ofNat message.length) * 8).toNat = 8 * message.length % 256 ^ 8 := by
    rw [UInt64.toNat_mul, UInt64.toNat_ofNat', Nat.mod_mul_mod, Nat.mul_comm]
    rfl
  have hzeros : 64 - (md5.buffer.length + 1 + 8) % 64 =
      (119 - message.length % 64) % 64 +
        if message.length % 64 = 55 then 64 else 0 := by
    rw [hmod]
    split <;> omega
  have hone : (md5.buffer ++ [(1 : UInt8) <<< 7]).length = md5.buffer.length + 1 := by
    rw [List.length_append]
    rfl
  rw [MD5.finalize, hsize]
  rw [pushBack_some (by change md5.buffer.length + 1 ≤ 128; omega)]
  simp only [Option.bind_eq_bind, Option.bind_some]
  have hroom : (md5.buffer ++ [(1 : UInt8) <<< 7]).length +
      (List.replicate (64 - (md5.buffer.length + 1 + 8) % 64 + 8) (0 : UInt8)).length ≤ 128 := by
    rw [hone, List.length_replicate]
    omega
  rw [hone, pushBack_some hroom]
  simp only [Option.bind_some]
  rw [List.replicate_add, ← List.append_assoc, storeSizes_append _ _ _ _ rfl, storeSizes_eq,
    hbits, leBytes_mod, hzeros]
  refine ⟨_, rfl, ?_⟩
  have hblock : (residue 64 message ++ padding (if message.length % 64 = 55 then 64 else 0)
      message.length) = md5.buffer ++ [(1 : UInt8) <<< 7] ++ List.replicate
        ((119 - message.length % 64) % 64 + if message.length % 64 = 55 then 64 else 0) 0 ++
        leBytes 8 (8 * message.length) := by
    rw [habs.buffer, padding, List.append_assoc, List.append_assoc]
    rfl
  rw [← hblock, absorb_append (by decide), ← habs.state]
  rfl

/-- However a message is cut into pieces, the buffer is never overrun and the digest is
the one of the standard, except for messages of 55 bytes more than whole blocks: for
these it is that of a padding with 64 zeros too many. -/
theorem md5_of_pieces (chunks : List (List UInt8)) :
    ∃ md5, (chunks.foldlM MD5.addData MD5.new >>= MD5.finalize) = some md5 ∧
      md5.toArray = digest (if chunks.flatten.length % 64 = 55 then 64 else 0)
        chunks.flatten := by
  obtain ⟨md5, hrun, habs⟩ := addData_run new_absorbed chunks
  rw [List.nil_append] at habs
  obtain ⟨md5', hfinal, hstate⟩ := finalize_absorbed habs
  refine ⟨md5', by rw [hrun]; exact hfinal, ?_⟩
  rw [MD5.toArray, hstate, compress_eq, new_state]
  rfl

-- `abc`, of the test suite in A.5
example : digest 0 [0x61, 0x62, 0x63] = [0x90, 0x01, 0x50, 0x98, 0x3c, 0xd2, 0x4f, 0xb0,
    0xd6, 0x96, 0x3f, 0x7d, 0x28, 0xe1, 0x7f, 0x72] := by decide +kernel

end Daenet.Proofs
