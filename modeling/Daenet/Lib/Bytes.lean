import Mathlib.Data.List.Basic
import Mathlib.Tactic.Ring

/-!
# Bounded memory and little-endian words

A piece of memory is a list of cells with a fixed length. `slice` reads a range
of it and `blit` writes one; both are defined only inside the memory, so a
program written with them is defined exactly when it stays inside its buffers.
`blit_spec` says everything about a write at once: what is there afterwards,
and that the rest is as before.

Numbers are stored with the low byte first. `leNat` reads any number of bytes,
so a word of which only the first bytes have arrived is a word too: the bytes
that have arrived, and below them whatever the cells held before.
-/

namespace Daenet.Lib

section Memory

variable {α : Type}

/-- The `len` cells from `off` on. -/
def slice (mem : List α) (off len : Nat) : Option (List α) :=
  if off + len ≤ mem.length then some ((mem.drop off).take len) else none

/-- The memory with `cells` written from `off` on. -/
def blit (mem : List α) (off : Nat) (cells : List α) : Option (List α) :=
  if off + cells.length ≤ mem.length then
    some (mem.take off ++ (cells ++ mem.drop (off + cells.length)))
  else none

variable {mem mem' x y cells : List α} {off len o n k : Nat}

theorem slice_eq_some (h : off + len ≤ mem.length) :
    slice mem off len = some ((mem.drop off).take len) := if_pos h

theorem slice_bound (h : slice mem off len = some x) :
    off + len ≤ mem.length ∧ x.length = len := by
  unfold slice at h
  split at h
  · next hle =>
      injection h with h
      subst h
      refine ⟨hle, ?_⟩
      rw [List.length_take, List.length_drop]
      omega
  · cases h

/-- A range is its first part and the rest. -/
theorem slice_add (h : slice mem off (n + k) = some x) :
    slice mem off n = some (x.take n) ∧
      slice mem (off + n) k = some (x.drop n) := by
  have hle := (slice_bound h).1
  rw [slice_eq_some hle] at h
  injection h with h
  subst h
  rw [slice_eq_some (by omega), slice_eq_some (by omega)]
  refine ⟨?_, ?_⟩
  · rw [List.take_take, Nat.min_eq_left (Nat.le_add_right n k)]
  · rw [List.drop_take, List.drop_drop, Nat.add_sub_cancel_left]

/-- Adjacent ranges are one range. -/
theorem slice_append (hx : slice mem off n = some x)
    (hy : slice mem (off + n) k = some y) :
    slice mem off (n + k) = some (x ++ y) := by
  have hle := (slice_bound hy).1
  have hlen := (slice_bound hx).2
  rw [slice_eq_some (by omega)] at hx hy ⊢
  injection hx with hx
  injection hy with hy
  subst hx hy
  rw [List.take_add, List.drop_drop]

/-- A range of a range. -/
theorem slice_slice (h : slice mem off len = some x) (hle : o + n ≤ len) :
    slice mem (off + o) n = slice x o n := by
  obtain ⟨hb, hlen⟩ := slice_bound h
  rw [slice_eq_some hb] at h
  injection h with h
  rw [slice_eq_some (by omega), slice_eq_some (by omega), ← h]
  rw [List.drop_take, List.drop_drop, List.take_take, Nat.min_eq_left (by omega)]

theorem slice_zero (h : off ≤ mem.length) : slice mem off 0 = some [] := by
  rw [slice_eq_some (by omega), List.take_zero]

theorem slice_all : slice mem 0 mem.length = some mem := by
  rw [slice_eq_some (by omega), List.drop_zero, List.take_length]

/-- What a write leaves. -/
structure Wrote (mem : List α) (off : Nat) (cells mem' : List α) : Prop where
  length : mem'.length = mem.length
  here : slice mem' off cells.length = some cells
  before : ∀ o n, o + n ≤ off → slice mem' o n = slice mem o n
  after : ∀ o n, off + cells.length ≤ o → slice mem' o n = slice mem o n

theorem blit_spec (mem : List α) (off : Nat) (cells : List α)
    (h : off + cells.length ≤ mem.length) :
    ∃ mem', blit mem off cells = some mem' ∧ Wrote mem off cells mem' := by
  have hlen : (mem.take off ++ (cells ++ mem.drop (off + cells.length))).length =
      mem.length := by
    simp only [List.length_append, List.length_take, List.length_drop]
    omega
  have htake : (mem.take off).length = off := by
    rw [List.length_take]
    omega
  refine ⟨_, if_pos h, hlen, ?_, ?_, ?_⟩
  · rw [slice_eq_some (by omega), List.drop_left' htake, List.take_left]
  · intro o n ho
    unfold slice
    rw [hlen]
    refine if_congr Iff.rfl (congrArg some ?_) rfl
    rw [List.drop_append_of_le_length (by omega), List.take_append_of_le_length
      (by rw [List.length_drop]; omega), List.drop_take, List.take_take,
      Nat.min_eq_left (by omega)]
  · intro o n ho
    unfold slice
    rw [hlen]
    refine if_congr Iff.rfl (congrArg some (congrArg (List.take n) ?_)) rfl
    rw [List.drop_append, List.drop_append, List.drop_eq_nil_of_le (by omega),
      List.drop_eq_nil_of_le (by omega), List.nil_append, List.nil_append,
      List.drop_drop]
    congr 1
    omega

theorem Wrote.of_blit (h : blit mem off cells = some mem') :
    Wrote mem off cells mem' := by
  have hle : off + cells.length ≤ mem.length := by
    by_contra hgt
    rw [blit, if_neg hgt] at h
    cases h
  obtain ⟨m, hm, hw⟩ := blit_spec _ _ _ hle
  rw [h] at hm
  injection hm with hm
  exact hm ▸ hw

theorem blit_eq_some (h : off + cells.length ≤ mem.length) :
    blit mem off cells =
      some (mem.take off ++ (cells ++ mem.drop (off + cells.length))) := if_pos h

theorem blit_bound (h : blit mem off cells = some mem') :
    off + cells.length ≤ mem.length := by
  unfold blit at h
  split at h
  · next hle => exact hle
  · cases h

theorem blit_nil (h : off ≤ mem.length) : blit mem off [] = some mem := by
  rw [blit_eq_some (by simpa using h)]
  simp

/-- Two adjacent writes are one write. -/
theorem blit_append (hx : blit mem off x = some mem')
    (hy : blit mem' (off + x.length) y = some cells) :
    blit mem off (x ++ y) = some cells := by
  have hx' := blit_bound hx
  have hlen := (Wrote.of_blit hx).length
  have hy' := blit_bound hy
  rw [blit_eq_some hx'] at hx
  injection hx with hx
  rw [blit_eq_some hy', ← hx] at hy
  injection hy with hy
  have htake : (mem.take off).length = off := by
    rw [List.length_take]
    omega
  rw [blit_eq_some (by rw [List.length_append]; omega), ← hy]
  refine congrArg some ?_
  have hfront : (mem.take off ++ (x ++ mem.drop (off + x.length))).take
      (off + x.length) = mem.take off ++ x := by
    rw [← List.append_assoc]
    exact List.take_left' (by rw [List.length_append, htake])
  have hback : (mem.take off ++ (x ++ mem.drop (off + x.length))).drop
      (off + x.length + y.length) = mem.drop (off + (x ++ y).length) := by
    rw [← List.append_assoc, ← List.drop_drop,
      List.drop_left' (by rw [List.length_append, htake]), List.drop_drop,
      List.length_append, Nat.add_assoc]
  rw [hfront, hback]
  simp only [List.append_assoc]

end Memory

/-! ## Words -/

/-- The low `k` bytes of `n`, low byte first. -/
def leBytes : Nat → Nat → List UInt8
  | 0, _ => []
  | k + 1, n => UInt8.ofNat n :: leBytes k (n / 256)

/-- The number stored in some bytes. -/
def leNat : List UInt8 → Nat
  | [] => 0
  | b :: bs => b.toNat + 256 * leNat bs

@[simp] theorem leBytes_length (k n : Nat) : (leBytes k n).length = k := by
  induction k generalizing n with
  | zero => rfl
  | succ k ih => rw [leBytes, List.length_cons, ih]

theorem leNat_leBytes (k n : Nat) : leNat (leBytes k n) = n % 256 ^ k := by
  induction k generalizing n with
  | zero => rw [leBytes, leNat, pow_zero, Nat.mod_one]
  | succ k ih =>
      rw [leBytes, leNat, ih, UInt8.toNat_ofNat']
      show n % 256 + 256 * (n / 256 % 256 ^ k) = n % 256 ^ (k + 1)
      rw [pow_succ' 256 k]
      exact Nat.mod_mul.symm

theorem leBytes_take {k t : Nat} (h : t ≤ k) (n : Nat) :
    (leBytes k n).take t = leBytes t n := by
  induction t generalizing k n with
  | zero => rfl
  | succ t ih =>
      obtain ⟨k, rfl⟩ : ∃ j, k = j + 1 := ⟨k - 1, by omega⟩
      rw [leBytes, leBytes, List.take_succ_cons, ih (by omega)]

theorem leBytes_drop {k t : Nat} (h : t ≤ k) (n : Nat) :
    (leBytes k n).drop t = leBytes (k - t) (n / 256 ^ t) := by
  induction t generalizing k n with
  | zero => rw [List.drop_zero, pow_zero, Nat.div_one, Nat.sub_zero]
  | succ t ih =>
      obtain ⟨k, rfl⟩ : ∃ j, k = j + 1 := ⟨k - 1, by omega⟩
      rw [leBytes, List.drop_succ_cons, ih (by omega), pow_succ',
        Nat.div_div_eq_div_mul, Nat.succ_sub_succ]

theorem leNat_append (a b : List UInt8) :
    leNat (a ++ b) = leNat a + 256 ^ a.length * leNat b := by
  induction a with
  | nil => simp [leNat]
  | cons x a ih =>
      rw [List.cons_append, leNat, leNat, ih, List.length_cons, pow_succ']
      ring

theorem leNat_lt (x : List UInt8) : leNat x < 256 ^ x.length := by
  induction x with
  | nil => simp [leNat]
  | cons b x ih =>
      have hb := b.toNat_lt
      rw [leNat, List.length_cons, pow_succ']
      omega

/-- Bytes are determined by the number they store. -/
theorem leBytes_leNat (x : List UInt8) : leBytes x.length (leNat x) = x := by
  induction x with
  | nil => rfl
  | cons b x ih =>
      have hb := b.toNat_lt
      have hhead : UInt8.ofNat (b.toNat + 256 * leNat x) = b := by
        refine UInt8.toNat_inj.mp ?_
        rw [UInt8.toNat_ofNat']
        omega
      have htail : (b.toNat + 256 * leNat x) / 256 = leNat x := by omega
      rw [List.length_cons, leNat, leBytes, hhead, htail, ih]

end Daenet.Lib
