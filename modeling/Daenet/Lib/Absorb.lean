import Mathlib.Data.List.Basic

/-!
# Absorbing a stream block by block

A state takes in blocks of `B` cells, one after another. A stream is cut into blocks from
the front, and what remains behind the last whole block is its residue. A machine that
is fed the stream in pieces keeps the state and the residue of what it has been given:
`absorb_append` and `residue_append` say that this is all it has to keep.
-/

namespace Daenet.Lib

variable {α σ : Type} {B : Nat} {f : σ → List α → σ} {s : σ} {x y : List α} {n m : Nat}

/-- The first `n` blocks of a stream. -/
def blocks (B : Nat) (f : σ → List α → σ) : Nat → σ → List α → σ
  | 0, s, _ => s
  | n + 1, s, x => blocks B f n (f s (x.take B)) (x.drop B)

/-- All the whole blocks. -/
def absorb (B : Nat) (f : σ → List α → σ) (s : σ) (x : List α) : σ :=
  blocks B f (x.length / B) s x

/-- What remains. -/
def residue (B : Nat) (x : List α) : List α := x.drop (x.length / B * B)

theorem blocks_append (hx : x.length = n * B) :
    blocks B f (n + m) s (x ++ y) =
      blocks B f m (blocks B f n s x) y := by
  induction n generalizing s x with
  | zero =>
      rw [Nat.zero_mul] at hx
      rw [List.length_eq_zero_iff.mp hx, List.nil_append, Nat.zero_add]
      rfl
  | succ n ih =>
      rw [Nat.succ_mul] at hx
      have hB : B ≤ x.length := by omega
      rw [Nat.add_right_comm]
      simp only [blocks]
      rw [List.take_append_of_le_length hB, List.drop_append_of_le_length hB]
      exact ih (by rw [List.length_drop]; omega)

theorem residue_length (hB : 0 < B) (x : List α) : (residue B x).length < B := by
  have hdiv := Nat.div_add_mod x.length B
  have hlt := Nat.mod_lt x.length hB
  rw [Nat.mul_comm] at hdiv
  rw [residue, List.length_drop]
  omega

theorem residue_length_eq (x : List α) : (residue B x).length = x.length % B := by
  have hdiv := Nat.div_add_mod x.length B
  rw [Nat.mul_comm] at hdiv
  rw [residue, List.length_drop]
  omega

theorem absorb_short (hx : x.length < B) : absorb B f s x = s := by
  rw [absorb, Nat.div_eq_of_lt hx]
  rfl

theorem residue_short (hx : x.length < B) : residue B x = x := by
  rw [residue, Nat.div_eq_of_lt hx, Nat.zero_mul, List.drop_zero]

/-- A stream of whole blocks leaves nothing, and what follows starts afresh. -/
theorem absorb_aligned (hB : 0 < B) (hx : x.length = n * B) :
    absorb B f s (x ++ y) = absorb B f (absorb B f s x) y := by
  have hdiv : x.length / B = n := by rw [hx, Nat.mul_div_cancel _ hB]
  have hall : (x ++ y).length / B = n + y.length / B := by
    rw [List.length_append, hx, Nat.mul_comm, Nat.mul_add_div hB]
  rw [absorb, hall, blocks_append hx, absorb, absorb, hdiv]

theorem residue_aligned (hB : 0 < B) (hx : x.length = n * B) :
    residue B (x ++ y) = residue B y := by
  have hall : (x ++ y).length / B = n + y.length / B := by
    rw [List.length_append, hx, Nat.mul_comm, Nat.mul_add_div hB]
  rw [residue, hall, Nat.add_mul, ← hx, List.drop_append, List.drop_eq_nil_of_le (by omega),
    Nat.add_sub_cancel_left, List.nil_append]
  rfl

theorem take_append_residue (B : Nat) (x : List α) :
    x.take (x.length / B * B) ++ residue B x = x := List.take_append_drop ..

theorem length_take_blocks (B : Nat) (x : List α) :
    (x.take (x.length / B * B)).length = x.length / B * B := by
  rw [List.length_take, Nat.min_eq_left (Nat.div_mul_le_self ..)]

/-- The whole blocks alone. -/
theorem absorb_take (hB : 0 < B) (x : List α) :
    absorb B f s (x.take (x.length / B * B)) = absorb B f s x := by
  have h := absorb_aligned (f := f) (s := s) (y := residue B x) hB
    (length_take_blocks B x)
  rw [take_append_residue, absorb_short (residue_length hB x)] at h
  exact h.symm

/-- More of a stream: the residue and what comes next are taken in. -/
theorem absorb_append (hB : 0 < B) (x y : List α) :
    absorb B f s (x ++ y) =
      absorb B f (absorb B f s x) (residue B x ++ y) := by
  have h := absorb_aligned (f := f) (s := s) (y := residue B x ++ y) hB
    (length_take_blocks B x)
  rw [← List.append_assoc, take_append_residue, absorb_take hB] at h
  exact h

theorem residue_append (hB : 0 < B) (x y : List α) :
    residue B (x ++ y) = residue B (residue B x ++ y) := by
  have h := residue_aligned (y := residue B x ++ y) hB (length_take_blocks B x)
  rw [← List.append_assoc, take_append_residue] at h
  exact h

end Daenet.Lib
