import Daenet.Lib.Congruential
import Daenet.Spec.Ring
import Mathlib.Order.Interval.Finset.Nat

/-!
# Dead drops are evenly spread

`DAESocket::send` takes the dead drop from bits 16 and up of the state of a
congruential generator. As many of them as the ring has bits, together with the
16 below, are the state modulo `2 ^ (16 + m)`, and there the generator has its
full period: over one period every dead drop comes up once for each value of
the 16 bits that are shifted away.
-/

namespace Daenet.Ref.DAESocket

/-- One `send` after the other: the socket after them, and the calls made to
`handle_external_messaging`. -/
def sendAll (s : DAESocket) : List (List UInt8) → DAESocket × List DAENode.ExternalMsg
  | [] => (s, [])
  | buf :: bufs =>
      let a := s.send buf
      let b := a.1.sendAll bufs
      (b.1, a.2 :: b.2)

end Daenet.Ref.DAESocket

namespace Daenet.Proofs

open Daenet.Lib Daenet.Ref Daenet.Spec

variable {s : DAESocket} {m : Nat}

/-- The constants of `rand`. -/
@[irreducible] def multiplier : Nat := 214013
@[irreducible] def increment : Nat := 2531011

theorem multiplier_mod : multiplier % 4 = 1 := by rw [multiplier]

theorem increment_mod : increment % 2 = 1 := by rw [increment]

/-- One draw, seen modulo a power of two. -/
theorem rand_seed (g : RandomGenerator) {k : Nat} (hk : k ≤ 64) :
    g.rand.2.seed % 2 ^ k = affine multiplier increment g.seed % 2 ^ k := by
  have hdvd : 2 ^ k ∣ 2 ^ 64 := Nat.pow_dvd_pow 2 hk
  simp only [RandomGenerator.rand, affine]
  rw [Nat.mod_mod_of_dvd _ hdvd, Nat.mul_comm, multiplier, increment]

/-- The dead drop of a draw. -/
theorem rand_drop (g : RandomGenerator) (hm : m ≤ 30) :
    g.rand.1 % 2 ^ m = g.rand.2.seed % 2 ^ (16 + m) / 2 ^ 16 := by
  have hmask : (0x7fffffff : Nat) = 2 ^ 31 - 1 := by decide
  have hdvd : 2 ^ m ∣ 2 ^ 31 := Nat.pow_dvd_pow 2 (by omega)
  simp only [RandomGenerator.rand]
  rw [hmask, Nat.and_two_pow_sub_one_eq_mod, Nat.mod_mod_of_dvd _ hdvd,
    Nat.shiftRight_eq_div_pow, Nat.pow_add, Nat.mod_mul_right_div_self]

theorem send_maxId (s : DAESocket) (buf : List UInt8) :
    (s.send buf).1.maxId = s.maxId := by
  cases s
  rfl

theorem send_random (s : DAESocket) (buf : List UInt8) :
    (s.send buf).1.random = s.random.rand.2 := by
  cases s
  rfl

theorem send_drop (s : DAESocket) (buf : List UInt8) :
    (s.send buf).2.destId = s.random.rand.1 % s.maxId := by
  -- Without this `rfl` computes the draw.
  unfold DAESocket.send
  generalize s.random.rand = draw
  rfl

theorem sendAll_cons (s : DAESocket) (buf : List UInt8) (bufs : List (List UInt8)) :
    s.sendAll (buf :: bufs) = (((s.send buf).1.sendAll bufs).1,
      (s.send buf).2 :: ((s.send buf).1.sendAll bufs).2) := by
  rw [DAESocket.sendAll]

theorem sendAll_maxId (s : DAESocket) (bufs : List (List UInt8)) :
    (s.sendAll bufs).1.maxId = s.maxId := by
  induction bufs generalizing s with
  | nil => rw [DAESocket.sendAll]
  | cons buf bufs ih => rw [sendAll_cons, ih, send_maxId]

/-- The dead drops of some messages. -/
theorem sendAll_drops (hm : m ≤ 30) (hs : s.maxId = 2 ^ m) (bufs : List (List UInt8)) :
    (s.sendAll bufs).2.map DAENode.ExternalMsg.destId =
      (List.range bufs.length).map fun j =>
        (affine multiplier increment)^[j] (affine multiplier increment s.random.seed) %
          2 ^ (16 + m) / 2 ^ 16 := by
  induction bufs generalizing s with
  | nil => rfl
  | cons buf bufs ih =>
      have hseed := rand_seed s.random (show 16 + m ≤ 64 by omega)
      have hhead : (s.send buf).2.destId =
          affine multiplier increment s.random.seed % 2 ^ (16 + m) / 2 ^ 16 := by
        rw [send_drop, hs, rand_drop s.random hm, hseed]
      rw [List.length_cons, List.range_succ_eq_map, List.map_cons, List.map_map]
      rw [sendAll_cons, List.map_cons, hhead, ih ((send_maxId s buf).trans hs)]
      refine congrArg (_ :: ·) ?_
      refine List.map_congr_left fun j _ => ?_
      have hstep : affine multiplier increment s.random.rand.2.seed ≡
          affine multiplier increment (affine multiplier increment s.random.seed)
            [MOD 2 ^ (16 + m)] := iterate_affine_congr hseed 1
      rw [Function.comp_apply, send_random, Function.iterate_succ_apply]
      exact congrArg (· / 2 ^ 16) (iterate_affine_congr hstep j)

/-- The residues that a dead drop is taken from. -/
theorem card_drop {d : Nat} (hd : d < 2 ^ m) :
    ((Finset.range (2 ^ (16 + m))).filter fun r => r / 2 ^ 16 = d).card = 2 ^ 16 := by
  have hblock : (Finset.range (2 ^ (16 + m))).filter (fun r => r / 2 ^ 16 = d) =
      Finset.Ico (2 ^ 16 * d) (2 ^ 16 * d + 2 ^ 16) := by
    ext r
    rw [Finset.mem_filter, Finset.mem_range, Finset.mem_Ico, Nat.pow_add]
    generalize 2 ^ m = M at hd
    omega
  rw [hblock, Nat.card_Ico]
  omega

theorem count_range (f : Nat → Nat) (k d : Nat) :
    ((List.range k).map f).count d = ((Finset.range k).filter fun j => f j = d).card := by
  induction k with
  | zero => rfl
  | succ k ih =>
      rw [List.range_succ, List.map_append, List.count_append, ih,
        Finset.range_add_one, Finset.filter_insert]
      by_cases h : f k = d
      · rw [if_pos h, Finset.card_insert_of_notMem (by simp)]
        simp [h]
      · rw [if_neg h]
        simp [h]

/-- Every dead drop comes up `2 ^ 16` times in any `2 ^ (16 + m)` messages of a
socket, whatever its seed and whatever it has sent before. -/
theorem deaddrops_evenly_spread (n : DAENode) (hm : n.m ≤ 30) (session seed : Int)
    (before bufs : List (List UInt8)) (hlength : bufs.length = 2 ^ (16 + n.m))
    {d : Nat} (hd : d < 2 ^ n.m) :
    ((((DAESocket.new n session seed).sendAll before).1.sendAll bufs).2.map
      DAENode.ExternalMsg.destId).count d = 2 ^ 16 := by
  have hmax : ((DAESocket.new n session seed).sendAll before).1.maxId = 2 ^ n.m := by
    rw [sendAll_maxId, DAESocket.new, intShl_eq n.m hm]
  generalize ((DAESocket.new n session seed).sendAll before).1 = s at hmax
  rw [sendAll_drops hm hmax, hlength, count_range,
    card_iterate multiplier_mod increment_mod _ fun r => r / 2 ^ 16 = d, card_drop hd]

theorem deaddrops_evenly_spread_pair :
    ((((DAESocket.new (pairNodes 0) 7 42).sendAll [[1], [2]]).1.sendAll
      (List.replicate (2 ^ 17) [])).2.map DAENode.ExternalMsg.destId).count 1 = 2 ^ 16 :=
  deaddrops_evenly_spread (pairNodes 0) (by decide) 7 42 [[1], [2]]
    (List.replicate (2 ^ 17) []) (by rw [List.length_replicate]; rfl) (by decide)

end Daenet.Proofs
