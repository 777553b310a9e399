import Daenet.Proofs.Spread

/-!
# The size of the ring

The size of the ring is computed in four places, each time as the `int` shift
`1 << m`. With 31 bits the shift is negative, and what becomes of it as an unsigned
number of 64 bits is `2 ^ 64 - 2 ^ 31`: remainders leave every sum of ids as it is.
Up to 30 bits all four agree with `2 ^ m`, so that 30 is where the arithmetic of the
ring ends. Dead drops are the exception: the generator yields 31 bits anyway.
-/

namespace Daenet.Proofs

open Daenet.Ref

variable {cfg : RelayConfig} {i : Nat} {random : UInt32}

theorem intShl_eq_iff {k : Nat} (hk : k ≤ 31) : intShl k = 2 ^ k ↔ k ≤ 30 := by
  constructor
  · intro h
    by_contra hgt
    obtain rfl : k = 31 := by omega
    exact absurd h (by decide)
  · exact intShl_eq k

theorem intShl_last : intShl 31 = 2 ^ 64 - 2 ^ 31 := by decide

/-- The start of a finger, as the constructor computes it. -/
theorem start_eq (cfg : RelayConfig) (i : Nat) :
    ((DAENode.new cfg).fingerTable i).start =
      (cfg.relayId + intShl i) % 2 ^ 64 % intShl cfg.ringBits := rfl

theorem pow_le_of_lt (hm : cfg.ringBits ≤ 31) (hi : i < cfg.ringBits) : 2 ^ i ≤ 2 ^ 30 :=
  Nat.pow_le_pow_right (by decide) (by omega)

/-- It is right except where, with 31 bits, it would have to go around. -/
theorem start_exact_iff (hm : cfg.ringBits ≤ 31) (hid : cfg.relayId < 2 ^ cfg.ringBits)
    (hi : i < cfg.ringBits) :
    ((DAENode.new cfg).fingerTable i).start = (cfg.relayId + 2 ^ i) % 2 ^ cfg.ringBits ↔
      cfg.ringBits ≤ 30 ∨ cfg.relayId + 2 ^ i < 2 ^ 31 := by
  have hpow := pow_le_of_lt hm hi
  have hid' : cfg.relayId < 2 ^ 31 :=
    Nat.lt_of_lt_of_le hid (Nat.pow_le_pow_right (by decide) hm)
  rw [start_eq, intShl_eq i (by omega), Nat.mod_eq_of_lt (show _ < 2 ^ 64 by omega)]
  by_cases hsmall : cfg.ringBits ≤ 30
  · rw [intShl_eq _ hsmall]
    exact iff_of_true rfl (.inl hsmall)
  · have hpos := Nat.two_pow_pos i
    rw [show cfg.ringBits = 31 by omega, intShl_last,
      Nat.mod_eq_of_lt (show _ < 2 ^ 64 - 2 ^ 31 by omega)]
    omega

/-- Through an `int`, and back to 64 bits: the number as it was, or its sign
extended. -/
theorem narrowed_eq {x : Nat} (hx : x < 2 ^ 32) :
    (Int.bmod (Int.ofNat x) (2 ^ 32) % 2 ^ 64).toNat =
      if x < 2 ^ 31 then x else x + (2 ^ 64 - 2 ^ 32) := by
  simp only [Int.bmod, Int.ofNat_eq_natCast]
  split <;> split <;> omega

/-- A drawn id is one of the ring's except when, with 31 bits, the draw is negative
as an `int`. -/
theorem getDaeNodeId_lt_iff (hm : cfg.ringBits ≤ 31) :
    DAEService.getDaeNodeId cfg false random < 2 ^ cfg.ringBits ↔
      cfg.ringBits ≤ 30 ∨ random.toNat < 2 ^ 31 := by
  have hrandom : random.toNat < 2 ^ 32 := random.toNat_lt
  have hdrawn : random.toNat % cfg.maxRelayId < 2 ^ 32 :=
    Nat.lt_of_le_of_lt (Nat.mod_le ..) hrandom
  rw [DAEService.getDaeNodeId, if_neg (by decide), narrowed_eq hdrawn, RelayConfig.maxRelayId]
  by_cases hsmall : cfg.ringBits ≤ 30
  · have hpow : 2 ^ cfg.ringBits ≤ 2 ^ 30 := Nat.pow_le_pow_right (by decide) hsmall
    have hlt := Nat.mod_lt random.toNat (Nat.two_pow_pos cfg.ringBits)
    rw [intShl_eq _ hsmall, if_pos (by omega)]
    exact iff_of_true hlt (.inl hsmall)
  · rw [show cfg.ringBits = 31 by omega, intShl_last, Nat.mod_eq_of_lt (by omega)]
    split <;> omega

/-- The generator yields 31 bits. -/
theorem rand_lt (g : RandomGenerator) : g.rand.1 < 2 ^ 31 :=
  Nat.and_lt_two_pow _ (by decide)

/-- Dead drops are ids of the ring, also with 31 bits. -/
theorem drops_lt {s : DAESocket} {m : Nat} (hm : m ≤ 31) (hs : s.maxId = intShl m)
    {bufs : List (List UInt8)} {x : DAENode.ExternalMsg} (hx : x ∈ (s.sendAll bufs).2) :
    x.destId < 2 ^ m := by
  induction bufs generalizing s with
  | nil => cases hx
  | cons buf bufs ih =>
      rw [sendAll_cons] at hx
      rcases List.mem_cons.mp hx with rfl | hx
      · rw [send_drop, hs]
        by_cases hsmall : m ≤ 30
        · rw [intShl_eq m hsmall]
          exact Nat.mod_lt _ (Nat.two_pow_pos m)
        · obtain rfl : m = 31 := by omega
          exact Nat.lt_of_le_of_lt (Nat.mod_le ..) (rand_lt s.random)
      · exact ih ((send_maxId s buf).trans hs) hx

theorem maxId_new (cfg : RelayConfig) (session seed : Int) :
    (DAESocket.new (DAENode.new cfg) session seed).maxId = intShl cfg.ringBits := by
  rw [DAESocket.new, DAENode.new]

/-! ## All of it -/

/-- The arithmetic of a ring with `ring_bits` bits is that of `2 ^ ring_bits`: a
start of a finger, the two bounds, an id drawn for the node, and the dead drops that
a socket of the node draws. -/
structure RingExact (cfg : RelayConfig) (i : Nat) (random : UInt32) (session seed : Int)
    (bufs : List (List UInt8)) : Prop where
  start : ((DAENode.new cfg).fingerTable i).start =
    (cfg.relayId + 2 ^ i) % 2 ^ cfg.ringBits
  start_lt : ((DAENode.new cfg).fingerTable i).start < 2 ^ cfg.ringBits
  maxRelayId : cfg.maxRelayId = 2 ^ cfg.ringBits
  maxId : (DAESocket.new (DAENode.new cfg) session seed).maxId = 2 ^ cfg.ringBits
  node_lt : DAEService.getDaeNodeId cfg false random < 2 ^ cfg.ringBits
  drops_lt : ∀ x ∈ ((DAESocket.new (DAENode.new cfg) session seed).sendAll bufs).2,
    x.destId < 2 ^ cfg.ringBits

/-- With at most 31 bits, for every id and finger and whatever is drawn and sent: the
arithmetic is exact if and only if there are at most 30. -/
theorem ring_exact_iff (cfg : RelayConfig) (hm : cfg.ringBits ≤ 31)
    (hid : cfg.relayId < 2 ^ cfg.ringBits) (i : Nat) (hi : i < cfg.ringBits)
    (random : UInt32) (session seed : Int) (bufs : List (List UInt8)) :
    RingExact cfg i random session seed bufs ↔ cfg.ringBits ≤ 30 := by
  constructor
  · exact fun h => (intShl_eq_iff hm).mp h.maxRelayId
  · intro hsmall
    have hmax := (intShl_eq_iff hm).mpr hsmall
    have hstart := (start_exact_iff hm hid hi).mpr (.inl hsmall)
    exact
      { start := hstart
        start_lt := hstart ▸ Nat.mod_lt _ (Nat.two_pow_pos _)
        maxRelayId := hmax
        maxId := (maxId_new cfg session seed).trans hmax
        node_lt := (getDaeNodeId_lt_iff hm).mpr (.inl hsmall)
        drops_lt := fun x hx => drops_lt hm (maxId_new cfg session seed) hx }

/-- The default of ten bits, at the last id. -/
theorem ring_exact_iff_ten :
    RingExact ⟨"10.22.1.16", 3010, 1023, 10, ⟨"10.22.1.16", 3010, 0⟩, 10, true, false, false⟩
      9 0 1 10 [] :=
  (ring_exact_iff
    ⟨"10.22.1.16", 3010, 1023, 10, ⟨"10.22.1.16", 3010, 0⟩, 10, true, false, false⟩
    (by decide) (by decide) 9 (by decide) 0 1 10 []).mpr (by decide)

/-- With 31 bits the start of the first finger of the last node is `2 ^ 31`. -/
theorem ring_of_31_bits_overflows :
    ¬ RingExact ⟨"10.22.1.16", 3010, 2 ^ 31 - 1, 31, ⟨"10.22.1.16", 3010, 0⟩, 10, true, false,
      false⟩ 0 0 1 10 [] :=
  fun h => absurd h.start (by decide)

end Daenet.Proofs
