import Daenet.Lib.Bytes
import Daenet.Lib.OnesComplement
import Mathlib.Algebra.Group.Nat.Defs

/-!
# Checksums of IP packets

`checksum.c` and `packet_checksum.c`, on a machine with the low byte first. A packet is
the memory it is in, of which a field is a range of bytes at the offset that its
structure gives it; `none` is an access outside the memory. `check` is stored as the
machine stores a number. The assertions are compiled out (`NDEBUG`): a packet of another
version is left alone, one of another protocol gets a header checksum only, and a
length that is too short goes into the unsigned parameter as it is.
-/

namespace Daenet.Ref

open Daenet.Lib

/-- `ntohs` and `htons`. -/
def ntohs (x : UInt16) : UInt16 := (x <<< 8) ||| (x >>> 8)

/-- `ip_checksum_partial`: words of 32 bits, then of 16, then a byte in front of a
zero. -/
def ipChecksumPartial : List UInt8 → UInt64 → UInt64
  | a :: b :: c :: d :: p, sum => ipChecksumPartial p (sum + .ofNat (leNat [a, b, c, d]))
  | [a, b, c], sum => sum + .ofNat (leNat [a, b]) + (ntohs (c.toUInt16 <<< 8)).toUInt64
  | [a, b], sum => sum + .ofNat (leNat [a, b])
  | [a], sum => sum + (ntohs (a.toUInt16 <<< 8)).toUInt64
  | [], sum => sum

/-! The two loops of `ip_checksum_fold` end: a sum with a part above the word gets
smaller in every turn. -/

section Turns

variable {sum : UInt64}

theorem foldTurn32 (sum : UInt64) :
    ((sum >>> 32) + (sum &&& 0xffffffff)).toNat =
      sum.toNat / 2 ^ 32 + sum.toNat % 2 ^ 32 := by
  have hlt := sum.toNat_lt
  have hshift : (sum >>> 32).toNat = sum.toNat / 2 ^ 32 := by
    rw [UInt64.toNat_shiftRight, Nat.shiftRight_eq_div_pow]
    rfl
  have hand : (sum &&& 0xffffffff).toNat = sum.toNat % 2 ^ 32 := by
    rw [UInt64.toNat_and, ← Nat.and_two_pow_sub_one_eq_mod]
    rfl
  rw [UInt64.toNat_add, hshift, hand, Nat.mod_eq_of_lt (by omega)]

theorem foldTurn16 (sum : UInt64) :
    ((sum >>> 16) + (sum &&& 0xffff)).toNat = sum.toNat / 2 ^ 16 + sum.toNat % 2 ^ 16 := by
  have hlt := sum.toNat_lt
  have hshift : (sum >>> 16).toNat = sum.toNat / 2 ^ 16 := by
    rw [UInt64.toNat_shiftRight, Nat.shiftRight_eq_div_pow]
    rfl
  have hand : (sum &&& 0xffff).toNat = sum.toNat % 2 ^ 16 := by
    rw [UInt64.toNat_and, ← Nat.and_two_pow_sub_one_eq_mod]
    rfl
  rw [UInt64.toNat_add, hshift, hand, Nat.mod_eq_of_lt (by omega)]

/-- A word of ones moved up selects the bits that it covers. -/
theorem and_shifted (x w k : Nat) :
    x &&& ((2 ^ w - 1) <<< k) = (x / 2 ^ k % 2 ^ w) <<< k := by
  rw [← Nat.and_two_pow_sub_one_eq_mod, ← Nat.shiftRight_eq_div_pow]
  refine Nat.eq_of_testBit_eq fun i => ?_
  simp only [Nat.testBit_and, Nat.testBit_shiftLeft, Nat.testBit_shiftRight]
  by_cases hi : k ≤ i
  · simp only [hi, decide_true, Bool.true_and, Nat.add_sub_cancel' hi]
  · simp only [hi, decide_false, Bool.false_and, Bool.and_false]

theorem high32_ne_zero : sum &&& ~~~0xffffffff ≠ 0 ↔ 2 ^ 32 ≤ sum.toNat := by
  have hlt := sum.toNat_lt
  have hmask : (~~~0xffffffff : UInt64).toNat = (2 ^ 32 - 1) <<< 32 := rfl
  rw [Ne, ← UInt64.toNat_inj, UInt64.toNat_and, hmask, and_shifted]
  rw [Nat.shiftLeft_eq, Nat.mod_eq_of_lt (by omega), UInt64.toNat_zero]
  omega

theorem high16_ne_zero (h : sum &&& 0xffff0000 ≠ 0) : 2 ^ 16 ≤ sum.toNat := by
  have hmask : (0xffff0000 : UInt64).toNat = (2 ^ 16 - 1) <<< 16 := rfl
  rw [Ne, ← UInt64.toNat_inj, UInt64.toNat_and, hmask, and_shifted, Nat.shiftLeft_eq,
    UInt64.toNat_zero] at h
  omega

theorem high16_eq_zero (hlt : sum.toNat < 2 ^ 32) (h : sum &&& 0xffff0000 = 0) :
    sum.toNat < 2 ^ 16 := by
  have hmask : (0xffff0000 : UInt64).toNat = (2 ^ 16 - 1) <<< 16 := rfl
  rw [← UInt64.toNat_inj, UInt64.toNat_and, hmask, and_shifted, Nat.shiftLeft_eq,
    UInt64.toNat_zero] at h
  omega

end Turns

/-- The first loop of `ip_checksum_fold`. -/
def fold32 (sum : UInt64) : UInt64 :=
  if sum &&& ~~~0xffffffff ≠ 0 then fold32 ((sum >>> 32) + (sum &&& 0xffffffff)) else sum
termination_by sum.toNat
decreasing_by
  next h =>
    rw [foldTurn32]
    exact fold_lt (by decide) (high32_ne_zero.mp h)

/-- The second loop of `ip_checksum_fold`. -/
def fold16 (sum : UInt64) : UInt64 :=
  if sum &&& 0xffff0000 ≠ 0 then fold16 ((sum >>> 16) + (sum &&& 0xffff)) else sum
termination_by sum.toNat
decreasing_by
  next h =>
    rw [foldTurn16]
    exact fold_lt (by decide) (high16_ne_zero h)

/-- `ip_checksum_fold`. -/
def ipChecksumFold (sum : UInt64) : UInt16 := (~~~fold16 (fold32 sum)).toUInt16

/-- `ipv4_checksum`. -/
def ipv4Checksum (ipHeader : List UInt8) : UInt16 :=
  ipChecksumFold (ipChecksumPartial ipHeader 0)

/-- The pseudo-header of `tcp_udp_v4_header_checksum_partial`. -/
def pseudoHeaderV4 (srcIp dstIp : List UInt8) (protocol : UInt8) (len : UInt16) :
    List UInt8 :=
  srcIp ++ dstIp ++ [0, protocol] ++ leBytes 2 (ntohs len).toNat

/-- `tcp_udp_v4_checksum`. -/
def tcpUdpV4Checksum (srcIp dstIp : List UInt8) (protocol : UInt8) (payload : List UInt8) :
    UInt16 :=
  let sum := ipChecksumPartial (pseudoHeaderV4 srcIp dstIp protocol (.ofNat payload.length)) 0
  ipChecksumFold (ipChecksumPartial payload sum)

/-- The pseudo-header of `tcp_udp_v6_header_checksum_partial`. `htonl` stores the high
byte first. -/
def pseudoHeaderV6 (srcIp dstIp : List UInt8) (protocol : UInt8) (len : UInt32) :
    List UInt8 :=
  srcIp ++ dstIp ++ (leBytes 4 len.toNat).reverse ++ [0, 0, 0] ++ [protocol]

/-- `tcp_udp_v6_checksum`. -/
def tcpUdpV6Checksum (srcIp dstIp : List UInt8) (protocol : UInt8) (payload : List UInt8) :
    UInt16 :=
  let sum := ipChecksumPartial (pseudoHeaderV6 srcIp dstIp protocol (.ofNat payload.length)) 0
  ipChecksumFold (ipChecksumPartial payload sum)

/-! ## Packets -/

/-- A field of type `__be16`, after `ntohs`. -/
def be16At (packet : List UInt8) (off : Nat) : Option UInt16 :=
  (slice packet off 2).map fun x => ntohs (.ofNat (leNat x))

/-- A checksum field set to zero, and then to the checksum. -/
def fillCheck (packet : List UInt8) (off : Nat)
    (checksum : List UInt8 → Option UInt16) : Option (List UInt8) := do
  let packet ← blit packet off [0, 0]
  let check ← checksum packet
  blit packet off (leBytes 2 check.toNat)

/-- `tcp_udp_v4_checksum` with the addresses in the packet, for a header at `off`. -/
def layer4ChecksumV4 (protocol : UInt8) (off : Nat) (l4Bytes : Int) (packet : List UInt8) :
    Option UInt16 := do
  let srcIp ← slice packet 12 4
  let dstIp ← slice packet 16 4
  let payload ← slice packet off (l4Bytes % 2 ^ 16).toNat
  return tcpUdpV4Checksum srcIp dstIp protocol payload

/-- `checksum_ipv4_packet`. -/
def checksumIpv4Packet (packet : List UInt8) : Option (List UInt8) := do
  let first ← packet[0]?
  let headerLen := (first &&& 0xf).toNat * 4
  let packet ← fillCheck packet 10 fun packet => (slice packet 0 headerLen).map ipv4Checksum
  let totLen ← be16At packet 2
  let l4Bytes : Int := totLen.toNat - headerLen
  let protocol ← packet[9]?
  if protocol = 6 then
    fillCheck packet (headerLen + 16) (layer4ChecksumV4 6 headerLen l4Bytes)
  else if protocol = 17 then
    fillCheck packet (headerLen + 6) (layer4ChecksumV4 17 headerLen l4Bytes)
  else if protocol = 1 then
    fillCheck packet (headerLen + 2) fun packet =>
      (slice packet headerLen (l4Bytes % 2 ^ 64).toNat).map ipv4Checksum
  else some packet

/-- `tcp_udp_v6_checksum` with the addresses in the packet. -/
def layer4ChecksumV6 (protocol : UInt8) (l4Bytes : Nat) (packet : List UInt8) :
    Option UInt16 := do
  let srcIp ← slice packet 8 16
  let dstIp ← slice packet 24 16
  let payload ← slice packet 40 l4Bytes
  return tcpUdpV6Checksum srcIp dstIp protocol payload

/-- `checksum_ipv6_packet`. -/
def checksumIpv6Packet (packet : List UInt8) : Option (List UInt8) := do
  let l4Bytes := (← be16At packet 4).toNat
  let nextHeader ← packet[6]?
  if nextHeader = 6 then fillCheck packet (40 + 16) (layer4ChecksumV6 6 l4Bytes)
  else if nextHeader = 17 then fillCheck packet (40 + 6) (layer4ChecksumV6 17 l4Bytes)
  else if nextHeader = 58 then fillCheck packet (40 + 2) (layer4ChecksumV6 58 l4Bytes)
  else some packet

/-- `checksum_packet`. -/
def checksumPacket (packet : List UInt8) : Option (List UInt8) := do
  let first ← packet[0]?
  let version := first >>> 4
  if version = 4 then checksumIpv4Packet packet
  else if version = 6 then checksumIpv6Packet packet
  else some packet

end Daenet.Ref
