import Daenet.Ref.Checksum

/-!
# The checksums are the ones of the standard

The standard adds words of 16 bits, high byte first, and carries around at every step
(`onesSum`). The code adds words of 32 bits, low byte first, in 64 bits, and folds at
the end. Both keep the residue modulo `2 ^ 16 - 1` and whether the sum is zero, up to a
factor of 256 for the order of the bytes, which the final `ntohs` undoes.

It follows that a receiver that adds what a checksum covers, with the checksum in it,
gets a word of ones once the checksums are filled in. The pseudo-headers it adds are
those of RFC 793, 3.1, and of RFC 2460, 8.1, written down here once more, byte by byte.
The second one also says that a UDP datagram whose checksum comes to zero carries ones
instead, since a receiver discards a zero. The code leaves the zero, so that exactly
these datagrams do not verify over IPv6.
-/

namespace Daenet.Proofs

open Daenet.Lib Daenet.Ref

/-! ## The sum of the standard -/

/-- The ones' complement sum of the 16-bit words, high byte first; an odd byte stands in
front of a zero. -/
def onesSum : List UInt8 → Nat
  | a :: b :: p => endAround 65535 (a.toNat * 256 + b.toNat) (onesSum p)
  | [a] => a.toNat * 256
  | [] => 0

/-- The same words without any carry. -/
def beSum : List UInt8 → Nat
  | a :: b :: p => a.toNat * 256 + b.toNat + beSum p
  | [a] => a.toNat * 256
  | [] => 0

theorem onesSum_eq (p : List UInt8) : onesSum p = carry 65535 (beSum p) := by
  fun_induction beSum p with
  | case1 a b p ih =>
      have ha := a.toNat_lt
      have hb := b.toNat_lt
      have hle : carry 65535 (beSum p) ≤ 65535 := carry_le (by decide) _
      rw [onesSum, ih, endAround_eq (by omega) hle, Nat.add_comm, carry_carry_add,
        Nat.add_comm]
  | case2 a =>
      have ha := a.toNat_lt
      rw [onesSum, carry_of_le (by omega)]
  | case3 => rfl

/-- Words do not cross the border when the first part has an even number of bytes. -/
theorem beSum_append {p q : List UInt8} (h : p.length % 2 = 0) :
    beSum (p ++ q) = beSum p + beSum q := by
  fun_induction beSum p with
  | case1 a b p ih =>
      have heven : p.length % 2 = 0 := by
        rw [List.length_cons, List.length_cons] at h
        omega
      rw [List.cons_append, List.cons_append, beSum, ih heven,
        ← Nat.add_assoc]
  | case2 a => cases h
  | case3 => rw [List.nil_append, Nat.zero_add]

/-! ## The sum of the code -/

/-- What `ip_checksum_partial` adds. -/
def leSum : List UInt8 → Nat
  | a :: b :: c :: d :: p => leNat [a, b, c, d] + leSum p
  | [a, b, c] => leNat [a, b] + c.toNat
  | [a, b] => leNat [a, b]
  | [a] => a.toNat
  | [] => 0

theorem leSum_le (p : List UInt8) : leSum p ≤ p.length * 2 ^ 31 := by
  fun_induction leSum p with
  | case1 a b c d p ih =>
      have hlt := leNat_lt [a, b, c, d]
      simp only [List.length_cons, List.length_nil] at hlt ⊢
      omega
  | case2 a b c =>
      have hlt := leNat_lt [a, b]
      have hc := c.toNat_lt
      simp only [List.length_cons, List.length_nil] at hlt ⊢
      omega
  | case3 a b =>
      have hlt := leNat_lt [a, b]
      simp only [List.length_cons, List.length_nil] at hlt ⊢
      omega
  | case4 a =>
      have ha := a.toNat_lt
      simp only [List.length_cons, List.length_nil]
      omega
  | case5 => exact Nat.zero_le _

theorem ntohs_toNat (x : UInt16) :
    (ntohs x).toNat = x.toNat % 256 * 256 + x.toNat / 256 := by
  have hlt := x.toNat_lt
  have hleft : (x <<< 8).toNat = (x.toNat % 256) <<< 8 := by
    rw [UInt16.toNat_shiftLeft]
    change x.toNat <<< 8 % 2 ^ 16 = _
    rw [Nat.shiftLeft_eq, Nat.shiftLeft_eq]
    omega
  have hright : (x >>> 8).toNat = x.toNat / 256 := by
    rw [UInt16.toNat_shiftRight, Nat.shiftRight_eq_div_pow]
    rfl
  rw [ntohs, UInt16.toNat_or, hleft, hright,
    ← Nat.shiftLeft_add_eq_or_of_lt (by omega : x.toNat / 256 < 2 ^ 8), Nat.shiftLeft_eq]

/-- A byte in front of a zero, low byte first, is the byte. -/
theorem ntohs_byte (a : UInt8) : (ntohs (a.toUInt16 <<< 8)).toUInt64.toNat = a.toNat := by
  have ha := a.toNat_lt
  have hshift : (a.toUInt16 <<< 8).toNat = a.toNat * 256 := by
    rw [UInt16.toNat_shiftLeft]
    change a.toNat <<< 8 % 2 ^ 16 = _
    rw [Nat.shiftLeft_eq]
    omega
  rw [UInt16.toNat_toUInt64, ntohs_toNat, hshift]
  omega

theorem toNat_add_ofNat {sum : UInt64} {n : Nat} (h : sum.toNat + n < 2 ^ 64) :
    (sum + .ofNat n).toNat = sum.toNat + n := by
  rw [UInt64.toNat_add, UInt64.toNat_ofNat', Nat.add_mod_mod, Nat.mod_eq_of_lt h]

theorem ipChecksumPartial_toNat {p : List UInt8} {sum : UInt64}
    (h : sum.toNat + leSum p < 2 ^ 64) :
    (ipChecksumPartial p sum).toNat = sum.toNat + leSum p := by
  fun_induction ipChecksumPartial p sum with
  | case1 a b c d p sum ih =>
      rw [leSum] at h ⊢
      have hword := toNat_add_ofNat (show sum.toNat + leNat [a, b, c, d] < 2 ^ 64 by omega)
      rw [ih (by omega), hword, Nat.add_assoc]
  | case2 a b c sum =>
      rw [leSum] at h ⊢
      rw [UInt64.toNat_add, toNat_add_ofNat (by omega), ntohs_byte,
        Nat.mod_eq_of_lt (by omega), Nat.add_assoc]
  | case3 a b sum => exact toNat_add_ofNat h
  | case4 a sum =>
      rw [leSum] at h ⊢
      rw [UInt64.toNat_add, ntohs_byte, Nat.mod_eq_of_lt h]
  | case5 sum => rfl

/-- The two sums have the same residue, up to the order of the bytes. -/
theorem beSum_modEq (p : List UInt8) : beSum p ≡ 256 * leSum p [MOD 65535] := by
  fun_induction leSum p with
  | case1 a b c d p ih =>
      simp only [Nat.ModEq, beSum, leNat] at ih ⊢
      omega
  | case2 a b c =>
      simp only [Nat.ModEq, beSum, leNat]
      omega
  | case3 a b =>
      simp only [Nat.ModEq, beSum, leNat]
      omega
  | case4 a =>
      simp only [Nat.ModEq, beSum]
      omega
  | case5 => rfl

theorem beSum_eq_zero (p : List UInt8) : beSum p = 0 ↔ leSum p = 0 := by
  fun_induction leSum p with
  | case1 a b c d p ih =>
      simp only [beSum, leNat]
      omega
  | case2 a b c =>
      simp only [beSum, leNat]
      omega
  | case3 a b =>
      simp only [beSum, leNat]
      omega
  | case4 a =>
      simp only [beSum]
      omega
  | case5 => exact Iff.rfl

/-! ## Folding -/

theorem fold32_spec (sum : UInt64) :
    (fold32 sum).toNat < 2 ^ 32 ∧
      carry 65535 (fold32 sum).toNat = carry 65535 sum.toNat := by
  fun_induction fold32 sum with
  | case1 sum h ih =>
      rw [foldTurn32, carry_fold (by decide) (by decide)] at ih
      exact ih
  | case2 sum h =>
      exact ⟨Nat.lt_of_not_le fun hle => h (high32_ne_zero.mpr hle), rfl⟩

theorem fold16_spec {sum : UInt64} (hsum : sum.toNat < 2 ^ 32) :
    (fold16 sum).toNat = carry 65535 sum.toNat := by
  fun_induction fold16 sum with
  | case1 sum h ih =>
      rw [foldTurn16, carry_fold (by decide) (by decide)] at ih
      exact ih (by omega)
  | case2 sum h =>
      have hlt := high16_eq_zero hsum (Decidable.not_not.mp h)
      exact (carry_of_le (by omega)).symm

theorem ipChecksumFold_toNat (sum : UInt64) :
    (ipChecksumFold sum).toNat = 65535 - carry 65535 sum.toNat := by
  obtain ⟨hlt, hcarry⟩ := fold32_spec sum
  have hle := carry_le (show 0 < 65535 by decide) sum.toNat
  have hfold : (fold16 (fold32 sum)).toNat = carry 65535 sum.toNat := by
    rw [fold16_spec hlt, hcarry]
  rw [ipChecksumFold, UInt64.toNat_toUInt16, UInt64.toNat_not, hfold]
  change (2 ^ 64 - 1 - carry 65535 sum.toNat) % 2 ^ 16 = _
  omega

/-- Folding the sum of the code gives, in network order, the complement of the sum of
the standard. -/
theorem ntohs_fold {p : List UInt8} {sum : UInt64} (h : sum.toNat = leSum p) :
    (ntohs (ipChecksumFold sum)).toNat = 65535 - onesSum p := by
  have hle := carry_le (show 0 < 65535 by decide) (leSum p)
  have hswap : onesSum p = carry 65535 (leSum p) % 256 * 256 + carry 65535 (leSum p) / 256 := by
    generalize hx : carry 65535 (leSum p) = x at hle
    rw [onesSum_eq, ← carry_of_le (show x % 256 * 256 + x / 256 ≤ 65535 by omega)]
    refine carry_congr ?_ ?_
    · calc beSum p
          _ ≡ 256 * leSum p [MOD 65535] := beSum_modEq p
          _ ≡ 256 * x [MOD 65535] := ((hx ▸ carry_modEq 65535 (leSum p)).symm).mul_left 256
          _ ≡ x % 256 * 256 + x / 256 [MOD 65535] := by
              simp only [Nat.ModEq]
              omega
    · rw [beSum_eq_zero, ← carry_eq_zero (M := 65535), hx]
      omega
  rw [ntohs_toNat, ipChecksumFold_toNat, h, hswap]
  omega

/-- `ipv4_checksum` is, in network order, the complement of the sum of the standard, for
every memory of less than `2 ^ 32` bytes. -/
theorem ipv4_checksum_is_standard {p : List UInt8} (h : p.length < 2 ^ 32) :
    (ntohs (ipv4Checksum p)).toNat = 65535 - onesSum p := by
  have hle := leSum_le p
  refine ntohs_fold ?_
  rw [ipChecksumPartial_toNat (by rw [UInt64.toNat_zero]; omega), UInt64.toNat_zero,
    Nat.zero_add]

theorem ipv4_checksum_is_standard_odd :
    (ntohs (ipv4Checksum [0x45, 0xff, 0x10])).toNat = 65535 - onesSum [0x45, 0xff, 0x10] :=
  ipv4_checksum_is_standard (by decide)

/-! ## With a pseudo-header -/

theorem leSum_append {p q : List UInt8} (h : p.length % 4 = 0) :
    leSum (p ++ q) = leSum p + leSum q := by
  fun_induction leSum p with
  | case1 a b c d p ih =>
      have hrest : p.length % 4 = 0 := by
        simp only [List.length_cons] at h
        omega
      simp only [List.cons_append]
      rw [leSum, ih hrest, Nat.add_assoc]
  | case2 a b c => cases h
  | case3 a b => cases h
  | case4 a => cases h
  | case5 => rw [List.nil_append, Nat.zero_add]

/-- Two calls of `ip_checksum_partial`, one after the other. -/
theorem ntohs_fold_append {pseudo p : List UInt8} (hpseudo : pseudo.length % 4 = 0)
    (h : pseudo.length + p.length < 2 ^ 32) :
    (ntohs (ipChecksumFold (ipChecksumPartial p (ipChecksumPartial pseudo 0)))).toNat =
      65535 - onesSum (pseudo ++ p) := by
  have hle := leSum_le pseudo
  have hle' := leSum_le p
  have hfirst : (ipChecksumPartial pseudo 0).toNat = leSum pseudo := by
    rw [ipChecksumPartial_toNat (by rw [UInt64.toNat_zero]; omega), UInt64.toNat_zero,
      Nat.zero_add]
  refine ntohs_fold ?_
  rw [ipChecksumPartial_toNat (by rw [hfirst]; omega), hfirst, leSum_append hpseudo]

/-! ## Filling a checksum in -/

/-- A checksum, stored low byte first, as a word of the standard. -/
theorem beSum_leBytes (x : UInt16) : beSum (leBytes 2 x.toNat) = (ntohs x).toNat := by
  have hx := x.toNat_lt
  rw [ntohs_toNat]
  simp only [leBytes, beSum, UInt8.toNat_ofNat']
  omega

/-- A sum over a field of zeros, and the one over its complement in that field. -/
theorem onesSum_filled {a b : List UInt8} {check : UInt16} (ha : a.length % 2 = 0)
    (hcheck : (ntohs check).toNat = 65535 - onesSum (a ++ ([0, 0] ++ b))) :
    onesSum (a ++ (leBytes 2 check.toNat ++ b)) = 65535 := by
  have hzeros : beSum (a ++ ([0, 0] ++ b)) = beSum a + beSum b := by
    rw [beSum_append ha]
    change beSum a + (0 + beSum b) = _
    rw [Nat.zero_add]
  have hfilled : beSum (a ++ (leBytes 2 check.toNat ++ b)) =
      beSum a + beSum b + (65535 - onesSum (a ++ ([0, 0] ++ b))) := by
    rw [beSum_append ha, beSum_append (by rw [leBytes_length]), beSum_leBytes, hcheck]
    omega
  rw [onesSum_eq, hfilled, onesSum_eq, hzeros, carry_add_complement (by decide)]

/-- What `fillCheck` does: the field of zeros, the checksum of that memory, and the
checksum in the field. -/
theorem fillCheck_eq_some {packet packet' : List UInt8} {off : Nat}
    {checksum : List UInt8 → Option UInt16} :
    fillCheck packet off checksum = some packet' ↔
      ∃ zeroed check, blit packet off [0, 0] = some zeroed ∧ checksum zeroed = some check ∧
        blit zeroed off (leBytes 2 check.toNat) = some packet' := by
  simp only [fillCheck, Option.bind_eq_bind, Option.bind_eq_some_iff]
  constructor
  · rintro ⟨zeroed, hzeroed, check, hcheck, hfilled⟩
    exact ⟨zeroed, check, hzeroed, hcheck, hfilled⟩
  · rintro ⟨zeroed, check, hzeroed, hcheck, hfilled⟩
    exact ⟨zeroed, hzeroed, check, hcheck, hfilled⟩

/-- Nothing but the field changes. -/
structure Filled (packet : List UInt8) (off : Nat) (packet' : List UInt8) : Prop where
  length : packet'.length = packet.length
  before : ∀ o n, o + n ≤ off → slice packet' o n = slice packet o n
  after : ∀ o n, off + 2 ≤ o → slice packet' o n = slice packet o n

theorem Filled.of_blit {packet packet' cells : List UInt8} {off : Nat}
    (h : blit packet off cells = some packet') (hcells : cells.length = 2) :
    Filled packet off packet' := by
  have hw := Wrote.of_blit h
  exact ⟨hw.length, hw.before, fun o n ho => hw.after o n (by omega)⟩

theorem Filled.trans {packet zeroed packet' : List UInt8} {off : Nat}
    (h : Filled packet off zeroed) (h' : Filled zeroed off packet') :
    Filled packet off packet' where
  length := h'.length.trans h.length
  before := fun o n ho => (h'.before o n ho).trans (h.before o n ho)
  after := fun o n ho => (h'.after o n ho).trans (h.after o n ho)

theorem slice_one (packet : List UInt8) (i : Nat) :
    slice packet i 1 = packet[i]?.map fun x => [x] := by
  unfold slice
  split
  · next h =>
      have hi : i < packet.length := h
      rw [List.getElem?_eq_getElem hi, List.drop_eq_getElem_cons hi]
      rfl
  · next h =>
      rw [List.getElem?_eq_none (by omega)]
      rfl

theorem getElem?_of_slice {packet packet' : List UInt8} {i : Nat}
    (h : slice packet' i 1 = slice packet i 1) : packet'[i]? = packet[i]? := by
  rw [slice_one, slice_one] at h
  cases hx : packet[i]? with
  | none =>
      rw [hx] at h
      exact Option.map_eq_none_iff.mp h
  | some x =>
      rw [hx] at h
      obtain ⟨y, hy, heq⟩ := Option.map_eq_some_iff.mp h
      cases heq
      exact hy

theorem Filled.getElem? {packet packet' : List UInt8} {off i : Nat}
    (h : Filled packet off packet') (hi : i < off ∨ off + 2 ≤ i) :
    packet'[i]? = packet[i]? :=
  getElem?_of_slice (hi.elim (h.before i 1) (h.after i 1))

/-- A range with a field in it: what stands before and behind is the same. -/
theorem slice_around {packet packet' cells : List UInt8} {off lo len : Nat}
    (h : Wrote packet off cells packet') (hlo : lo ≤ off)
    (hin : off + cells.length ≤ lo + len) (hlen : lo + len ≤ packet.length) :
    slice packet' lo len = some (((packet.drop lo).take (off - lo)) ++ (cells ++
      (packet.drop (off + cells.length)).take (lo + len - (off + cells.length)))) := by
  have hbefore := h.before lo (off - lo) (by omega)
  have hafter := h.after (off + cells.length) (lo + len - (off + cells.length)) (by omega)
  rw [slice_eq_some (show lo + (off - lo) ≤ packet.length by omega)] at hbefore
  rw [slice_eq_some (show off + cells.length + (lo + len - (off + cells.length)) ≤
    packet.length by omega)] at hafter
  have hback := slice_append h.here hafter
  have hall := slice_append hbefore (by rw [Nat.add_sub_cancel' hlo]; exact hback)
  have hsum : off - lo + (cells.length + (lo + len - (off + cells.length))) = len := by
    omega
  rw [hsum] at hall
  exact hall

/-- A range with zeros in the checksum field at `off`. -/
def withoutCheck (packet : List UInt8) (off lo len : Nat) : List UInt8 :=
  (packet.drop lo).take (off - lo) ++
    ([0, 0] ++ (packet.drop (off + 2)).take (lo + len - (off + 2)))

theorem onesSum_le (p : List UInt8) : onesSum p ≤ 65535 := by
  rw [onesSum_eq]
  exact carry_le (by decide) _

theorem leBytes_eq_zeros {x : UInt16} : leBytes 2 x.toNat = [0, 0] ↔ (ntohs x).toNat = 0 := by
  have hx := x.toNat_lt
  rw [ntohs_toNat]
  constructor
  · intro h
    have hnat := leNat_leBytes 2 x.toNat
    rw [h] at hnat
    change 0 = _ at hnat
    omega
  · intro h
    rw [show x.toNat = 0 by omega]
    rfl

/-- A field that is filled with the checksum of `pre` and the range that it lies in, and
when it is filled with zeros. -/
theorem fillCheck_verifies {packet : List UInt8} (pre : List UInt8) {off lo len : Nat}
    {checksum : List UInt8 → Option UInt16} (hlo : lo ≤ off) (hin : off + 2 ≤ lo + len)
    (hlen : lo + len ≤ packet.length) (heven : (pre.length + (off - lo)) % 2 = 0)
    (hcheck : ∀ zeroed r, Filled packet off zeroed → slice zeroed lo len = some r →
      ∃ check, checksum zeroed = some check ∧
        (ntohs check).toNat = 65535 - onesSum (pre ++ r)) :
    ∃ packet' r, fillCheck packet off checksum = some packet' ∧
      Filled packet off packet' ∧ slice packet' lo len = some r ∧
      onesSum (pre ++ r) = 65535 ∧ (slice packet' off 2 = some [0, 0] ↔
        onesSum (pre ++ withoutCheck packet off lo len) = 65535) := by
  obtain ⟨zeroed, hzeroed, hwrote⟩ := blit_spec packet off [0, 0]
    (show off + 2 ≤ packet.length by omega)
  have hfilled := Filled.of_blit hzeroed rfl
  have hr := slice_around hwrote hlo hin hlen
  obtain ⟨check, hsome, hcomplement⟩ := hcheck zeroed _ hfilled hr
  obtain ⟨packet', hpacket', hwrote'⟩ := blit_spec zeroed off (leBytes 2 check.toNat)
    (by rw [leBytes_length, hfilled.length]; omega)
  have hfilled' := Filled.of_blit hpacket' (leBytes_length ..)
  have hr' := slice_around hwrote' hlo (by rw [leBytes_length]; omega)
    (by rw [hfilled.length]; omega)
  refine ⟨packet', _, fillCheck_eq_some.mpr ⟨zeroed, check, hzeroed, hsome, hpacket'⟩,
    hfilled.trans hfilled', hr', ?_, ?_⟩
  swap
  · have hfield := hwrote'.here
    have hle := onesSum_le (pre ++ withoutCheck packet off lo len)
    rw [leBytes_length] at hfield
    rw [hfield, Option.some.injEq, leBytes_eq_zeros, hcomplement]
    change 65535 - onesSum (pre ++ withoutCheck packet off lo len) = 0 ↔ _
    omega
  -- in front of the field and behind it, the two memories are the same
  have hsame := hfilled.before lo (off - lo) (by omega)
  have hsame' := hfilled.after (off + 2) (lo + len - (off + 2)) (by omega)
  rw [slice_eq_some (by rw [hfilled.length]; omega), slice_eq_some (by omega)] at hsame hsame'
  rw [leBytes_length, Option.some.inj hsame, Option.some.inj hsame', ← List.append_assoc]
  refine onesSum_filled ?_ ?_
  · rw [List.length_append, List.length_take, List.length_drop]
    omega
  · rw [List.append_assoc]
    exact hcomplement

/-! ## Packets -/

/-- Where the checksum is in the header behind the one of IPv4. -/
def checkFieldV4 (protocol : UInt8) : Option Nat :=
  if protocol = 6 then some 16
  else if protocol = 17 then some 6
  else if protocol = 1 then some 2
  else none

/-- An IPv4 packet of which all that the lengths in it say is there, and the checksum of
a known protocol too. -/
structure IsV4 (packet : List UInt8) (headerLen l4Bytes : Nat) (protocol : UInt8) :
    Prop where
  first : ∃ first : UInt8, packet[0]? = some first ∧ first >>> 4 = 4 ∧
    (first &&& 0xf).toNat * 4 = headerLen
  totLen : ∃ totLen, be16At packet 2 = some totLen ∧ totLen.toNat = headerLen + l4Bytes
  proto : packet[9]? = some protocol
  header : 20 ≤ headerLen
  inside : headerLen + l4Bytes ≤ packet.length
  field : ∀ off, checkFieldV4 protocol = some off → off + 2 ≤ l4Bytes

/-- The pseudo-header of RFC 793: the addresses, a zero, the protocol, and the length of
the segment, high byte first. -/
def rfcPseudoHeaderV4 (srcIp dstIp : List UInt8) (protocol : UInt8) (length : Nat) :
    List UInt8 :=
  srcIp ++ dstIp ++ [0, protocol, .ofNat (length / 2 ^ 8), .ofNat length]

theorem pseudoHeaderV4_eq (srcIp dstIp : List UInt8) (protocol : UInt8) {length : Nat}
    (h : length < 2 ^ 16) :
    pseudoHeaderV4 srcIp dstIp protocol (.ofNat length) =
      rfcPseudoHeaderV4 srcIp dstIp protocol length := by
  have hnat : (UInt16.ofNat length).toNat = length := by
    rw [UInt16.toNat_ofNat', Nat.mod_eq_of_lt h]
  have hlow : UInt8.ofNat (length % 256 * 256 + length / 256) = .ofNat (length / 2 ^ 8) := by
    rw [← UInt8.toNat_inj, UInt8.toNat_ofNat', UInt8.toNat_ofNat']
    omega
  have hhigh : UInt8.ofNat ((length % 256 * 256 + length / 256) / 256) = .ofNat length := by
    have hdiv : (length % 256 * 256 + length / 256) / 256 = length % 256 := by omega
    rw [← UInt8.toNat_inj, UInt8.toNat_ofNat', UInt8.toNat_ofNat', hdiv]
    exact Nat.mod_mod length 256
  rw [pseudoHeaderV4, rfcPseudoHeaderV4, ntohs_toNat, hnat, List.append_assoc _ [0, protocol]]
  simp only [leBytes, hlow, hhigh, List.cons_append, List.nil_append]

/-- A receiver's check of an IPv4 packet. -/
def VerifiesV4 (packet : List UInt8) (headerLen l4Bytes : Nat) (protocol : UInt8) : Prop :=
  ∃ header srcIp dstIp payload, slice packet 0 headerLen = some header ∧
    slice packet 12 4 = some srcIp ∧ slice packet 16 4 = some dstIp ∧
    slice packet headerLen l4Bytes = some payload ∧ onesSum header = 65535 ∧
    (protocol = 6 ∨ protocol = 17 →
      onesSum (rfcPseudoHeaderV4 srcIp dstIp protocol l4Bytes ++ payload) = 65535) ∧
    (protocol = 1 → onesSum payload = 65535)

/-- A checksum without a pseudo-header. -/
theorem fill_plain {packet : List UInt8} {off lo len : Nat} (hlo : lo ≤ off)
    (hin : off + 2 ≤ lo + len) (hlen : lo + len ≤ packet.length) (heven : (off - lo) % 2 = 0)
    (hsmall : len < 2 ^ 32) :
    ∃ packet' r, fillCheck packet off
        (fun packet => (slice packet lo len).map ipv4Checksum) = some packet' ∧
      Filled packet off packet' ∧ slice packet' lo len = some r ∧ onesSum r = 65535 := by
  have hcheck : ∀ zeroed r, Filled packet off zeroed → slice zeroed lo len = some r →
      ∃ check, (slice zeroed lo len).map ipv4Checksum = some check ∧
        (ntohs check).toNat = 65535 - onesSum ([] ++ r) := by
    intro zeroed r _ hr
    refine ⟨ipv4Checksum r, by rw [hr]; rfl, ?_⟩
    rw [List.nil_append]
    exact ipv4_checksum_is_standard (by rw [(slice_bound hr).2]; exact hsmall)
  obtain ⟨packet', r, hfill, hfilled, hr, hsum, -⟩ := fillCheck_verifies [] hlo hin hlen
    (by rw [List.length_nil, Nat.zero_add]; exact heven) hcheck
  exact ⟨packet', r, hfill, hfilled, hr, hsum⟩

theorem fill_layer4V4 {packet srcIp dstIp : List UInt8} {headerLen l4Bytes off : Nat}
    (protocol : UInt8) (hsrc : slice packet 12 4 = some srcIp)
    (hdst : slice packet 16 4 = some dstIp) (hheader : 20 ≤ headerLen)
    (hfield : off + 2 ≤ l4Bytes) (hinside : headerLen + l4Bytes ≤ packet.length)
    (heven : off % 2 = 0) (hsmall : l4Bytes < 2 ^ 16) :
    ∃ packet' payload, fillCheck packet (headerLen + off)
        (layer4ChecksumV4 protocol headerLen l4Bytes) = some packet' ∧
      Filled packet (headerLen + off) packet' ∧
      slice packet' headerLen l4Bytes = some payload ∧
      onesSum (rfcPseudoHeaderV4 srcIp dstIp protocol l4Bytes ++ payload) = 65535 := by
  have hpseudo : (rfcPseudoHeaderV4 srcIp dstIp protocol l4Bytes).length = 12 := by
    simp only [rfcPseudoHeaderV4, List.length_append, (slice_bound hsrc).2,
      (slice_bound hdst).2, List.length_cons, List.length_nil]
  have hcheck : ∀ zeroed payload, Filled packet (headerLen + off) zeroed →
      slice zeroed headerLen l4Bytes = some payload →
      ∃ check, layer4ChecksumV4 protocol headerLen l4Bytes zeroed = some check ∧
        (ntohs check).toNat =
          65535 - onesSum (rfcPseudoHeaderV4 srcIp dstIp protocol l4Bytes ++ payload) := by
    intro zeroed payload hfilled hpayload
    have hlength := (slice_bound hpayload).2
    refine ⟨tcpUdpV4Checksum srcIp dstIp protocol payload, ?_, ?_⟩
    · have hbytes : ((l4Bytes : Int) % 2 ^ 16).toNat = l4Bytes := by omega
      simp only [layer4ChecksumV4, Option.bind_eq_bind]
      rw [hfilled.before 12 4 (by omega), hfilled.before 16 4 (by omega), hsrc, hdst, hbytes,
        hpayload]
      rfl
    · rw [tcpUdpV4Checksum, hlength, pseudoHeaderV4_eq _ _ _ hsmall]
      exact ntohs_fold_append (by rw [hpseudo]) (by omega)
  obtain ⟨packet', payload, hfill, hfilled, hpayload, hsum, -⟩ := fillCheck_verifies
    (rfcPseudoHeaderV4 srcIp dstIp protocol l4Bytes) (Nat.le_add_right headerLen off)
    (by omega) hinside (by rw [hpseudo]; omega) hcheck
  exact ⟨packet', payload, hfill, hfilled, hpayload, hsum⟩

/-- What stays of a packet when a field is filled. -/
theorem IsV4.filled {packet packet' : List UInt8} {headerLen l4Bytes off : Nat}
    {protocol : UInt8} (h : IsV4 packet headerLen l4Bytes protocol)
    (hfilled : Filled packet off packet') (hoff : 10 ≤ off) :
    IsV4 packet' headerLen l4Bytes protocol where
  first := by
    rw [hfilled.getElem? (.inl (by omega))]
    exact h.first
  totLen := by
    rw [be16At, hfilled.before 2 2 (by omega)]
    exact h.totLen
  proto := by
    rw [hfilled.getElem? (.inl (by omega))]
    exact h.proto
  header := h.header
  inside := by
    rw [hfilled.length]
    exact h.inside
  field := h.field

theorem IsV4.small {packet : List UInt8} {headerLen l4Bytes : Nat} {protocol : UInt8}
    (h : IsV4 packet headerLen l4Bytes protocol) : headerLen ≤ 60 ∧ l4Bytes < 2 ^ 16 := by
  obtain ⟨first, -, -, hheader⟩ := h.first
  obtain ⟨totLen, -, htotal⟩ := h.totLen
  have hlt := totLen.toNat_lt
  have hnibble : (first &&& 0xf).toNat ≤ 15 := by
    rw [UInt8.toNat_and]
    exact Nat.and_le_right
  omega

/-- The second part of `checksum_ipv4_packet`. -/
theorem checksumIpv4Packet_eq {packet packet' : List UInt8} {headerLen l4Bytes : Nat}
    {protocol : UInt8} (h : IsV4 packet headerLen l4Bytes protocol)
    (h' : IsV4 packet' headerLen l4Bytes protocol)
    (hfill : fillCheck packet 10 (fun packet => (slice packet 0 headerLen).map ipv4Checksum) =
      some packet') :
    checksumIpv4Packet packet =
      if protocol = 6 then
        fillCheck packet' (headerLen + 16) (layer4ChecksumV4 6 headerLen l4Bytes)
      else if protocol = 17 then
        fillCheck packet' (headerLen + 6) (layer4ChecksumV4 17 headerLen l4Bytes)
      else if protocol = 1 then
        fillCheck packet' (headerLen + 2) fun packet =>
          (slice packet headerLen l4Bytes).map ipv4Checksum
      else some packet' := by
  obtain ⟨first, hfirst, -, hheader⟩ := h.first
  obtain ⟨totLen, htotLen, htotal⟩ := h'.totLen
  have hsmall := h.small
  have hbytes : (totLen.toNat : Int) - headerLen = l4Bytes := by omega
  have hplain : ((l4Bytes : Int) % 2 ^ 64).toNat = l4Bytes := by omega
  rw [checksumIpv4Packet]
  simp only [hfirst, Option.bind_eq_bind, Option.bind_some, hheader, hfill, htotLen, h'.proto,
    hbytes, hplain]

theorem checksumIpv4Packet_verifies {packet : List UInt8} {headerLen l4Bytes : Nat}
    {protocol : UInt8} (h : IsV4 packet headerLen l4Bytes protocol) :
    ∃ packet', checksumIpv4Packet packet = some packet' ∧ packet'.length = packet.length ∧
      (∀ i, i ≠ 10 → i ≠ 11 → (∀ off, checkFieldV4 protocol = some off →
        i ≠ headerLen + off ∧ i ≠ headerLen + off + 1) → packet'[i]? = packet[i]?) ∧
      VerifiesV4 packet' headerLen l4Bytes protocol := by
  obtain ⟨hheader60, hbytes⟩ := h.small
  have hheader := h.header
  have hinside := h.inside
  have hheaderIn : 0 + headerLen ≤ packet.length := by omega
  obtain ⟨packet₁, header, hfill, hfilled, hslice, hsum⟩ := fill_plain
    (show 0 ≤ 10 by omega) (show 10 + 2 ≤ 0 + headerLen by omega) hheaderIn rfl (by omega)
  have h₁ := h.filled hfilled (Nat.le_refl 10)
  have hinside₁ := h₁.inside
  rw [checksumIpv4Packet_eq h h₁ hfill]
  have hsrc := slice_eq_some (show 12 + 4 ≤ packet₁.length by omega)
  have hdst := slice_eq_some (show 16 + 4 ≤ packet₁.length by omega)
  have hframe : ∀ i, i ≠ 10 → i ≠ 11 → packet₁[i]? = packet[i]? :=
    fun i h10 h11 => hfilled.getElem? (by omega)
  -- what is left to show once the second field is filled
  have hsecond : ∀ off packet₂ payload, checkFieldV4 protocol = some off →
      Filled packet₁ (headerLen + off) packet₂ →
      slice packet₂ headerLen l4Bytes = some payload →
      (protocol = 6 ∨ protocol = 17 → onesSum (rfcPseudoHeaderV4 ((packet₁.drop 12).take 4)
        ((packet₁.drop 16).take 4) protocol l4Bytes ++ payload) = 65535) →
      (protocol = 1 → onesSum payload = 65535) →
      packet₂.length = packet.length ∧
        (∀ i, i ≠ 10 → i ≠ 11 → (∀ off, checkFieldV4 protocol = some off →
          i ≠ headerLen + off ∧ i ≠ headerLen + off + 1) → packet₂[i]? = packet[i]?) ∧
        VerifiesV4 packet₂ headerLen l4Bytes protocol := by
    intro off packet₂ payload hoff hfilled₂ hpayload hpseudo hplain
    refine ⟨hfilled₂.length.trans hfilled.length, fun i h10 h11 hfields => ?_, ?_⟩
    · obtain ⟨hne, hne'⟩ := hfields off hoff
      rw [hfilled₂.getElem? (by omega)]
      exact hframe i h10 h11
    · refine ⟨header, _, _, payload, ?_, ?_, ?_, hpayload, hsum, hpseudo, hplain⟩
      · rw [hfilled₂.before 0 headerLen (by omega)]
        exact hslice
      · rw [hfilled₂.before 12 4 (by omega)]
        exact hsrc
      · rw [hfilled₂.before 16 4 (by omega)]
        exact hdst
  by_cases htcp : protocol = 6
  · subst htcp
    obtain ⟨packet₂, payload, hfill₂, hfilled₂, hpayload, hsum₂⟩ := fill_layer4V4 6 hsrc hdst
      hheader (h.field 16 rfl) hinside₁ rfl hbytes
    exact ⟨packet₂, hfill₂, hsecond 16 packet₂ payload rfl hfilled₂ hpayload
      (fun _ => hsum₂) fun heq => absurd heq (by decide)⟩
  by_cases hudp : protocol = 17
  · subst hudp
    obtain ⟨packet₂, payload, hfill₂, hfilled₂, hpayload, hsum₂⟩ := fill_layer4V4 17 hsrc hdst
      hheader (h.field 6 rfl) hinside₁ rfl hbytes
    exact ⟨packet₂, hfill₂, hsecond 6 packet₂ payload rfl hfilled₂ hpayload
      (fun _ => hsum₂) fun heq => absurd heq (by decide)⟩
  by_cases hicmp : protocol = 1
  · subst hicmp
    have hfield : 2 + 2 ≤ l4Bytes := h.field 2 rfl
    have hin : headerLen + 2 + 2 ≤ headerLen + l4Bytes := by omega
    obtain ⟨packet₂, payload, hfill₂, hfilled₂, hpayload, hsum₂⟩ :=
      fill_plain (Nat.le_add_right headerLen 2) hin hinside₁ (by omega) (by omega)
    exact ⟨packet₂, hfill₂, hsecond 2 packet₂ payload rfl hfilled₂ hpayload
      (fun hor => absurd hor (by decide)) fun _ => hsum₂⟩
  · rw [if_neg htcp, if_neg hudp, if_neg hicmp]
    refine ⟨packet₁, rfl, hfilled.length, fun i h10 h11 _ => hframe i h10 h11, ?_⟩
    exact ⟨header, _, _, _, hslice, hsrc, hdst, slice_eq_some hinside₁, hsum,
      fun hor => absurd hor (not_or.mpr ⟨htcp, hudp⟩), fun heq => absurd heq hicmp⟩

/-! ### IPv6 -/

/-- Where the checksum is in the header behind the one of IPv6. -/
def checkFieldV6 (protocol : UInt8) : Option Nat :=
  if protocol = 6 then some 16
  else if protocol = 17 then some 6
  else if protocol = 58 then some 2
  else none

/-- An IPv6 packet of which all that its length says is there, and the checksum of a
known protocol too. -/
structure IsV6 (packet : List UInt8) (l4Bytes : Nat) (protocol : UInt8) : Prop where
  first : ∃ first : UInt8, packet[0]? = some first ∧ first >>> 4 = 6
  payloadLen : ∃ len, be16At packet 4 = some len ∧ len.toNat = l4Bytes
  proto : packet[6]? = some protocol
  inside : 40 + l4Bytes ≤ packet.length
  field : ∀ off, checkFieldV6 protocol = some off → off + 2 ≤ l4Bytes

/-- The pseudo-header of RFC 2460: the addresses, the length of the packet behind the
header in four bytes, high byte first, three zeros and the next header. -/
def rfcPseudoHeaderV6 (srcIp dstIp : List UInt8) (nextHeader : UInt8) (length : Nat) :
    List UInt8 :=
  srcIp ++ dstIp ++ [.ofNat (length / 2 ^ 24), .ofNat (length / 2 ^ 16),
    .ofNat (length / 2 ^ 8), .ofNat length, 0, 0, 0, nextHeader]

theorem pseudoHeaderV6_eq (srcIp dstIp : List UInt8) (nextHeader : UInt8) {length : Nat}
    (h : length < 2 ^ 16) :
    pseudoHeaderV6 srcIp dstIp nextHeader (.ofNat length) =
      rfcPseudoHeaderV6 srcIp dstIp nextHeader length := by
  have hnat : (UInt32.ofNat length).toNat = length := by
    rw [UInt32.toNat_ofNat', Nat.mod_eq_of_lt (by omega)]
  rw [pseudoHeaderV6, rfcPseudoHeaderV6, hnat]
  simp only [leBytes, Nat.div_div_eq_div_mul, List.reverse_cons, List.reverse_nil,
    List.nil_append, List.cons_append, List.append_assoc]
  rfl

/-- The addresses, which a checksum over IPv6 covers too. -/
structure Addresses (packet srcIp dstIp : List UInt8) : Prop where
  src : slice packet 8 16 = some srcIp
  dst : slice packet 24 16 = some dstIp

/-- What a checksum over IPv6 covers comes to a word of ones. -/
def SumsV6 (packet : List UInt8) (l4Bytes : Nat) (protocol : UInt8) : Prop :=
  ∃ srcIp dstIp payload, Addresses packet srcIp dstIp ∧
    slice packet 40 l4Bytes = some payload ∧
    ((checkFieldV6 protocol).isSome = true →
      onesSum (rfcPseudoHeaderV6 srcIp dstIp protocol l4Bytes ++ payload) = 65535)

/-- A receiver's check of an IPv6 packet: a UDP datagram without a checksum is
discarded. -/
def VerifiesV6 (packet : List UInt8) (l4Bytes : Nat) (protocol : UInt8) : Prop :=
  SumsV6 packet l4Bytes protocol ∧ (protocol = 17 → slice packet 46 2 ≠ some [0, 0])

/-- The checksum of the datagram in the packet comes to zero. -/
def ZeroChecksumV6 (packet : List UInt8) (l4Bytes : Nat) : Prop :=
  ∃ srcIp dstIp, Addresses packet srcIp dstIp ∧
    onesSum (rfcPseudoHeaderV6 srcIp dstIp 17 l4Bytes ++ withoutCheck packet 46 40 l4Bytes) =
      65535

theorem fill_layer4V6 {packet srcIp dstIp : List UInt8} {l4Bytes off : Nat}
    (protocol : UInt8) (haddr : Addresses packet srcIp dstIp) (hfield : off + 2 ≤ l4Bytes)
    (hinside : 40 + l4Bytes ≤ packet.length) (heven : off % 2 = 0)
    (hsmall : l4Bytes < 2 ^ 16) :
    ∃ packet' payload, fillCheck packet (40 + off) (layer4ChecksumV6 protocol l4Bytes) =
        some packet' ∧ Filled packet (40 + off) packet' ∧
      slice packet' 40 l4Bytes = some payload ∧
      onesSum (rfcPseudoHeaderV6 srcIp dstIp protocol l4Bytes ++ payload) = 65535 ∧
      (slice packet' (40 + off) 2 = some [0, 0] ↔
        onesSum (rfcPseudoHeaderV6 srcIp dstIp protocol l4Bytes ++
          withoutCheck packet (40 + off) 40 l4Bytes) = 65535) := by
  have hpseudo : (rfcPseudoHeaderV6 srcIp dstIp protocol l4Bytes).length = 40 := by
    simp only [rfcPseudoHeaderV6, List.length_append, (slice_bound haddr.src).2,
      (slice_bound haddr.dst).2, List.length_cons, List.length_nil]
  refine fillCheck_verifies _ (by omega) (by omega) hinside (by rw [hpseudo]; omega) ?_
  intro zeroed payload hfilled hpayload
  have hlength := (slice_bound hpayload).2
  refine ⟨tcpUdpV6Checksum srcIp dstIp protocol payload, ?_, ?_⟩
  · simp only [layer4ChecksumV6, Option.bind_eq_bind]
    rw [hfilled.before 8 16 (by omega), hfilled.before 24 16 (by omega), haddr.src,
      haddr.dst, hpayload]
    rfl
  · rw [tcpUdpV6Checksum, hlength, pseudoHeaderV6_eq _ _ _ hsmall]
    exact ntohs_fold_append (by rw [hpseudo]) (by omega)

/-- All the protocols of IPv6 have one form of checksum. -/
theorem checksumIpv6Packet_eq {packet : List UInt8} {l4Bytes : Nat} {protocol : UInt8}
    (h : IsV6 packet l4Bytes protocol) :
    checksumIpv6Packet packet =
      match checkFieldV6 protocol with
      | some off => fillCheck packet (40 + off) (layer4ChecksumV6 protocol l4Bytes)
      | none => some packet := by
  obtain ⟨len, hlen, rfl⟩ := h.payloadLen
  rw [checksumIpv6Packet, checkFieldV6]
  simp only [hlen, Option.bind_eq_bind, Option.bind_some, h.proto]
  split
  · next heq => rw [heq]
  · split
    · next heq => rw [heq]
    · split
      · next heq => rw [heq]
      · rfl

theorem checksumIpv6Packet_verifies {packet : List UInt8} {l4Bytes : Nat} {protocol : UInt8}
    (h : IsV6 packet l4Bytes protocol) :
    ∃ packet', checksumIpv6Packet packet = some packet' ∧ packet'.length = packet.length ∧
      (∀ i, (∀ off, checkFieldV6 protocol = some off → i ≠ 40 + off ∧ i ≠ 40 + off + 1) →
        packet'[i]? = packet[i]?) ∧
      (VerifiesV6 packet' l4Bytes protocol ↔
        (protocol = 17 → ¬ ZeroChecksumV6 packet l4Bytes)) := by
  have hinside := h.inside
  have hbytes : l4Bytes < 2 ^ 16 := by
    obtain ⟨len, -, rfl⟩ := h.payloadLen
    exact len.toNat_lt
  have haddr : Addresses packet ((packet.drop 8).take 16) ((packet.drop 24).take 16) :=
    ⟨slice_eq_some (by omega), slice_eq_some (by omega)⟩
  rw [checksumIpv6Packet_eq h]
  cases hoff : checkFieldV6 protocol with
  | none =>
      have hnot : protocol ≠ 17 := by
        rintro rfl
        cases hoff
      refine ⟨packet, rfl, rfl, fun _ _ => rfl, iff_of_true ⟨⟨_, _, _, haddr,
        slice_eq_some hinside, ?_⟩, fun heq => absurd heq hnot⟩ fun heq => absurd heq hnot⟩
      rw [hoff]
      exact fun hsome => by cases hsome
  | some off =>
      have heven : off % 2 = 0 := by
        simp only [checkFieldV6] at hoff
        split at hoff
        · cases hoff
          rfl
        · split at hoff
          · cases hoff
            rfl
          · split at hoff
            · cases hoff
              rfl
            · cases hoff
      obtain ⟨packet', payload, hfill, hfilled, hpayload, hsum, hzero⟩ := fill_layer4V6
        protocol haddr (h.field off hoff) hinside heven hbytes
      have haddr' : Addresses packet' ((packet.drop 8).take 16) ((packet.drop 24).take 16) :=
        ⟨by rw [hfilled.before 8 16 (by omega)]; exact haddr.src,
          by rw [hfilled.before 24 16 (by omega)]; exact haddr.dst⟩
      refine ⟨packet', hfill, hfilled.length, fun i hi => ?_, ?_⟩
      · obtain ⟨hne, hne'⟩ := hi off rfl
        exact hfilled.getElem? (by omega)
      · refine (and_iff_right ⟨_, _, payload, haddr', hpayload, fun _ => hsum⟩).trans ?_
        refine imp_congr_right fun hudp => not_congr ?_
        subst hudp
        have hsix : off = 6 := (Option.some.inj hoff).symm
        subst hsix
        refine hzero.trans ⟨fun hones => ⟨_, _, haddr, hones⟩, ?_⟩
        rintro ⟨srcIp, dstIp, hothers, hones⟩
        rw [← Option.some.inj (hothers.src.symm.trans haddr.src),
          ← Option.some.inj (hothers.dst.symm.trans haddr.dst)]
        exact hones

/-- After `checksum_packet` every IPv4 packet verifies, and every IPv6 packet but a UDP
datagram whose checksum comes to zero; a packet differs from what it was in the fields of
the checksums only. -/
theorem checksum_packet_verifies {packet : List UInt8} :
    (∀ headerLen l4Bytes protocol, IsV4 packet headerLen l4Bytes protocol →
      ∃ packet', checksumPacket packet = some packet' ∧ packet'.length = packet.length ∧
        (∀ i, i ≠ 10 → i ≠ 11 → (∀ off, checkFieldV4 protocol = some off →
          i ≠ headerLen + off ∧ i ≠ headerLen + off + 1) → packet'[i]? = packet[i]?) ∧
        VerifiesV4 packet' headerLen l4Bytes protocol) ∧
    ∀ l4Bytes protocol, IsV6 packet l4Bytes protocol →
      ∃ packet', checksumPacket packet = some packet' ∧ packet'.length = packet.length ∧
        (∀ i, (∀ off, checkFieldV6 protocol = some off → i ≠ 40 + off ∧ i ≠ 40 + off + 1) →
          packet'[i]? = packet[i]?) ∧
        (VerifiesV6 packet' l4Bytes protocol ↔
          (protocol = 17 → ¬ ZeroChecksumV6 packet l4Bytes)) := by
  constructor
  · intro headerLen l4Bytes protocol h
    obtain ⟨first, hfirst, hversion, -⟩ := h.first
    have hpacket : checksumPacket packet = checksumIpv4Packet packet := by
      rw [checksumPacket]
      simp only [hfirst, Option.bind_eq_bind, Option.bind_some, hversion, if_true]
    rw [hpacket]
    exact checksumIpv4Packet_verifies h
  · intro l4Bytes protocol h
    obtain ⟨first, hfirst, hversion⟩ := h.first
    have hpacket : checksumPacket packet = checksumIpv6Packet packet := by
      rw [checksumPacket]
      simp only [hfirst, Option.bind_eq_bind, Option.bind_some, hversion]
      rfl
    rw [hpacket]
    exact checksumIpv6Packet_verifies h

/-- A UDP datagram of eight bytes. -/
def emptyDatagram : List UInt8 :=
  [0x45, 0, 0, 28, 0, 0, 0, 0, 64, 17, 0, 0, 10, 0, 0, 1, 10, 0, 0, 2, 0, 53, 0, 54, 0, 8, 0, 0]

theorem checksum_packet_verifies_datagram :
    IsV4 emptyDatagram 20 8 17 ∧
      ∃ packet', checksumPacket emptyDatagram = some packet' ∧
        packet'.length = emptyDatagram.length ∧ VerifiesV4 packet' 20 8 17 := by
  have hv4 : IsV4 emptyDatagram 20 8 17 := by
    refine ⟨⟨0x45, rfl, rfl, rfl⟩, ⟨28, rfl, rfl⟩, rfl, by decide, by decide, fun off hoff => ?_⟩
    cases hoff
    decide
  obtain ⟨packet', hpacket, hlength, -, hverifies⟩ := checksum_packet_verifies.1 20 8 17 hv4
  exact ⟨hv4, packet', hpacket, hlength, hverifies⟩

end Daenet.Proofs
