import Daenet.Spec.Ring

/-!
# The interval tests are clockwise arcs

`is_in_range` splits on the order of its two bounds and, on the wrapping
branch, compares in doubles. Below `2 ^ 52` the doubles are the numbers
themselves, and the three branches together are one statement: the id lies
strictly inside the arc. The sentinel `-1` lies inside none — it fails the
plain comparison by size, and on the wrapping branch it rounds up to `2 ^ 64`.
-/

namespace Daenet.Proofs

open Daenet.Lib Daenet.Ref Daenet.Spec

theorem wrap_double {m a : Nat} (hm : m ≤ 52) (ha : a < 2 ^ m) :
    addDouble (roundDouble a) (2 ^ m) = a + 2 ^ m := by
  have hpow : (2 : Nat) ^ m ≤ 2 ^ 52 := Nat.pow_le_pow_right (by omega) hm
  have h53 : (2 : Nat) ^ 53 = 2 ^ 52 + 2 ^ 52 := by omega
  rw [roundDouble_of_lt (by omega), addDouble_of_lt (by omega)]

theorem isInRange_iff {n : DAENode} (hm : n.m ≤ 52) {a b x : Nat}
    (ha : a < 2 ^ n.m) (hb : b < 2 ^ n.m) (hx : x < 2 ^ n.m) :
    n.isInRange a b x = true ↔ Between (2 ^ n.m) a x b := by
  have hpow : (2 : Nat) ^ n.m ≤ 2 ^ 52 := Nat.pow_le_pow_right (by omega) hm
  have h53 : (2 : Nat) ^ 53 = 2 ^ 52 + 2 ^ 52 := by omega
  have hxd : roundDouble x = x := roundDouble_of_lt (by omega)
  unfold DAENode.isInRange
  rw [wrap_double hm hb, hxd]
  unfold Between span cw
  split_ifs <;> simp only [Bool.and_eq_true, decide_eq_true_eq] <;> omega

theorem isInRange_noId {n : DAENode} (hm : n.m ≤ 52) {a b : Nat}
    (ha : a < 2 ^ n.m) (hb : b < 2 ^ n.m) : n.isInRange a b noId = false := by
  have hpow : (2 : Nat) ^ n.m ≤ 2 ^ 52 := Nat.pow_le_pow_right (by omega) hm
  have hno : noId = 2 ^ 64 - 1 := rfl
  have hround : roundDouble noId = 2 ^ 64 := by decide
  unfold DAENode.isInRange
  rw [wrap_double hm hb, hround]
  split_ifs
  · have : ¬ noId < b := by omega
    simp [this]
  · exact decide_eq_false (by omega)
  · exact absurd (show noId > a by omega) ‹_›

theorem isRightTightInRange_iff {n : DAENode} (hm : n.m ≤ 52) {a b x : Nat}
    (ha : a < 2 ^ n.m) (hb : b < 2 ^ n.m) (hx : x < 2 ^ n.m) :
    n.isRightTightInRange a x b = true ↔ x = b ∨ Between (2 ^ n.m) a x b := by
  unfold DAENode.isRightTightInRange
  by_cases hxb : x = b
  · simp [hxb]
  · rw [if_neg hxb, isInRange_iff hm ha hb hx]
    simp [hxb]

/-- From `a`, a key is on the right-tight arc to `b`, or `b` is strictly on the way
to the key. -/
theorem rightTight_iff_not_inRange {n : DAENode} (hm : n.m ≤ 52) {a b x : Nat}
    (ha : a < 2 ^ n.m) (hb : b < 2 ^ n.m) (hx : x < 2 ^ n.m) (hne : x ≠ a) :
    n.isRightTightInRange a x b = true ↔ ¬ (b ≠ a ∧ n.isInRange a x b = true) := by
  rw [isRightTightInRange_iff hm ha hb hx, isInRange_iff hm ha hx hb]
  constructor
  · rintro (rfl | hin) ⟨_, hout⟩
    · exact not_between_right hout
    · have hlt := hin.2
      have hlt' := hout.2
      rw [span_of_ne (Ne.symm hne)] at hlt'
      rw [span_of_ne (Ne.symm hout.1)] at hlt
      omega
  · intro hnot
    by_contra hnone
    have hout := between_of_not_tight ha hb hx (Ne.symm hne) hnone
    exact hnot ⟨hout.1, hout⟩

/-- The tests say what they are for. `is_in_range` holds of the ids that a walk
clockwise meets before the right bound, of all ids but the bound when both bounds
are the same, and never of the sentinel; the right-tight test adds the right bound;
and of the two tests a lookup makes exactly one holds. -/
theorem interval_tests_are_arcs (n : DAENode) (hm : n.m ≤ 30) (a b x : Nat)
    (ha : a < 2 ^ n.m) (hb : b < 2 ^ n.m) (hx : x < 2 ^ n.m) :
    (n.isInRange a b x = true ↔ x ≠ a ∧ x ≠ b ∧ MeetsFirst (2 ^ n.m) a x b) ∧
    (a = b → (n.isInRange a b x = true ↔ x ≠ a)) ∧
    (n.isRightTightInRange a x b = true ↔ x = b ∨ n.isInRange a b x = true) ∧
    n.isInRange a b noId = false ∧
    (x ≠ a → (n.isRightTightInRange a x b = true ↔
      ¬ (b ≠ a ∧ n.isInRange a x b = true))) := by
  have hm' : n.m ≤ 52 := by omega
  have hin := isInRange_iff hm' ha hb hx
  refine ⟨?_, ?_, ?_, isInRange_noId hm' ha hb, ?_⟩
  · rw [hin, between_iff_meetsFirst ha hb hx]
  · rintro rfl
    rw [hin, Between, span_self]
    exact and_iff_left (cw_lt ha hx)
  · rw [isRightTightInRange_iff hm' ha hb hx, hin]
  · exact rightTight_iff_not_inRange hm' ha hb hx

/-- A ring of eight ids, and an arc over its end. -/
theorem interval_tests_are_arcs_eight :
    let n := DAENode.new ⟨"10.0.0.1", 3010, 0, 3, ⟨"", 0, 0⟩, 10, true, false, false⟩
    n.isInRange 6 2 7 = true ↔ 7 ≠ 6 ∧ 7 ≠ 2 ∧ MeetsFirst 8 6 7 2 :=
  (interval_tests_are_arcs
    (DAENode.new ⟨"10.0.0.1", 3010, 0, 3, ⟨"", 0, 0⟩, 10, true, false, false⟩) (by decide)
    6 2 7 (by decide) (by decide) (by decide)).1

end Daenet.Proofs
