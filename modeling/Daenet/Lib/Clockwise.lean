import Mathlib.Data.Nat.ModEq
import Mathlib.Tactic.SplitIfs

/-!
# Distances on a circle

A circle of `N` places, walked in one direction. Everything a ring protocol
says about its members — who comes next, who lies between whom, who is nearer
to a key — is a statement about one function, the clockwise distance `cw`,
and its variant `span`, which reads the distance from a place to itself as a
whole turn instead of zero. The two differ on the diagonal only, and the
difference matters: a lone member is its own successor at the end of a whole
turn, while it is already at its own key.

Both are written with an `if` rather than a remainder, because an `if` is what
`omega` can read. Past the first lemmas distances are mostly compared by adding
them up along a walk (`cw_add_cw`, `cw_add_of_between`, `cw_add_span_of_le`).
-/

namespace Daenet.Lib

/-- How far one walks clockwise from `a` to reach `b`. -/
def cw (N a b : Nat) : Nat := if a ≤ b then b - a else N + b - a

/-- The same walk, except that coming back to the start takes a whole turn. -/
def span (N a b : Nat) : Nat := if a = b then N else cw N a b

/-- `x` lies strictly inside the arc from `a` clockwise to `b`; from `a` to
itself the arc is the circle without `a`. -/
def Between (N a x b : Nat) : Prop := x ≠ a ∧ cw N a x < span N a b

instance (N a x b : Nat) : Decidable (Between N a x b) :=
  inferInstanceAs (Decidable (_ ∧ _))

variable {N a b c x : Nat}

theorem cw_self : cw N a a = 0 := by simp [cw]

theorem cw_lt (ha : a < N) (hb : b < N) : cw N a b < N := by
  unfold cw; split <;> omega

theorem cw_eq_zero (ha : a < N) : cw N a b = 0 ↔ a = b := by
  unfold cw; split <;> omega

theorem cw_right_inj (ha : a < N) (hb : b < N) (hc : c < N)
    (h : cw N a b = cw N a c) : b = c := by
  unfold cw at h
  split_ifs at h <;> omega

theorem span_self : span N a a = N := by simp [span]

theorem span_of_ne (h : a ≠ b) : span N a b = cw N a b := if_neg h

theorem span_pos (ha : a < N) (hb : b < N) : 0 < span N a b := by
  unfold span cw
  split_ifs <;> omega

/-- A whole step back: the arc after `a` starts one place on. -/
theorem span_eq_cw_succ (ha : a < N) (hb : b < N) :
    span N a b = cw N ((a + 1) % N) b + 1 := by
  rcases Nat.lt_or_ge (a + 1) N with h | h
  · rw [Nat.mod_eq_of_lt h]
    unfold span cw
    split_ifs <;> omega
  · rw [show a + 1 = N by omega, Nat.mod_self]
    unfold span cw
    split_ifs <;> omega

theorem cw_add {k : Nat} (ha : a < N) (hk : k < N) : cw N a ((a + k) % N) = k := by
  rcases Nat.lt_or_ge (a + k) N with h | h
  · rw [Nat.mod_eq_of_lt h]
    unfold cw
    split_ifs <;> omega
  · rw [Nat.mod_eq_sub_mod h, Nat.mod_eq_of_lt (by omega)]
    unfold cw
    split_ifs <;> omega

theorem add_cw (ha : a < N) (hb : b < N) : (a + cw N a b) % N = b := by
  unfold cw
  split
  · next h => rw [Nat.add_sub_cancel' h, Nat.mod_eq_of_lt hb]
  · next h =>
      rw [Nat.add_sub_cancel' (by omega), Nat.add_mod_left, Nat.mod_eq_of_lt hb]

/-- There and on to the start again is a whole turn. -/
theorem cw_add_span (ha : a < N) (hb : b < N) : cw N b a + span N a b = N := by
  unfold span cw
  split_ifs <;> omega

/-- Distances from `b` add up along a walk that does not pass `b`. -/
theorem cw_add_span_of_le (ha : a < N) (hb : b < N) (hne : c ≠ b)
    (hle : span N a c ≤ span N a b) : cw N b a + span N a c = cw N b c := by
  grind [span, cw]

/-- Distances add up along a walk that stops on the way. -/
theorem cw_add_cw (ha : a < N) (hx : x < N) (hb : b < N)
    (hle : cw N a x ≤ cw N a b) : cw N a x + cw N x b = cw N a b := by
  grind [cw]

theorem span_right_inj (ha : a < N) (hb : b < N) (hc : c < N)
    (h : span N a b = span N a c) : b = c := by
  unfold span cw at h
  split_ifs at h <;> omega

theorem not_between_right : ¬ Between N a b b := by
  rintro ⟨hne, hlt⟩
  rw [span_of_ne (Ne.symm hne)] at hlt
  exact Nat.lt_irrefl _ hlt

/-- Being between is having the shorter arc. -/
theorem between_iff_span : Between N a x b ↔ x ≠ a ∧ span N a x < span N a b := by
  unfold Between
  constructor <;> rintro ⟨hne, hlt⟩ <;> refine ⟨hne, ?_⟩
  · rwa [span_of_ne (Ne.symm hne)]
  · rwa [span_of_ne (Ne.symm hne)] at hlt

/-- A place strictly on the way from `a` to the key `k` is nearer to `k`. -/
theorem cw_lt_of_between (ha : a < N) (hb : b < N) (hab : a ≠ b)
    (h : Between N a x b) : cw N x b < cw N a b := by
  obtain ⟨hne, hlt⟩ := h
  rw [span_of_ne hab] at hlt
  unfold cw at hlt ⊢
  split_ifs at hlt ⊢ <;> omega

/-- Before `b`, being on the way from `a` is being nearer. -/
theorem between_iff_cw_lt (ha : a < N) (hb : b < N) (hx : x < N) (hab : a ≠ b)
    (hxb : x ≠ b) : Between N a x b ↔ cw N x b < cw N a b := by
  refine ⟨cw_lt_of_between ha hb hab, fun h => ?_⟩
  have hne : x ≠ a := by
    rintro rfl
    exact Nat.lt_irrefl _ h
  refine ⟨hne, ?_⟩
  rw [span_of_ne hab]
  unfold cw at h ⊢
  split_ifs at h ⊢ <;> omega

theorem cw_left_inj (ha : a < N) (hb : b < N) (h : cw N a c = cw N b c) :
    a = b := by
  unfold cw at h
  split_ifs at h <;> omega

/-- A key that is neither `b` nor on the way to it leaves `b` on the way to
the key. -/
theorem between_of_not_tight (ha : a < N) (hb : b < N) (hx : x < N) (hne : a ≠ x)
    (h : ¬ (x = b ∨ Between N a x b)) : Between N a b x := by
  unfold Between span cw at *
  rw [not_or, not_and] at h
  obtain ⟨hxb, hlt⟩ := h
  have := hlt (Ne.symm hne)
  split_ifs at this ⊢ <;> omega

/-- Distances add up along an arc that stops on the way. -/
theorem cw_add_of_between (ha : a < N) (hx : x < N) (hb : b < N)
    (h : Between N a x b) : cw N a x + cw N x b = span N a b := by
  obtain ⟨hne, hlt⟩ := h
  by_cases hab : a = b
  · -- The arc is a whole turn.
    subst hab
    have hturn := cw_add_span ha hx
    rw [span_of_ne (Ne.symm hne)] at hturn
    rw [span_self]
    omega
  · rw [span_of_ne hab] at hlt ⊢
    exact cw_add_cw ha hx hb (Nat.le_of_lt hlt)

/-- From a place strictly inside the arc from `a` to `b`, the end `b` of the
arc is met before any `c` that is not nearer to `a`. -/
theorem cw_le_of_between (ha : a < N) (hx : x < N) (hb : b < N) (hc : c < N)
    (hle : span N a b ≤ span N a c) (h : Between N a x b) :
    cw N x b ≤ cw N x c := by
  have hsum := cw_add_of_between ha hx hb h
  have hsum' := cw_add_of_between ha hx hc ⟨h.1, Nat.lt_of_lt_of_le h.2 hle⟩
  omega

/-- Starting further on inside `[a, b]`, `b` is still met before `c`. -/
theorem cw_le_of_cw_le (ha : a < N) (hb : b < N) (hx : x < N)
    (hle : cw N a b ≤ cw N a c) (hxb : cw N a x ≤ cw N a b) :
    cw N x b ≤ cw N x c := by
  grind [cw]

/-- Two places that come after `a` in this order, and before `b`, come before
`b` in this order. -/
theorem cw_le_of_order (ha : a < N) (hb : b < N) (hc : c < N) (hx : x < N)
    (hne : x ≠ a) (hxc : cw N a x ≤ cw N a c) (hcb : cw N a c < span N a b) :
    cw N x c ≤ cw N x b := by
  have hsum := cw_add_cw ha hx hc hxc
  have hsum' := cw_add_of_between ha hx hb ⟨hne, Nat.lt_of_le_of_lt hxc hcb⟩
  omega

/-- Of two different places, one has the other before `c`. -/
theorem eq_of_span_le (ha : a < N) (hb : b < N)
    (hac : span N a c ≤ span N a b) (hbc : span N b c ≤ span N b a) : a = b := by
  grind [span, cw]

/-- Of two places before `b`, the farther one after `a`: seen from `b` the other
one comes after `a` too. -/
theorem cw_add_of_span_le (ha : a < N) (hx : x < N) (hb : b < N) (hc : c < N)
    (hle : span N c b ≤ span N x b) (h : Between N a x b) :
    cw N a x ≤ cw N a c ∧ cw N b a + cw N a c = cw N b c := by
  have hxb : x ≠ b := by
    rintro rfl
    exact not_between_right h
  obtain ⟨hne, hlt⟩ := between_iff_span.mp h
  have hbax := cw_add_span_of_le ha hb hxb (Nat.le_of_lt hlt)
  rw [span_of_ne (Ne.symm hne)] at hbax
  have hbx := cw_add_span hx hb
  have hbc := cw_add_span hc hb
  have hbac := cw_add_cw hb ha hc (by omega)
  exact ⟨by omega, hbac⟩

/-- Of two places before `b`, the one nearer to `b` is met later. -/
theorem cw_le_of_span_le (ha : a < N) (hx : x < N) (hb : b < N) (hc : c < N)
    (hle : span N c b ≤ span N x b) (h : Between N a x b) :
    cw N a x ≤ cw N a c :=
  (cw_add_of_span_le ha hx hb hc hle h).1

/-- It is on the way to `b` when the other one is. -/
theorem between_of_span_le (ha : a < N) (hx : x < N) (hb : b < N) (hc : c < N)
    (hle : span N c b ≤ span N x b) (h : Between N a x b) :
    Between N a c b := by
  obtain ⟨hac, hbac⟩ := cw_add_of_span_le ha hx hb hc hle h
  have hturn := cw_add_span ha hb
  have hlt := cw_lt hb hc
  refine ⟨?_, by omega⟩
  rintro rfl
  rw [cw_self, Nat.le_zero, cw_eq_zero ha] at hac
  exact h.1 hac.symm

/-- A walk from a place `s` after `a` that stops before it is back at `a` stops
past `s`. -/
theorem cw_le_of_stop {s : Nat} (ha : a < N) (hs : s < N)
    (hne : x ≠ a) (hle : cw N s x ≤ cw N s a) : cw N a s ≤ cw N a x := by
  grind [cw]

/-- A walk from `s` that stops at `c` at the latest does not reach `a`, when `s`
lies on the way from `a` to `c`. -/
theorem ne_of_stop_le {s : Nat} (ha : a < N) (hs : s < N) (hc : c < N)
    (hne : s ≠ a) (hsc : cw N a s ≤ cw N a c)
    (hle : cw N s x ≤ cw N s c) : x ≠ a := by
  grind [cw]

/-- Seen from `a` too, it stops at `c` at the latest. -/
theorem cw_le_of_stop_le {s : Nat} (ha : a < N) (hs : s < N) (hc : c < N)
    (hsc : cw N a s ≤ cw N a c) (hle : cw N s x ≤ cw N s c) :
    cw N a x ≤ cw N a c := by
  grind [cw]

/-- Walking clockwise from `a`, place by place, one comes to `x` and has not come to
`b` on the way. -/
def MeetsFirst (N a x b : Nat) : Prop :=
  ∃ k, (a + k) % N = x ∧ ∀ j, 0 < j → j ≤ k → (a + j) % N ≠ b

theorem between_iff_meetsFirst (ha : a < N) (hb : b < N) (hx : x < N) :
    Between N a x b ↔ x ≠ a ∧ x ≠ b ∧ MeetsFirst N a x b := by
  constructor
  · intro h
    have hxb : x ≠ b := by
      rintro rfl
      exact not_between_right h
    refine ⟨h.1, hxb, cw N a x, add_cw ha hx, fun j hpos hj hmeet => ?_⟩
    have hcw : cw N a b = j := by
      have hlt := cw_lt ha hx
      rw [← hmeet, cw_add ha (by omega)]
    have hlt := h.2
    by_cases hab : a = b
    · rw [hab, cw_self] at hcw
      omega
    · rw [span_of_ne hab] at hlt
      omega
  · rintro ⟨hxa, _, k, hk, havoid⟩
    refine ⟨hxa, ?_⟩
    by_contra hge
    by_cases hab : a = b
    · rw [hab, span_self, ← hab] at hge
      exact hge (cw_lt ha hx)
    · -- `b` is not farther than `x`, so the walk came past it.
      rw [span_of_ne hab] at hge
      have hle : cw N a x ≤ k := by
        rw [← hk, ← Nat.add_mod_mod, cw_add ha (Nat.mod_lt k (by omega))]
        exact Nat.mod_le k N
      have hpos : cw N a b ≠ 0 := mt (cw_eq_zero ha).mp hab
      exact havoid (cw N a b) (by omega) (by omega) (add_cw ha hb)

end Daenet.Lib
