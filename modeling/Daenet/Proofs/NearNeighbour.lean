import Daenet.Proofs.OrderedVector

/-!
# The window of `near_neighbour`

`near_neighbour` centres a window of the asked size on the gap that a value falls
into, and moves it inwards when it would leave the array. The test for the right
end takes half of the size, rounded down; an odd size reaches one slot further to
the right than to the left, and when the window would end exactly at the end of
the array by that test, it ends one slot behind it.
-/

namespace Daenet.Proofs

open Daenet.Lib Daenet.Ref

section Window

variable {T : Type} [LinearOrder T] {v : OrderedVector T T} {t : T} {size : Int}

/-- The value falls between slot `i` and the next. -/
def InGap (v : OrderedVector T T) (t : T) (i : Nat) : Prop :=
  v.arr i < t ∧ t < v.arr (i + 1)

/-- The loop that looks for the gap. -/
def gap (v : OrderedVector T T) (t : T) (k : Nat) : Nat :=
  (List.range k).foldl (fun found i =>
    if OrderedVector.operators.gt t (v.arr i) && OrderedVector.operators.lt t (v.arr (i + 1))
    then i else found) 0

theorem gap_spec (v : OrderedVector T T) (t : T) (k : Nat) :
    (gap v t k < k ∧ InGap v t (gap v t k)) ∨
      (gap v t k = 0 ∧ ∀ i < k, ¬ InGap v t i) := by
  induction k with
  | zero => exact .inr ⟨rfl, fun i hi => absurd hi (Nat.not_lt_zero i)⟩
  | succ k ih =>
      have hstep : gap v t (k + 1) = if OrderedVector.operators.gt t (v.arr k) &&
          OrderedVector.operators.lt t (v.arr (k + 1)) then k else gap v t k := by
        rw [gap, List.range_succ, List.foldl_append]
        rfl
      simp only [hstep, Bool.and_eq_true, gt_iff, lt_iff]
      split
      · next h => exact .inl ⟨Nat.lt_succ_self k, h⟩
      · next h =>
          rcases ih with ⟨hlt, hb⟩ | ⟨hzero, hno⟩
          · exact .inl ⟨Nat.lt_succ_of_lt hlt, hb⟩
          · refine .inr ⟨hzero, fun i hi => ?_⟩
            rcases Nat.lt_or_eq_of_le (Nat.le_of_lt_succ hi) with hlt | rfl
            · exact hno i hlt
            · exact h

/-- There is one gap at most. -/
theorem inGap_unique (hinc : Increasing v.arr v.n) {i j : Nat} (hi : i + 1 < v.n)
    (hj : j + 1 < v.n) (hbi : InGap v t i) (hbj : InGap v t j) : i = j := by
  rcases Nat.lt_trichotomy i j with hlt | heq | hgt
  · have h := hinc.le (show i + 1 ≤ j from hlt) (by omega)
    exact absurd (lt_of_lt_of_le hbi.2 h) (lt_asymm hbj.1)
  · exact heq
  · have h := hinc.le (show j + 1 ≤ i from hgt) (by omega)
    exact absurd (lt_of_lt_of_le hbj.2 h) (lt_asymm hbi.1)

/-- What is asked of the window that starts at `r.1` and has size `r.2`. -/
structure Window (v : OrderedVector T T) (t : T) (size : Int) (r : Int × Int) : Prop where
  size : r.2 = min size v.n
  start : 0 ≤ r.1
  inside : r.1 + r.2 ≤ v.n
  both : ∀ i, i + 1 < v.n → v.arr i < t → t < v.arr (i + 1) → 2 ≤ r.2 →
    r.1 ≤ i ∧ (i : Int) + 1 < r.1 + r.2

/-- The size is odd, and the value falls into the gap with half of the size, rounded
down, to the right of it. -/
def Overruns (v : OrderedVector T T) (t : T) (size : Int) : Prop :=
  ∃ h : Nat, 1 ≤ h ∧ size = 2 * h + 1 ∧ 2 * h ≤ v.n ∧
    v.arr (v.n - 1 - h) < t ∧ t < v.arr (v.n - h)

theorem clip_eq (size : Int) (n : Nat) :
    (if size > n then (n : Int) else size) = min size n := by
  split
  · omega
  · omega

/-- The window of a value inside the range of the array. -/
def centred (n found : Nat) (size : Int) : Int × Int :=
  if found + 1 + size / 2 > n then (n - min size n, min size n)
  else if found + 1 - size / 2 < 0 then (0, min size n)
  else (found + 1 - size / 2, size)

theorem nearNeighbour_eq (hsize : 1 ≤ size) :
    v.nearNeighbour t size =
      if t ≤ v.arr 0 then (0, min size v.n)
      else if v.arr (v.n - 1) ≤ t then (v.n - min size v.n, min size v.n)
      else centred v.n (gap v t (v.n - 1)) size := by
  simp only [OrderedVector.nearNeighbour, OrderedVector.nearNeighbourWith, clip_eq,
    Int.tdiv_eq_ediv_of_nonneg (show 0 ≤ size by omega), centred, gap,
    OrderedVector.operators, decide_eq_true_iff]
  rfl

/-- A value below the array, or above it: the first or the last slots. -/
theorem window_end {p : Int}
    (hp : p = 0 ∨ p = v.n - min size v.n)
    (hno : ∀ i, i + 1 < v.n → ¬ InGap v t i) : Window v t size (p, min size v.n) := by
  refine ⟨rfl, ?_, ?_, fun i hi h h' _ => absurd ⟨h, h'⟩ (hno i hi)⟩
  · show 0 ≤ p
    omega
  · show p + min size v.n ≤ v.n
    omega

theorem not_overruns (hno : ∀ i, i + 1 < v.n → ¬ InGap v t i) : ¬ Overruns v t size := by
  rintro ⟨h, hpos, -, htwo, hlow, hhigh⟩
  refine hno (v.n - 1 - h) (by omega) ⟨hlow, ?_⟩
  rwa [show v.n - 1 - h + 1 = v.n - h by omega]

/-- A window that ends behind the array by its own size. -/
theorem overruns_of_end {f : Nat} (hn : 2 ≤ v.n) (hodd : size = 2 * (size / 2) + 1)
    (hgap : (f < v.n - 1 ∧ InGap v t f) ∨ (f = 0 ∧ ∀ i < v.n - 1, ¬ InGap v t i))
    (hlow : v.arr 0 < t) (hhigh : t < v.arr (v.n - 1))
    (hend : f + 1 + size / 2 = v.n) (hleft : 0 ≤ f + 1 - size / 2) :
    Overruns v t size := by
  rcases hgap with ⟨hf, hb⟩ | ⟨hf, hno⟩
  · refine ⟨(size / 2).toNat, by omega, by omega, by omega, ?_, ?_⟩
    · rw [show v.n - 1 - (size / 2).toNat = f by omega]
      exact hb.1
    · rw [show v.n - (size / 2).toNat = f + 1 by omega]
      exact hb.2
  · -- The value is one of two elements, and between them: there is no such one.
    have htwo : v.n = 2 := by omega
    rw [htwo] at hhigh
    exact absurd ⟨hlow, hhigh⟩ (hno 0 (by omega))

/-- A value inside the range of the array. -/
theorem centred_window_iff (hinc : Increasing v.arr v.n)
    (hlow : v.arr 0 < t) (hhigh : t < v.arr (v.n - 1)) :
    Window v t size (centred v.n (gap v t (v.n - 1)) size) ↔ ¬ Overruns v t size := by
  have hn : 2 ≤ v.n := by
    by_contra h
    rw [show v.n - 1 = 0 by omega] at hhigh
    exact absurd hhigh (lt_asymm hlow)
  have hgap := gap_spec v t (v.n - 1)
  generalize gap v t (v.n - 1) = f at hgap ⊢
  have hf : f + 1 < v.n := by omega
  -- The gap, if there is one, is `f`.
  have huniq : ∀ i, i + 1 < v.n → InGap v t i → i = f := by
    intro i hi hb
    rcases hgap with ⟨_, hbf⟩ | ⟨_, hno⟩
    · exact inGap_unique hinc hi hf hb hbf
    · exact absurd hb (hno i (by omega))
  have hboth : ∀ {r : Int × Int}, (2 ≤ r.2 → r.1 ≤ f ∧ (f : Int) + 1 < r.1 + r.2) →
      ∀ i, i + 1 < v.n → v.arr i < t → t < v.arr (i + 1) → 2 ≤ r.2 →
        r.1 ≤ i ∧ (i : Int) + 1 < r.1 + r.2 := by
    intro r hr i hi h h' htwo
    rw [huniq i hi ⟨h, h'⟩]
    exact hr htwo
  have hover : Overruns v t size → f + 1 + size / 2 = v.n ∧ 2 * (size / 2) ≤ v.n := by
    rintro ⟨h, hpos, hodd, htwo, hl, hh⟩
    have hfh := huniq (v.n - 1 - h) (by omega)
      ⟨hl, by rwa [show v.n - 1 - h + 1 = v.n - h by omega]⟩
    omega
  unfold centred
  split
  · next hright =>
      refine iff_of_true ⟨rfl, ?_, ?_, hboth fun _ => ?_⟩ fun h => ?_
      · show 0 ≤ v.n - min size v.n
        omega
      · show v.n - min size v.n + min size v.n ≤ v.n
        omega
      · show v.n - min size v.n ≤ f ∧ (f : Int) + 1 < v.n - min size v.n + min size v.n
        omega
      · have h := hover h
        omega
  · next hright =>
      split
      · next hleft =>
          refine iff_of_true ⟨rfl, Int.le_refl 0, ?_, hboth fun _ => ?_⟩ fun h => ?_
          · show 0 + min size v.n ≤ v.n
            omega
          · show (0 : Int) ≤ f ∧ (f : Int) + 1 < 0 + min size v.n
            omega
          · have h := hover h
            omega
      · next hleft =>
          constructor
          · intro hw hov
            have hinside : f + 1 - size / 2 + size ≤ v.n := hw.inside
            have hend := hover hov
            obtain ⟨h, _, hodd, _⟩ := hov
            omega
          · intro hno
            have hinside : f + 1 - size / 2 + size ≤ v.n := by
              by_contra hout
              exact hno (overruns_of_end (by omega) (by omega) hgap hlow hhigh (by omega)
                (by omega))
            refine ⟨?_, ?_, hinside, hboth fun htwo => ?_⟩
            · show size = min size v.n
              omega
            · show 0 ≤ f + 1 - size / 2
              omega
            · show f + 1 - size / 2 ≤ f ∧ (f : Int) + 1 < f + 1 - size / 2 + size
              change 2 ≤ size at htwo
              omega

/-- The window is inside the array, has the size that was asked for as far as the
array goes, and holds both neighbours of the value, if and only if it does not
overrun. -/
theorem near_neighbour_window_iff (hn : 1 ≤ v.n) (hinc : Increasing v.arr v.n) (t : T)
    (hsize : 1 ≤ size) :
    Window v t size (v.nearNeighbour t size) ↔ ¬ Overruns v t size := by
  rw [nearNeighbour_eq hsize]
  split
  · next hlow =>
      have hno : ∀ i, i + 1 < v.n → ¬ InGap v t i := fun i hi hb =>
        absurd (lt_of_lt_of_le hb.1 hlow) (not_lt.mpr (hinc.le (Nat.zero_le i) (by omega)))
      exact iff_of_true (window_end (.inl rfl) hno) (not_overruns hno)
  · next hlow =>
      split
      · next hhigh =>
          have hno : ∀ i, i + 1 < v.n → ¬ InGap v t i := fun i hi hb =>
            absurd (lt_of_le_of_lt hhigh hb.2)
              (not_lt.mpr (hinc.le (show i + 1 ≤ v.n - 1 by omega) (by omega)))
          exact iff_of_true (window_end (.inr rfl) hno) (not_overruns hno)
      · next hhigh => exact centred_window_iff hinc (not_le.mp hlow) (not_le.mp hhigh)

/-- The vector that holds the odd numbers below `2 n`. -/
def odds (n : Nat) : OrderedVector Int Int where
  arr i := 2 * i + 1
  n := n
  maxNum := n
  mid := 0

theorem odds_lt (n i : Nat) : (odds n).arr i < (odds n).arr (i + 1) := by
  change 2 * (i : Int) + 1 < 2 * ((i + 1 : Nat) : Int) + 1
  omega

/-- An odd size in the middle of the array. -/
theorem near_neighbour_window_iff_odds :
    Window (odds 6) 4 3 ((odds 6).nearNeighbour 4 3) := by
  have hinc : Increasing (odds 6).arr (odds 6).n := fun i _ => odds_lt 6 i
  refine (near_neighbour_window_iff (by decide) hinc 4 (by decide)).mpr ?_
  rintro ⟨h, _, hodd, _, hlow, _⟩
  obtain rfl : h = 1 := by omega
  exact absurd hlow (by decide)

/-- Three neighbours of 2 among 1 and 3: the window has three slots, the array
two. -/
theorem near_neighbour_overruns :
    (odds 2).nearNeighbour 2 3 = (0, 3) ∧
      ¬ Window (odds 2) 2 3 ((odds 2).nearNeighbour 2 3) := by
  refine ⟨by decide, fun h => absurd h.inside (by decide)⟩

end Window

end Daenet.Proofs
