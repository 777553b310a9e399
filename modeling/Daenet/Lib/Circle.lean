import Daenet.Lib.Clockwise
import Daenet.Lib.Walk
import Mathlib.SetTheory.Cardinal.NatCard

/-!
# Members of a circle

A circle with members at different places, and what the distances of
`Clockwise` say about them. A map from members to members that never jumps over
one of them, `b`, is a walk that climbs in the sense of `Walk`: measured from
`b`, every step gains exactly its own length, until it comes home.
-/

namespace Daenet.Lib

open Function

/-- Members at different places of a circle. -/
structure Circle (ι : Type) where
  size : Nat
  place : ι → Nat
  place_lt : ∀ i, place i < size
  place_inj : Injective place

namespace Circle

variable {ι : Type} (C : Circle ι)

/-- The walk from `i` to `j`, a whole turn if they are the same. -/
def arc (i j : ι) : Nat := span C.size (C.place i) (C.place j)

/-- The walk from `i` to `j`, nothing if they are the same. -/
def dist (i j : ι) : Nat := cw C.size (C.place i) (C.place j)

/-- `x` is strictly between `i` and `j`. -/
def In (i x j : ι) : Prop := Between C.size (C.place i) (C.place x) (C.place j)

instance (i x j : ι) : Decidable (C.In i x j) :=
  inferInstanceAs (Decidable (Between _ _ _ _))

variable {C} {i j x q : ι}

theorem place_ne (h : i ≠ j) : C.place i ≠ C.place j := fun he => h (C.place_inj he)

theorem in_iff_arc : C.In i x j ↔ x ≠ i ∧ C.arc i x < C.arc i j := by
  unfold In arc
  rw [between_iff_span]
  constructor
  · rintro ⟨hne, hlt⟩
    exact ⟨fun he => hne (congrArg C.place he), hlt⟩
  · rintro ⟨hne, hlt⟩
    exact ⟨place_ne hne, hlt⟩

theorem not_in_left : ¬ C.In i i j := fun h => h.1 rfl

/-- Everybody else is on the way from a member to itself. -/
theorem in_self (h : x ≠ i) : C.In i x i := by
  refine ⟨place_ne h, ?_⟩
  rw [span_self]
  exact cw_lt (C.place_lt i) (C.place_lt x)

/-- Moving the left end closer. -/
theorem dist_lt_of_in (hqi : q ≠ j) (h : C.In q i j) : C.dist i j < C.dist q j :=
  cw_lt_of_between (C.place_lt q) (C.place_lt j) (place_ne hqi) h

/-- Someone at least as near to `j` as `i` is `i`, is `j`, or is on the way. -/
theorem eq_of_near (hqj : q ≠ j) (hnear : C.dist q j ≤ C.dist i j)
    (hnot : ¬ C.In i q j) : q = i := by
  refine C.place_inj ?_
  have hq := C.place_lt q
  have hi := C.place_lt i
  have hj := C.place_lt j
  have hne := place_ne (C := C) hqj
  unfold In Between span at hnot
  unfold dist at hnear
  unfold cw at hnot hnear
  rw [not_and] at hnot
  by_contra hqi
  have hlt := hnot hqi
  split_ifs at hlt hnear <;> omega

/-- Someone not on the way from `q` to `j` is no nearer to `j` than `q` is. -/
theorem dist_le_of_not_in (hqj : q ≠ j) (hij : i ≠ j) (h : ¬ C.In q i j) :
    C.dist q j ≤ C.dist i j := by
  have hq := C.place_lt q
  have hi := C.place_lt i
  have hj := C.place_lt j
  have hne := place_ne (C := C) hqj
  have hne' := place_ne (C := C) hij
  unfold In Between span at h
  rw [not_and] at h
  unfold dist
  by_cases hiq : C.place i = C.place q
  · rw [hiq]
  · have hlt := h hiq
    unfold cw at hlt ⊢
    split_ifs at hlt ⊢ <;> omega

/-- A map that does not jump over `b` climbs, each step by its own length. -/
theorem climbs_of_below {f : ι → ι} {J : Set ι} {b : ι} (hb : b ∈ J)
    (hclosed : ∀ i ∈ J, f i ∈ J) (hbelow : ∀ i ∈ J, C.arc i (f i) ≤ C.arc i b) :
    Climbs f J b (C.dist b) C.size ∧
      (∀ i ∈ J, f i ≠ b → C.dist b i + C.arc i (f i) = C.dist b (f i)) ∧
      (∀ i ∈ J, f i = b → C.dist b i + C.arc i (f i) = C.size) := by
  have hup : ∀ i ∈ J, f i ≠ b → C.dist b i + C.arc i (f i) = C.dist b (f i) :=
    fun i hi hne => cw_add_span_of_le (C.place_lt i) (C.place_lt b)
      (place_ne hne) (hbelow i hi)
  refine ⟨⟨hb, hclosed, cw_self, fun i _ => cw_lt (C.place_lt b) (C.place_lt i), ?_⟩,
    hup, ?_⟩
  · intro i hi
    by_cases hne : f i = b
    · exact Or.inl hne
    · have hpos : 0 < C.arc i (f i) := span_pos (C.place_lt i) (C.place_lt (f i))
      have := hup i hi hne
      exact Or.inr (by omega)
  · intro i _ heq
    rw [heq]
    exact cw_add_span (C.place_lt i) (C.place_lt b)

/-- A map that takes everybody to the next member is injective. -/
theorem next_injective {f : ι → ι} (h : ∀ i l, C.arc i (f i) ≤ C.arc i l) :
    Injective f := by
  intro i j hij
  have hj := h j i
  rw [← hij] at hj
  exact C.place_inj (eq_of_span_le (C.place_lt i) (C.place_lt j) (h i j) hj)

/-- Going from one member to the next, one is back only after everybody else. -/
theorem card_le_of_return [Finite ι] {f : ι → ι}
    (h : ∀ i l, C.arc i (f i) ≤ C.arc i l) {k : Nat} (hk : 0 < k)
    (hback : f^[k] i = i) : Nat.card ι ≤ k := by
  have hclimbs := (climbs_of_below (b := i) (J := Set.univ) (Set.mem_univ i)
    (fun j _ => Set.mem_univ (f j)) fun j _ => h j i).1
  have hsurj : Surjective fun l : Fin (minimalPeriod f i) => f^[l.val] i := by
    intro x
    obtain ⟨p, hp, hper⟩ := (next_injective h).mem_periodicPts x
    obtain ⟨l, hl, hx⟩ := hclimbs.mem_cycle (Set.mem_univ x) hp hper
    exact ⟨⟨l, hl⟩, hx⟩
  have hcard := Nat.card_le_card_of_surjective _ hsurj
  rw [Nat.card_fin] at hcard
  exact hcard.trans (IsPeriodicPt.minimalPeriod_le hk hback)

end Circle

end Daenet.Lib
