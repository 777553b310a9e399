import Daenet.Lib.Circle
import Mathlib.Algebra.Order.BigOperators.Group.Finset
import Mathlib.Data.Fintype.BigOperators

/-!
# Stabilisation on a circle

Members of a circle, each with a pointer to its successor, a pointer to its
predecessor if it has been told one, and the last answer it heard when it asked
its successor for that one's predecessor. When a member stabilises it adopts
the answer it has if that lies between, tells its successor about itself, and
stores the answer of the successor it had before — which may be the successor's
predecessor from before or from after it has told it about itself.

Every pointer moves closer or stays, so rounds in which a pointer moves run
out. Three rounds without a move are enough: in the first everybody's
predecessor becomes at least as near as everybody who points at it, in the
second everybody hears it, and in the third it is not adopted although it could
have been. That makes the successor map injective, and with one member over
which no pointer jumps it has only one way to go.
-/

namespace Daenet.Lib

open Function

/-- The pointers of the members. -/
structure Pointers (ι : Type) where
  succ : ι → ι
  pred : ι → Option ι
  heard : ι → Option ι

variable {ι : Type} (C : Circle ι)

/-- The successor a member has after looking at the answer it heard. -/
def adopted (x : Pointers ι) (i : ι) : ι :=
  match x.heard i with
  | some p => if C.In i p (x.succ i) then p else x.succ i
  | none => x.succ i

/-- The predecessor of `s` after `i` has told it about itself. -/
def noted (x : Pointers ι) (s i : ι) : Option ι :=
  match x.pred s with
  | some q => if C.In q i s then some i else some q
  | none => some i

variable {C} in
theorem adopted_cases (x : Pointers ι) (i : ι) :
    adopted C x i = x.succ i ∨ C.In i (adopted C x i) (x.succ i) := by
  unfold adopted
  split
  · split
    · next hin => exact Or.inr hin
    · exact Or.inl rfl
  · exact Or.inl rfl

variable {C} in
theorem noted_cases (x : Pointers ι) (s i : ι) :
    noted C x s i = some i ∨
      ∃ q, x.pred s = some q ∧ noted C x s i = some q ∧ ¬ C.In q i s := by
  unfold noted
  cases hq : x.pred s with
  | none => exact Or.inl rfl
  | some q =>
      by_cases hin : C.In q i s
      · exact Or.inl (if_pos hin)
      · exact Or.inr ⟨q, rfl, if_neg hin, hin⟩

variable {C} in
/-- A new predecessor is one from further on. -/
theorem noted_near {x : Pointers ι} {s i q : ι} (hq : x.pred s = some q)
    (hqs : q ≠ s) : ∃ q', noted C x s i = some q' ∧ C.dist q' s ≤ C.dist q s := by
  unfold noted
  rw [hq]
  by_cases hin : C.In q i s
  · exact ⟨i, if_pos hin, Nat.le_of_lt (Circle.dist_lt_of_in hqs hin)⟩
  · exact ⟨q, if_neg hin, Nat.le_refl _⟩

variable [DecidableEq ι]

/-- Member `i` stabilises. -/
structure Stabilizes (i : ι) (x y : Pointers ι) : Prop where
  succ : y.succ = update x.succ i (adopted C x i)
  pred : y.pred = if adopted C x i = i then x.pred
    else update x.pred (adopted C x i) (noted C x (adopted C x i) i)
  heard : ∃ v, y.heard = update x.heard i v ∧
    (v = x.pred (x.succ i) ∨ v = y.pred (x.succ i))

/-- Members stabilise one after another. -/
inductive Round : List ι → Pointers ι → Pointers ι → Prop where
  | nil (x : Pointers ι) : Round [] x x
  | cons {i : ι} {is : List ι} {x y z : Pointers ι} (h : Stabilizes C i x y)
      (hrest : Round is y z) : Round (i :: is) x z

/-- Rounds in each of which every member stabilises. -/
inductive Rounds : Nat → Pointers ι → Pointers ι → Prop where
  | zero (x : Pointers ι) : Rounds 0 x x
  | succ {r : Nat} {x y z : Pointers ι} {order : List ι} (h : Rounds r x y)
      (hall : ∀ i, i ∈ order) (hround : Round C order y z) : Rounds (r + 1) x z

/-- No pointer jumps over `b`, and nobody is its own predecessor. -/
structure Sound (b : ι) (x : Pointers ι) : Prop where
  below : ∀ i, C.arc i (x.succ i) ≤ C.arc i b
  pred_ne : ∀ i, x.pred i ≠ some i

/-- Every pointer is where it should be. -/
structure Settled (x : Pointers ι) : Prop where
  succ : ∀ i j, C.arc i (x.succ i) ≤ C.arc i j
  pred : ∀ i, x.pred (x.succ i) = some i

variable {C} {b i j s : ι} {x y z : Pointers ι}

/-! ## One member -/

namespace Stabilizes

theorem succ_self (h : Stabilizes C i x y) :
    y.succ i = adopted C x i := by
  rw [h.succ, update_self]

theorem succ_other (h : Stabilizes C i x y) (hj : j ≠ i) :
    y.succ j = x.succ j := by
  rw [h.succ, update_of_ne hj]

theorem arc_le (h : Stabilizes C i x y) (j : ι) :
    C.arc j (y.succ j) ≤ C.arc j (x.succ j) := by
  by_cases hj : j = i
  · subst hj
    rw [h.succ_self]
    rcases adopted_cases x j with heq | hin
    · rw [heq]
    · exact Nat.le_of_lt (Circle.in_iff_arc.mp hin).2
  · rw [h.succ_other hj]

/-- What `s` keeps as its predecessor, before or after being told. -/
theorem pred_cases (h : Stabilizes C i x y) (s : ι) :
    y.pred s = x.pred s ∨ (s ≠ i ∧ y.pred s = noted C x s i) := by
  rw [h.pred]
  split
  · exact Or.inl rfl
  · next hne =>
      by_cases hs : s = adopted C x i
      · subst hs
        rw [update_self]
        exact Or.inr ⟨hne, rfl⟩
      · rw [update_of_ne hs]
        exact Or.inl rfl

theorem sound (h : Stabilizes C i x y) (hx : Sound C b x) : Sound C b y where
  below := fun j => Nat.le_trans (h.arc_le j) (hx.below j)
  pred_ne := by
    intro s
    rcases h.pred_cases s with heq | ⟨hsi, heq⟩
    · rw [heq]
      exact hx.pred_ne s
    · rw [heq]
      rcases noted_cases x s i with hnew | ⟨q, hq, hold, _⟩
      · rw [hnew]
        exact fun he => hsi (Option.some.inj he).symm
      · rw [hold, ← hq]
        exact hx.pred_ne s

/-- A predecessor is replaced by nearer ones only. -/
theorem pred_near (h : Stabilizes C i x y) (hx : Sound C b x) {q : ι}
    (hq : x.pred s = some q) :
    ∃ q', y.pred s = some q' ∧ C.dist q' s ≤ C.dist q s := by
  rcases h.pred_cases s with heq | ⟨_, heq⟩
  · exact ⟨q, heq.trans hq, Nat.le_refl _⟩
  · rw [heq]
    exact noted_near hq fun hqs => hx.pred_ne s (hqs ▸ hq)

/-- Whom `i` tells about itself has a predecessor at least as near as `i`. -/
theorem told (h : Stabilizes C i x y) (hx : Sound C b x) (hne : y.succ i ≠ i) :
    ∃ q, y.pred (y.succ i) = some q ∧
      C.dist q (y.succ i) ≤ C.dist i (y.succ i) := by
  rw [h.succ_self] at hne ⊢
  have hpred : y.pred (adopted C x i) = noted C x (adopted C x i) i := by
    rw [h.pred, if_neg hne, update_self]
  rw [hpred]
  rcases noted_cases x (adopted C x i) i with hnew | ⟨q, hq, hold, hout⟩
  · exact ⟨i, hnew, Nat.le_refl _⟩
  · refine ⟨q, hold, Circle.dist_le_of_not_in ?_ (Ne.symm hne) hout⟩
    intro heq
    exact hx.pred_ne (adopted C x i) (heq ▸ hq)

end Stabilizes

/-- Whom `j` points at has a predecessor at least as near as `j`. -/
def Near (C : Circle ι) (succ : ι → ι) (j : ι) (x : Pointers ι) : Prop :=
  succ j ≠ j → ∃ q, x.pred (succ j) = some q ∧
    C.dist q (succ j) ≤ C.dist j (succ j)

theorem Stabilizes.near (h : Stabilizes C i x y) (hx : Sound C b x)
    {succ : ι → ι} (hj : Near C succ j x) : Near C succ j y := by
  intro hne
  obtain ⟨q, hq, hle⟩ := hj hne
  obtain ⟨q', hq', hle'⟩ := h.pred_near hx hq
  exact ⟨q', hq', Nat.le_trans hle' hle⟩

/-- With everybody near, telling changes nothing. -/
theorem Stabilizes.pred_eq (h : Stabilizes C i x y) {succ : ι → ι}
    (hx : Sound C b x) (hsy : y.succ = succ)
    (hnear : ∀ j, Near C succ j x) : y.pred = x.pred := by
  have hadopt : adopted C x i = succ i := by rw [← h.succ_self, hsy]
  rw [h.pred, hadopt]
  split
  · rfl
  · next hne =>
      obtain ⟨q, hq, hle⟩ := hnear i hne
      have hqs : q ≠ succ i := fun heq => hx.pred_ne _ (heq ▸ hq)
      have hout : ¬ C.In q i (succ i) := fun hin =>
        absurd (Circle.dist_lt_of_in hqs hin) (Nat.not_lt.mpr hle)
      have hnoted : noted C x (succ i) i = x.pred (succ i) := by
        unfold noted
        rw [hq]
        exact if_neg hout
      rw [hnoted, update_eq_self]

/-! ## What rounds keep -/

omit [DecidableEq ι] in
theorem Settled.of_eq (hx : Settled C x) (hs : y.succ = x.succ)
    (hp : y.pred = x.pred) : Settled C y where
  succ := by rw [hs]; exact hx.succ
  pred := by rw [hs, hp]; exact hx.pred

/-- Pointers that are where they should be stay there. -/
theorem Stabilizes.settled (h : Stabilizes C i x y) (hx : Settled C x) :
    y.succ = x.succ ∧ y.pred = x.pred := by
  have hadopt : adopted C x i = x.succ i := by
    rcases adopted_cases (C := C) x i with heq | hin
    · exact heq
    · exact absurd (hx.succ i (adopted C x i))
        (Nat.not_le.mpr (Circle.in_iff_arc.mp hin).2)
  refine ⟨by rw [h.succ, hadopt, update_eq_self], ?_⟩
  rw [h.pred, hadopt]
  split
  · rfl
  · have hnoted : noted C x (x.succ i) i = x.pred (x.succ i) := by
      unfold noted
      rw [hx.pred i]
      exact if_neg Circle.not_in_left
    rw [hnoted, update_eq_self]

theorem Round.settled {order : List ι} (h : Round C order x y) (hx : Settled C x) :
    y.succ = x.succ ∧ y.pred = x.pred := by
  induction h with
  | nil x => exact ⟨rfl, rfl⟩
  | cons hstep _ ih =>
      obtain ⟨hs, hp⟩ := hstep.settled hx
      obtain ⟨hs', hp'⟩ := ih (hx.of_eq hs hp)
      exact ⟨hs'.trans hs, hp'.trans hp⟩

theorem Round.sound {order : List ι} (h : Round C order x y) (hx : Sound C b x) :
    Sound C b y := by
  induction h with
  | nil x => exact hx
  | cons hstep _ ih => exact ih (hstep.sound hx)

theorem Rounds.sound {r : Nat} (h : Rounds C r x y) (hx : Sound C b x) :
    Sound C b y := by
  induction h with
  | zero x => exact hx
  | succ _ _ hround ih => exact hround.sound (ih hx)

theorem Rounds.settled {r : Nat} (h : Rounds C r x y) (hx : Settled C x) :
    y.succ = x.succ ∧ y.pred = x.pred := by
  induction h with
  | zero x => exact ⟨rfl, rfl⟩
  | succ _ _ hround ih =>
      obtain ⟨hs, hp⟩ := ih hx
      obtain ⟨hs', hp'⟩ := hround.settled (hx.of_eq hs hp)
      exact ⟨hs'.trans hs, hp'.trans hp⟩

theorem Rounds.split {k r : Nat} (h : Rounds C (k + r) x z) :
    ∃ y, Rounds C k x y ∧ Rounds C r y z := by
  induction r generalizing z with
  | zero => exact ⟨z, h, .zero z⟩
  | succ r ih =>
      cases h with
      | succ hr hall hround =>
          obtain ⟨y, hk, hrest⟩ := ih hr
          exact ⟨y, hk, .succ hrest hall hround⟩

/-! ## Rounds without a move -/

/-- The lengths of all pointers together. -/
def potential [Fintype ι] (C : Circle ι) (x : Pointers ι) : Nat :=
  ∑ i, C.arc i (x.succ i)

variable [Fintype ι]

theorem Stabilizes.potential_le (h : Stabilizes C i x y) :
    potential C y ≤ potential C x :=
  Finset.sum_le_sum fun j _ => h.arc_le j

/-- A pointer that moves makes all of them together shorter. -/
theorem Stabilizes.succ_eq (h : Stabilizes C i x y)
    (hstill : potential C x ≤ potential C y) : y.succ = x.succ := by
  rcases adopted_cases (C := C) x i with heq | hin
  · rw [h.succ, heq, update_eq_self]
  · have hlt : potential C y < potential C x := by
      refine Finset.sum_lt_sum (fun j _ => h.arc_le j) ⟨i, Finset.mem_univ i, ?_⟩
      rw [h.succ_self]
      exact (Circle.in_iff_arc.mp hin).2
    exact absurd hstill (Nat.not_le.mpr hlt)

theorem Round.potential_le {order : List ι} (h : Round C order x z) :
    potential C z ≤ potential C x := by
  induction h with
  | nil x => exact Nat.le_refl _
  | cons hstep _ ih => exact Nat.le_trans ih hstep.potential_le

/-- What holds after a round in which no pointer moved: `P` if every member's
turn keeps it, and `G j` for every member `j` that had its turn, if that turn
establishes it and the others keep it. -/
theorem Round.still {P : Pointers ι → Prop} {G : ι → Pointers ι → Prop}
    {succ : ι → ι}
    (hturn : ∀ i x y, Stabilizes C i x y → x.succ = succ → y.succ = succ → P x →
      P y ∧ G i y ∧ ∀ j, G j x → G j y)
    {order : List ι} (h : Round C order x z)
    (hstill : potential C x ≤ potential C z) (hsucc : x.succ = succ) (hP : P x) :
    z.succ = succ ∧ P z ∧ (∀ j ∈ order, G j z) ∧ ∀ j, G j x → G j z := by
  induction h with
  | nil x => exact ⟨hsucc, hP, fun j hj => (by cases hj), fun j hj => hj⟩
  | @cons i is x y z hstep hrest ih =>
      have hle := hrest.potential_le
      have hle' := hstep.potential_le
      have hy : y.succ = succ :=
        (hstep.succ_eq (Nat.le_trans hstill hle)).trans hsucc
      obtain ⟨hPy, hGi, hkeep⟩ := hturn i x y hstep hsucc hy hP
      obtain ⟨hz, hPz, hall, hG⟩ := ih (Nat.le_trans hle' hstill) hy hPy
      refine ⟨hz, hPz, ?_, fun j hj => hG j (hkeep j hj)⟩
      intro j hj
      rcases List.mem_cons.mp hj with rfl | hj
      · exact hG j hGi
      · exact hall j hj

/-- First round: everybody's predecessor is near. -/
theorem first_round {order : List ι} (hall : ∀ i, i ∈ order)
    (h : Round C order x y) (hx : Sound C b x)
    (hstill : potential C x ≤ potential C y) :
    y.succ = x.succ ∧ Sound C b y ∧ ∀ j, Near C x.succ j y := by
  obtain ⟨hsucc, hsound, hnear, _⟩ := h.still (P := Sound C b)
    (G := Near C x.succ) (fun i u v hstep _ hv hu => by
      refine ⟨hstep.sound hu, ?_, fun j => hstep.near hu⟩
      intro hne
      rw [← hv] at hne ⊢
      exact hstep.told hu hne) hstill rfl hx
  exact ⟨hsucc, hsound, fun j => hnear j (hall j)⟩

/-- Second round: everybody has heard it. -/
theorem second_round {order : List ι} (hall : ∀ i, i ∈ order)
    (h : Round C order x y) (hx : Sound C b x) {succ : ι → ι}
    (hsucc : x.succ = succ) (hnear : ∀ j, Near C succ j x)
    (hstill : potential C x ≤ potential C y) :
    y.succ = succ ∧ Sound C b y ∧ y.pred = x.pred ∧
      ∀ j, y.heard j = x.pred (succ j) := by
  obtain ⟨hsy, ⟨hsound, hpred⟩, hheard, _⟩ := h.still
    (P := fun u => Sound C b u ∧ u.pred = x.pred)
    (G := fun j u => u.heard j = x.pred (succ j))
    (fun i u v hstep hu hv hP => by
      have hnear' : ∀ j, Near C succ j u := by
        intro j hne
        rw [hP.2]
        exact hnear j hne
      have hsame : v.pred = u.pred := hstep.pred_eq hP.1 hv hnear'
      obtain ⟨w, hheard, hw⟩ := hstep.heard
      have hval : w = x.pred (succ i) := by
        rw [hsame, or_self, hu, hP.2] at hw
        exact hw
      refine ⟨⟨hstep.sound hP.1, hsame.trans hP.2⟩, ?_, ?_⟩
      · rw [hheard, update_self, hval]
      · intro j hj
        rw [hheard]
        by_cases hji : j = i
        · subst hji
          rw [update_self, hval]
        · rw [update_of_ne hji]
          exact hj) hstill hsucc ⟨hx, rfl⟩
  exact ⟨hsy, hsound, hpred, fun j => hheard j (hall j)⟩

/-- Third round: nobody adopts it. -/
theorem third_round {order : List ι} (hall : ∀ i, i ∈ order)
    (h : Round C order x y) (hx : Sound C b x) {succ : ι → ι}
    (hsucc : x.succ = succ) (hnear : ∀ j, Near C succ j x)
    (hheard : ∀ j, x.heard j = x.pred (succ j))
    (hstill : potential C x ≤ potential C y) :
    ∀ j q, x.pred (succ j) = some q → ¬ C.In j q (succ j) := by
  obtain ⟨_, _, hnot, _⟩ := h.still
    (P := fun u => Sound C b u ∧ u.pred = x.pred ∧
      ∀ j, u.heard j = x.pred (succ j))
    (G := fun j _ => ∀ q, x.pred (succ j) = some q → ¬ C.In j q (succ j))
    (fun i u v hstep hu hv hP => by
      obtain ⟨hsound, hpred, hear⟩ := hP
      have hnear' : ∀ j, Near C succ j u := by
        intro j hne
        rw [hpred]
        exact hnear j hne
      have hsame : v.pred = u.pred := hstep.pred_eq hsound hv hnear'
      obtain ⟨w, hheard', hw⟩ := hstep.heard
      refine ⟨⟨hstep.sound hsound, hsame.trans hpred, ?_⟩, ?_, fun _ hj => hj⟩
      · intro j
        rw [hheard']
        by_cases hji : j = i
        · subst hji
          rw [update_self]
          rw [hsame, or_self, hu, hpred] at hw
          exact hw
        · rw [update_of_ne hji]
          exact hear j
      · intro q hq hin
        have hadopt : adopted C u i = q := by
          unfold adopted
          rw [hear i, hq, hu]
          exact if_pos hin
        have hstay : adopted C u i = succ i := by rw [← hstep.succ_self, hv]
        rw [← hstay, hadopt] at hin
        exact not_between_right hin) hstill hsucc ⟨hx, rfl, hheard⟩
  exact fun j => hnot j (hall j)

omit [DecidableEq ι] in
/-- Three rounds in which no pointer moved leave every pointer where it should
be: the successor map is injective, so everybody is on the one cycle there is,
and heights increase along it. -/
theorem settled_of_still [Nontrivial ι] (hx : Sound C b x)
    (hnear : ∀ j, Near C x.succ j x)
    (hnot : ∀ j q, x.pred (x.succ j) = some q → ¬ C.In j q (x.succ j)) :
    Settled C x := by
  obtain ⟨hclimb, hup, _⟩ := Circle.climbs_of_below (J := Set.univ)
    (Set.mem_univ b) (fun _ _ => Set.mem_univ _) (fun i _ => hx.below i)
  have hpred : ∀ j, x.succ j ≠ j → x.pred (x.succ j) = some j := by
    intro j hne
    obtain ⟨q, hq, hle⟩ := hnear j hne
    have hqs : q ≠ x.succ j := fun heq => hx.pred_ne _ (heq ▸ hq)
    rw [hq, Circle.eq_of_near hqs hle (hnot j q hq)]
  have hmoves : ∀ j, x.succ j ≠ j := by
    -- A member that points at itself is alone at home, and somebody else
    -- points at home.
    intro j hj
    have hjb : j = b := by
      obtain ⟨k, _, hk⟩ := hclimb.comes_home j (Set.mem_univ j)
      rw [iterate_fixed hj] at hk
      exact hk
    subst hjb
    obtain ⟨l, hl⟩ := exists_ne j
    obtain ⟨q, hqj, hq⟩ := hclimb.enters_home (Set.mem_univ l) hl
    have hpq : x.pred j = some q := by
      rw [← hq]
      exact hpred q (by rw [hq]; exact Ne.symm hqj)
    have hsj : x.succ j = j := hj
    have hout := hnot j q (by rw [hsj]; exact hpq)
    rw [hsj] at hout
    exact hout (Circle.in_self hqj)
  have hinj : Injective x.succ := by
    intro i j hij
    have hi := hpred i (hmoves i)
    rw [hij, hpred j (hmoves j)] at hi
    exact (Option.some.inj hi).symm
  have hcycle : ∀ j, ∃ l < minimalPeriod x.succ b, x.succ^[l] b = j := by
    intro j
    obtain ⟨k, hk, hper⟩ := hinj.mem_periodicPts j
    exact hclimb.mem_cycle (Set.mem_univ j) hk hper
  refine ⟨?_, fun j => hpred j (hmoves j)⟩
  intro i j
  by_contra hlt
  rw [Nat.not_le] at hlt
  have hjb : j ≠ b := by
    rintro rfl
    exact absurd (hx.below i) (Nat.not_le.mpr hlt)
  -- `j` would come after `i` on the cycle and before the next one.
  have hdist : C.dist b i + C.arc i j = C.dist b j :=
    cw_add_span_of_le (C.place_lt i) (C.place_lt b)
      (Circle.place_ne hjb) (Nat.le_trans (Nat.le_of_lt hlt) (hx.below i))
  have hpos : 0 < C.arc i j := span_pos (C.place_lt i) (C.place_lt j)
  obtain ⟨k, hk, rfl⟩ := hcycle i
  obtain ⟨l, hl, rfl⟩ := hcycle j
  have hkl : k < l := by
    by_contra hle
    rcases Nat.lt_or_eq_of_le (Nat.not_lt.mp hle) with hlk | rfl
    · have := hclimb.cycle_lt hlk hk
      omega
    · omega
  by_cases hwrap : k + 1 = minimalPeriod x.succ b
  · omega
  · have hne : x.succ (x.succ^[k] b) ≠ b := by
      rw [← iterate_succ_apply' x.succ]
      exact not_isPeriodicPt_of_pos_of_lt_minimalPeriod (Nat.succ_ne_zero k)
        (by omega)
    have hnext := hup _ (Set.mem_univ _) hne
    have hle : C.dist b (x.succ (x.succ^[k] b)) ≤ C.dist b (x.succ^[l] b) := by
      rw [← iterate_succ_apply' x.succ]
      rcases Nat.lt_or_eq_of_le (Nat.succ_le_of_lt hkl) with hlt' | heq
      · exact Nat.le_of_lt (hclimb.cycle_lt hlt' hl)
      · rw [heq]
    omega

/-! ## Convergence -/

/-- Three rounds settle the pointers or make them shorter. -/
theorem three_rounds [Nontrivial ι] (h : Rounds C 3 x z) (hx : Sound C b x) :
    Settled C z ∨ potential C z < potential C x := by
  cases h with
  | @succ _ _ w _ _ hr hall₃ h₃ =>
  cases hr with
  | @succ _ _ v _ _ hr hall₂ h₂ =>
  cases hr with
  | @succ _ _ u _ _ hr hall₁ h₁ =>
  cases hr with
  | zero =>
  have hle₁ := h₁.potential_le
  have hle₂ := h₂.potential_le
  have hle₃ := h₃.potential_le
  by_cases hdrop : potential C z < potential C x
  · exact Or.inr hdrop
  · obtain ⟨hsv, hv, hnear⟩ := first_round hall₁ h₁ hx (by omega)
    obtain ⟨hsw, hw, hpred, hheard⟩ := second_round hall₂ h₂ hv hsv hnear (by omega)
    have hnear' : ∀ j, Near C x.succ j w := by
      intro j hne
      rw [hpred]
      exact hnear j hne
    have hheard' : ∀ j, w.heard j = w.pred (x.succ j) := by
      intro j
      rw [hpred]
      exact hheard j
    have hnot := third_round hall₃ h₃ hw hsw hnear' hheard' (by omega)
    have hsettled : Settled C w :=
      settled_of_still hw (by rw [hsw]; exact hnear') (by rw [hsw]; exact hnot)
    obtain ⟨hs, hp⟩ := h₃.settled hsettled
    exact Or.inl (hsettled.of_eq hs hp)

/-- Stabilisation converges, and the number of rounds is bounded by the length
of the pointers at the start. -/
theorem converges [Nontrivial ι] (hx : Sound C b x) {r : Nat}
    (hr : 3 * (potential C x + 1) ≤ r) (h : Rounds C r x z) : Settled C z := by
  have hblocks : ∀ k y, Rounds C (3 * k) x y →
      Settled C y ∨ potential C y + k ≤ potential C x := by
    intro k
    induction k with
    | zero =>
        intro y hy
        cases hy
        exact Or.inr (Nat.le_refl _)
    | succ k ih =>
        intro y hy
        obtain ⟨w, hw, hthree⟩ := Rounds.split (k := 3 * k) (r := 3) hy
        rcases ih w hw with hset | hle
        · obtain ⟨hs, hp⟩ := hthree.settled hset
          exact Or.inl (hset.of_eq hs hp)
        · rcases three_rounds hthree (hw.sound hx) with hset | hlt
          · exact Or.inl hset
          · exact Or.inr (by omega)
  obtain ⟨e, rfl⟩ := Nat.exists_eq_add_of_le hr
  obtain ⟨y, hy, hrest⟩ := h.split
  rcases hblocks _ y hy with hset | hle
  · obtain ⟨hs, hp⟩ := hrest.settled hset
    exact hset.of_eq hs hp
  · exact absurd hle (by omega)

end Daenet.Lib
