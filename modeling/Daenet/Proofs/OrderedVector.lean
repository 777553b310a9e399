import Daenet.Lib.Runs
import Daenet.Lib.Slide
import Daenet.Ref.OrderedVector

/-!
# Ordered arrays stay in order, but for one case

The loops of `insert` slide elements to make room, and where they stop depends on
the comparisons only: `slideRight_slid` and `slideLeft_slid` say what array they
leave. `Inserts` is then all that a call of `insert` can do, for any operators.

With the operators of an ordered type and a value that is not in the array yet,
the new element comes to stand between its neighbours. The exception is a full
array and a value below all others. If the counters say that the last element is
to go, the value takes the first slot; if they say that the first is to go, it
is put in the last one, where it is out of order. That needs a value not above
`mid` and one element more above `mid` than below: the counter is raised before
the two are compared, and the tie goes to the wrong side.
-/

namespace Daenet.Proofs

open Daenet.Lib Daenet.Ref

/-! ## The loops -/

section Loops

variable {T : Type} {found : Nat → T → T → Bool} {t : T} {arr : Nat → T}

/-- What the loop down from slot `i`, and the element put into slot 0 if it found
no place, leave: `t` in slot `p`. -/
structure SlidRight (found : Nat → T → T → Bool) (t : T) (arr : Nat → T) (i : Nat)
    (r : (Nat → T) × Bool) (p : Nat) : Prop where
  le : p ≤ i
  hit : r.2 = decide (0 < p)
  result : (if r.2 then r.1 else Function.update r.1 0 t) = opened arr p i t
  first : r.2 = false → r.1 0 = arr 0
  place : 0 < p → found p (arr (p - 1)) (arr p) = true
  above : ∀ q, p < q → q ≤ i → found q (arr (q - 1)) (arr q) = false

theorem slideRight_slid (found : Nat → T → T → Bool) (t : T) (i : Nat) (arr : Nat → T) :
    ∃ p, SlidRight found t arr i (OrderedVector.slideRight found t i arr) p := by
  induction i generalizing arr with
  | zero =>
      refine ⟨0, Nat.le_refl 0, rfl, ?_, fun _ => rfl, fun h => absurd h (Nat.lt_irrefl 0),
        fun q h h' => by omega⟩
      exact (opened_last arr 0 t).symm
  | succ i ih =>
      simp only [OrderedVector.slideRight]
      split
      · next hfound =>
          refine ⟨i + 1, Nat.le_refl _, (decide_eq_true (Nat.succ_pos i)).symm, ?_,
            nofun, fun _ => hfound, fun q h h' => by omega⟩
          exact (opened_last arr (i + 1) t).symm
      · next hfound =>
          have hsame : ∀ k ≤ i, Function.update arr (i + 1) (arr i) k = arr k :=
            fun k hk => Function.update_of_ne (by omega) ..
          obtain ⟨p, hp⟩ := ih (Function.update arr (i + 1) (arr i))
          have hple := hp.le
          refine ⟨p, Nat.le_succ_of_le hple, hp.hit, hp.result.trans ?_, ?_, ?_, ?_⟩
          · funext k
            rcases Nat.lt_trichotomy k (i + 1) with hlt | rfl | hgt
            · simp only [opened, hsame k (by omega), hsame (k - 1) (by omega),
                if_pos (show k ≤ i by omega), if_pos (show k ≤ i + 1 by omega)]
            · rw [opened_beyond hple (Nat.lt_succ_self i), Function.update_self,
                opened_after hple (Nat.lt_succ_self i)]
            · rw [opened_beyond hple (by omega), opened_beyond (by omega) hgt,
                Function.update_of_ne (Nat.ne_of_gt hgt)]
          · intro h
            rw [hp.first h, hsame 0 (Nat.zero_le i)]
          · intro hpos
            have hplace := hp.place hpos
            rwa [hsame _ (by omega), hsame _ hple] at hplace
          · intro q hq hqi
            rcases Nat.lt_or_eq_of_le hqi with hlt | rfl
            · have habove := hp.above q hq (by omega)
              rwa [hsame _ (by omega), hsame _ (by omega)] at habove
            · exact Bool.eq_false_iff.mpr hfound

/-- What the loop from slot `i` up to `e`, and the element put into slot `e` if it
found no place, leave: `t` in slot `p`. -/
structure SlidLeft (found : Nat → T → T → Bool) (t : T) (arr : Nat → T) (i e : Nat)
    (r : (Nat → T) × Bool) (p : Nat) : Prop where
  ge : i ≤ p
  le : p ≤ e
  hit : r.2 = decide (p < e)
  below : ∀ j < i, (if r.2 then r.1 else Function.update r.1 (e) t) j = arr j
  slid : ∀ j, i ≤ j → j < p →
    (if r.2 then r.1 else Function.update r.1 (e) t) j = arr (j + 1)
  put : (if r.2 then r.1 else Function.update r.1 (e) t) p = t
  rest : ∀ j, p < j → (if r.2 then r.1 else Function.update r.1 (e) t) j = arr j
  last : r.2 = false → r.1 (e) = arr (e)
  place : p < e → found p (arr p) (arr (p + 1)) = true
  before : ∀ q, i ≤ q → q < p → found q (arr q) (arr (q + 1)) = false

theorem slideLeft_slid (found : Nat → T → T → Bool) (t : T) {k i e : Nat}
    (he : e = i + k) (arr : Nat → T) :
    ∃ p, SlidLeft found t arr i e (OrderedVector.slideLeft found t k i arr) p := by
  induction k generalizing i arr with
  | zero =>
      obtain rfl : e = i := he
      refine ⟨e, Nat.le_refl e, Nat.le_refl e, ?_, ?_, fun j h h' => by omega, ?_, ?_,
        fun _ => rfl, fun h => absurd h (Nat.lt_irrefl e), fun q h h' => by omega⟩
      · exact (decide_eq_false (Nat.lt_irrefl e)).symm
      · intro j hj
        change Function.update arr e t j = arr j
        exact Function.update_of_ne (Nat.ne_of_lt hj) ..
      · exact Function.update_self e t arr
      · intro j hj
        change Function.update arr e t j = arr j
        exact Function.update_of_ne (Nat.ne_of_gt hj) ..
  | succ k ih =>
      simp only [OrderedVector.slideLeft]
      split
      · next hfound =>
          refine ⟨i, Nat.le_refl i, by omega, (decide_eq_true (by omega)).symm, ?_,
            fun j h h' => by omega, ?_, ?_, nofun, fun _ => hfound,
            fun q h h' => by omega⟩
          · exact fun j hj => Function.update_of_ne (Nat.ne_of_lt hj) ..
          · exact Function.update_self ..
          · exact fun j hj => Function.update_of_ne (Nat.ne_of_gt hj) ..
      · next hfound =>
          have hsame : ∀ j, i < j → Function.update arr i (arr (i + 1)) j = arr j :=
            fun j hj => Function.update_of_ne (Nat.ne_of_gt hj) ..
          obtain ⟨p, hp⟩ := ih (show e = i + 1 + k by omega)
            (Function.update arr i (arr (i + 1)))
          have hge := hp.ge
          refine ⟨p, by omega, hp.le, hp.hit, ?_, ?_, hp.put, ?_, ?_, ?_, ?_⟩
          · intro j hj
            rw [hp.below j (by omega), Function.update_of_ne (Nat.ne_of_lt hj)]
          · intro j hij hjp
            rcases Nat.lt_or_eq_of_le hij with hlt | rfl
            · rw [hp.slid j hlt hjp, hsame _ (by omega)]
            · rw [hp.below i (Nat.lt_succ_self i), Function.update_self]
          · intro j hj
            rw [hp.rest j hj, hsame j (by omega)]
          · intro h
            rw [hp.last h, hsame _ (by omega)]
          · intro hlt
            have hplace := hp.place hlt
            rwa [hsame _ (by omega), hsame _ (by omega)] at hplace
          · intro q hiq hqp
            rcases Nat.lt_or_eq_of_le hiq with hlt | rfl
            · have hbefore := hp.before q hlt hqp
              rwa [hsame _ (by omega), hsame _ (by omega)] at hbefore
            · exact Bool.eq_false_iff.mpr hfound

theorem SlidLeft.closed {e p : Nat} {r : (Nat → T) × Bool}
    (h : SlidLeft found t arr 0 e r p) :
    (if r.2 then r.1 else Function.update r.1 e t) = closed arr p t := by
  funext j
  rcases Nat.lt_trichotomy j p with hlt | rfl | hgt
  · rw [closed_before hlt]
    exact h.slid j (Nat.zero_le j) hlt
  · rw [closed_self]
    exact h.put
  · rw [closed_after hgt]
    exact h.rest j hgt

end Loops

/-! ## One call -/

section Calls

variable {T K : Type} [DecidableEq K] {ops : Operators T K} {v : OrderedVector T K} {t : T}

/-- One of the two early returns of a full array. -/
def Refused (ops : Operators T K) (v : OrderedVector T K) (t : T) : Prop :=
  v.cLarge ≥ v.cLess ∧ ops.gt t (v.arr (v.maxNum - 1)) = true ∨
    v.cLess ≥ v.cLarge ∧ ops.lt t (v.arr 0) = true

/-- The comparison of the counters, one of them raised. -/
def DropsLast (ops : Operators T K) (v : OrderedVector T K) (t : T) : Prop :=
  if ops.gt t v.mid then v.cLarge + 1 > v.cLess else v.cLarge > v.cLess + 1

/-- `t` is between the elements `x` and `y`, as `insert` asks it. -/
def FitsIn (ops : Operators T K) (t x y : T) : Prop :=
  ops.gt t x = true ∧ ops.lt t y = true

/-- All that `insert` can do. -/
inductive Inserts (ops : Operators T K) (v : OrderedVector T K) (t : T)
    (v' : OrderedVector T K) : Prop where
  | room (hroom : v.n < v.maxNum) (p : Nat) (hp : p ≤ v.n)
      (hplace : 0 < p →
        ops.gt t (v.arr (p - 1)) = true ∧ (ops.lt t (v.arr p) = true ∨ v.n ≤ p))
      (habove : ∀ q, p < q → q ≤ v.n →
        ¬ (ops.gt t (v.arr (q - 1)) = true ∧ (ops.lt t (v.arr q) = true ∨ v.n ≤ q)))
      (harr : v'.arr = opened v.arr p v.n t) (hn : v'.n = v.n + 1) (hset : v'.set = v.set)
  | refused (hfull : v.maxNum ≤ v.n) (hno : Refused ops v t) (hv : v' = v)
  | last (hfull : v.maxNum ≤ v.n) (hyes : ¬ Refused ops v t) (hdrop : DropsLast ops v t)
      (p : Nat) (hp : p ≤ v.maxNum - 1)
      (hplace : 0 < p → FitsIn ops t (v.arr (p - 1)) (v.arr p))
      (habove : ∀ q, p < q → q ≤ v.maxNum - 1 → ¬ FitsIn ops t (v.arr (q - 1)) (v.arr q))
      (harr : v'.arr = opened v.arr p (v.maxNum - 1) t) (hn : v'.n = v.n)
      (hset : v'.set = (insert (ops.key t) v.set).erase
        (if 0 < p then ops.key t else ops.key (v.arr 0)))
  | first (hfull : v.maxNum ≤ v.n) (hyes : ¬ Refused ops v t)
      (hdrop : ¬ DropsLast ops v t) (p : Nat) (hp : p ≤ v.maxNum - 1)
      (hplace : p < v.maxNum - 1 → FitsIn ops t (v.arr p) (v.arr (p + 1)))
      (hbefore : ∀ q < p, ¬ FitsIn ops t (v.arr q) (v.arr (q + 1)))
      (harr : v'.arr = closed v.arr p t) (hn : v'.n = v.n)
      (hset : v'.set = (insert (ops.key t) v.set).erase
        (if p < v.maxNum - 1 then ops.key t else ops.key (v.arr (v.maxNum - 1))))

omit [DecidableEq K] in
theorem not_fitsIn {x y : T} (h : (ops.gt t x && ops.lt t y) = false) : ¬ FitsIn ops t x y := by
  intro hf
  rw [hf.1, hf.2] at h
  exact absurd h (by decide)

theorem insertRoom_inserts (hroom : v.n < v.maxNum) :
    Inserts ops v t (v.insertRoom ops t) := by
  obtain ⟨p, hp⟩ := slideRight_slid
    (fun i x y => ops.gt t x && (ops.lt t y || decide (i ≥ v.n))) t v.n v.arr
  refine .room hroom p hp.le ?_ ?_ hp.result rfl rfl
  · intro hpos
    simpa using hp.place hpos
  · intro q hq hqn
    have habove := hp.above q hq hqn
    simp only [Bool.and_eq_false_iff, Bool.or_eq_false_iff, decide_eq_false_iff_not] at habove
    rintro ⟨hgt, hlt⟩
    rcases habove with h | ⟨h, h'⟩
    · rw [hgt] at h
      exact absurd h (by decide)
    · rcases hlt with hlt | hle
      · rw [hlt] at h
        exact absurd h (by decide)
      · exact h' hle

theorem evictLast_inserts (hfull : v.maxNum ≤ v.n) (hyes : ¬ Refused ops v t)
    (hdrop : DropsLast ops v t) (cLess cLarge : Int) :
    Inserts ops v t (v.evictLast ops t cLess cLarge) := by
  obtain ⟨p, hp⟩ := slideRight_slid (fun _ x y => ops.gt t x && ops.lt t y) t
    (v.maxNum - 1) v.arr
  have hresult := hp.result
  have hhit := hp.hit
  refine .last hfull hyes hdrop p hp.le ?_ (fun q hq hqn => not_fitsIn (hp.above q hq hqn)) ?_ ?_ ?_
  · intro hpos
    exact (Bool.and_eq_true ..).mp (hp.place hpos)
  · simp only [OrderedVector.evictLast]
    split
    · next h => rwa [if_pos h] at hresult
    · next h => rwa [if_neg h] at hresult
  · simp only [OrderedVector.evictLast]
    split
    · rfl
    · rfl
  · simp only [OrderedVector.evictLast]
    split
    · next h =>
        rw [hhit, decide_eq_true_iff] at h
        rw [if_pos h]
    · next h =>
        have hfirst := hp.first (Bool.eq_false_iff.mpr h)
        rw [hhit, decide_eq_true_iff] at h
        rw [if_neg h]
        dsimp only
        rw [hfirst]

theorem evictFirst_inserts (hfull : v.maxNum ≤ v.n) (hyes : ¬ Refused ops v t)
    (hdrop : ¬ DropsLast ops v t) (cLess cLarge : Int) :
    Inserts ops v t (v.evictFirst ops t cLess cLarge) := by
  obtain ⟨p, hp⟩ := slideLeft_slid (fun _ x y => ops.gt t x && ops.lt t y) t
    (show v.maxNum - 1 = 0 + (v.maxNum - 1) by omega) v.arr
  have hresult := hp.closed
  have hhit := hp.hit
  refine .first hfull hyes hdrop p hp.le ?_
    (fun q hq => not_fitsIn (hp.before q (Nat.zero_le q) hq)) ?_ ?_ ?_
  · intro hlt
    exact (Bool.and_eq_true ..).mp (hp.place hlt)
  · simp only [OrderedVector.evictFirst]
    split
    · next h => rwa [if_pos h] at hresult
    · next h => rwa [if_neg h] at hresult
  · simp only [OrderedVector.evictFirst]
    split
    · rfl
    · rfl
  · simp only [OrderedVector.evictFirst]
    split
    · next h =>
        rw [hhit, decide_eq_true_iff] at h
        rw [if_pos h]
    · next h =>
        have hlast := hp.last (Bool.eq_false_iff.mpr h)
        rw [hhit, decide_eq_true_iff] at h
        rw [if_neg h]
        dsimp only
        rw [hlast]

theorem insertFull_inserts (hfull : v.maxNum ≤ v.n) (hyes : ¬ Refused ops v t) :
    Inserts ops v t (v.insertFull ops t) := by
  by_cases hgt : ops.gt t v.mid = true
  · simp only [OrderedVector.insertFull, if_pos hgt]
    split
    · next hdrop =>
        exact evictLast_inserts hfull hyes (by rwa [DropsLast, if_pos hgt]) _ _
    · next hdrop =>
        exact evictFirst_inserts hfull hyes (by rwa [DropsLast, if_pos hgt]) _ _
  · simp only [OrderedVector.insertFull, if_neg hgt]
    split
    · next hdrop =>
        exact evictLast_inserts hfull hyes (by rwa [DropsLast, if_neg hgt]) _ _
    · next hdrop =>
        exact evictFirst_inserts hfull hyes (by rwa [DropsLast, if_neg hgt]) _ _

theorem insertWith_inserts (ops : Operators T K) (v : OrderedVector T K) (t : T) :
    Inserts ops v t (v.insertWith ops t) := by
  simp only [OrderedVector.insertWith]
  split
  · next hfull =>
      split
      · next hno => exact .refused hfull (.inl hno) rfl
      · next hlast =>
          split
          · next hno => exact .refused hfull (.inr hno) rfl
          · next hfirst => exact insertFull_inserts hfull fun h => h.elim hlast hfirst
  · next hroom => exact insertRoom_inserts (Nat.lt_of_not_le hroom)

/-- `insert` changes neither the capacity nor `mid`. -/
theorem insertWith_fixed (ops : Operators T K) (v : OrderedVector T K) (t : T) :
    (v.insertWith ops t).maxNum = v.maxNum ∧ (v.insertWith ops t).mid = v.mid := by
  simp only [OrderedVector.insertWith, OrderedVector.insertFull, OrderedVector.evictLast,
    OrderedVector.evictFirst, OrderedVector.insertRoom]
  repeat' split
  all_goals exact ⟨rfl, rfl⟩

end Calls

/-! ## An ordered type -/

section Linear

variable {T : Type} [LinearOrder T] {arr : Nat → T} {t : T} {n m p : Nat}

theorem gt_iff {x y : T} :
    OrderedVector.operators.gt x y = true ↔ y < x := decide_eq_true_iff

theorem lt_iff {x y : T} :
    OrderedVector.operators.lt x y = true ↔ x < y := decide_eq_true_iff

theorem fitsIn_iff {x y : T} : FitsIn OrderedVector.operators t x y ↔ x < t ∧ t < y :=
  and_congr gt_iff lt_iff

/-- The loop of an array with room passes only elements above the new one. -/
theorem above_of_passed (hne : ∀ i < n, arr i ≠ t)
    (habove : ∀ q, p < q → q ≤ n → ¬ (arr (q - 1) < t ∧ (t < arr q ∨ n ≤ q))) {q : Nat}
    (hq : p < q) (hqn : q ≤ n) : t < arr (q - 1) := by
  -- Downwards from the end: what was passed last is above, so the next is.
  obtain ⟨d, hd⟩ : ∃ d, q + d = n := ⟨n - q, by omega⟩
  induction d generalizing q with
  | zero =>
      refine lt_of_le_of_ne (not_lt.mp fun h => ?_) (hne _ (by omega)).symm
      exact habove q hq hqn ⟨h, .inr (by omega)⟩
  | succ d ih =>
      have hnext := ih (show p < q + 1 by omega) (by omega) (by omega)
      rw [Nat.add_sub_cancel] at hnext
      refine lt_of_le_of_ne (not_lt.mp fun h => ?_) (hne _ (by omega)).symm
      exact habove q hq hqn ⟨h, .inl hnext⟩

/-- A value that is between no two neighbours is below them all, or above. -/
theorem outside_of_passed (hne : ∀ i ≤ m, arr i ≠ t)
    (hno : ∀ q < m, ¬ (arr q < t ∧ t < arr (q + 1))) : t < arr 0 ∨ arr m < t := by
  by_cases h0 : t < arr 0
  · exact .inl h0
  · refine .inr ?_
    induction m with
    | zero => exact lt_of_le_of_ne (not_lt.mp h0) (hne 0 (Nat.le_refl 0))
    | succ m ih =>
        have hm := ih (fun i hi => hne i (by omega)) fun q hq => hno q (by omega)
        refine lt_of_le_of_ne (not_lt.mp fun h => ?_) (hne _ (Nat.le_refl _))
        exact hno m (Nat.lt_succ_self m) ⟨hm, h⟩

variable {max : Nat} {v v' : OrderedVector T T} {s : OrderedVector T T × List T}

/-- The value would have to stand first, and the first slot is the one that is
given up. -/
def Misplaced (v : OrderedVector T T) (t : T) : Prop :=
  v.maxNum ≤ v.n ∧ 2 ≤ v.maxNum ∧ t < v.arr 0 ∧ t ≤ v.mid ∧ v.cLarge = v.cLess + 1

instance (v : OrderedVector T T) (t : T) : Decidable (Misplaced v t) :=
  inferInstanceAs (Decidable (_ ∧ _))

/-- A value below all: the last element is dropped for it, but for the tie. -/
theorem dropsLast_of_below (hyes : ¬ Refused OrderedVector.operators v t)
    (hlow : t < v.arr 0) (htie : ¬ (t ≤ v.mid ∧ v.cLarge = v.cLess + 1)) :
    DropsLast OrderedVector.operators v t := by
  have hless : v.cLess < v.cLarge := by
    by_contra h
    exact hyes (.inr ⟨not_lt.mp h, lt_iff.mpr hlow⟩)
  unfold DropsLast
  split
  · omega
  · next hgt =>
      have hmid : t ≤ v.mid := not_lt.mp fun h => hgt (gt_iff.mpr h)
      have hne : v.cLarge ≠ v.cLess + 1 := fun h => htie ⟨hmid, h⟩
      omega

/-- A value above all: the first element is dropped for it. -/
theorem not_dropsLast_of_above (hyes : ¬ Refused OrderedVector.operators v t)
    (hhigh : v.arr (v.maxNum - 1) < t) : ¬ DropsLast OrderedVector.operators v t := by
  have hless : v.cLarge < v.cLess := by
    by_contra h
    exact hyes (.inl ⟨not_lt.mp h, gt_iff.mpr hhigh⟩)
  unfold DropsLast
  split
  · omega
  · omega

/-- `insert` keeps the array increasing when the value is new to it and is not
misplaced. -/
theorem Inserts.increasing (h : Inserts OrderedVector.operators v t v')
    (hinc : Increasing v.arr v.n) (hn : v.n ≤ v.maxNum) (hmax : 1 ≤ v.maxNum)
    (hne : ∀ i < v.n, v.arr i ≠ t) (hok : ¬ Misplaced v t) :
    Increasing v'.arr v'.n := by
  cases h with
  | room hroom p hp hplace habove harr hn' _ =>
      rw [harr, hn']
      simp only [gt_iff, lt_iff] at hplace habove
      refine hinc.opened hp (fun hpos => (hplace hpos).1) fun hlt => ?_
      exact above_of_passed hne habove (Nat.lt_succ_self p) (Nat.succ_le_of_lt hlt)
  | refused _ _ hv => rwa [hv]
  | last hfull hyes hdrop p hp hplace habove harr hn' _ =>
      obtain ⟨m, hm⟩ : ∃ m, v.maxNum = m + 1 := ⟨v.maxNum - 1, by omega⟩
      have hvn : v.n = m + 1 := by omega
      rw [hm, Nat.add_sub_cancel] at hp habove harr
      rw [harr, hn', hvn]
      simp only [fitsIn_iff] at hplace habove
      rw [hvn] at hinc
      refine Increasing.opened (fun i hi => hinc i (by omega)) hp
        (fun hpos => (hplace hpos).1) fun hlt => ?_
      rcases Nat.eq_zero_or_pos p with hzero | hpos
      · subst hzero
        -- Below all, since a value above all would not drop the last one.
        refine (outside_of_passed (m := m) (fun i hi => hne i (by omega))
          fun q hq => ?_).resolve_right fun hhigh => not_dropsLast_of_above hyes ?_ hdrop
        · exact habove (q + 1) (Nat.succ_pos q) hq
        · rwa [hm, Nat.add_sub_cancel]
      · exact (hplace hpos).2
  | first hfull hyes hdrop p hp hplace hbefore harr hn' _ =>
      obtain ⟨m, hm⟩ : ∃ m, v.maxNum = m + 1 := ⟨v.maxNum - 1, by omega⟩
      have hvn : v.n = m + 1 := by omega
      rw [hm, Nat.add_sub_cancel] at hp hplace
      rw [harr, hn', hvn]
      simp only [fitsIn_iff] at hplace hbefore
      rw [hvn] at hinc
      refine hinc.closed hp (fun hpos => ?_) fun hlt => (hplace hlt).2
      rcases Nat.lt_or_eq_of_le hp with hlt | rfl
      · exact (hplace hlt).1
      · -- Above all, since a value below all would drop the last one.
        refine (outside_of_passed (fun i hi => hne i (by omega)) hbefore).resolve_left
          fun hlow => hdrop (dropsLast_of_below hyes hlow fun htie => hok ?_)
        exact ⟨hfull, by omega, hlow, htie⟩

/-- A misplaced value ends up in the last slot. -/
theorem Inserts.misplaced (h : Inserts OrderedVector.operators v t v')
    (hinc : Increasing v.arr v.n) (hn : v.n ≤ v.maxNum) (hmis : Misplaced v t) :
    ¬ Increasing v'.arr v'.n := by
  obtain ⟨hfull, htwo, hlow, hmid, htie⟩ := hmis
  obtain ⟨m, hm⟩ : ∃ m, v.maxNum = m + 2 := ⟨v.maxNum - 2, by omega⟩
  have hvn : v.n = m + 2 := by omega
  rw [hvn] at hinc
  have hbelow : ∀ i ≤ m + 1, t < v.arr i :=
    fun i hi => lt_of_lt_of_le hlow (hinc.le (Nat.zero_le i) (by omega))
  have hgt : ¬ OrderedVector.operators.gt t v.mid = true :=
    fun hgt => absurd (gt_iff.mp hgt) (not_lt.mpr hmid)
  cases h with
  | room hroom _ _ _ _ _ _ _ => omega
  | refused _ hno _ =>
      rw [Refused, hm, show m + 2 - 1 = m + 1 by omega] at hno
      rcases hno with ⟨_, hhigh⟩ | ⟨hle, _⟩
      · exact absurd (gt_iff.mp hhigh) (lt_asymm (hbelow _ (Nat.le_refl _)))
      · omega
  | last _ _ hdrop _ _ _ _ _ _ _ =>
      rw [DropsLast, if_neg hgt] at hdrop
      omega
  | first _ _ _ p hp hplace _ harr hn' _ =>
      rw [hm, show m + 2 - 1 = m + 1 by omega] at hp hplace
      rcases Nat.lt_or_eq_of_le hp with hlt | rfl
      · exact absurd (fitsIn_iff.mp (hplace hlt)).1 (lt_asymm (hbelow _ hp))
      · intro hinc'
        have hstep := hinc' m (by omega)
        rw [harr, closed_before (Nat.lt_succ_self m), closed_self] at hstep
        exact absurd hstep (lt_asymm (hbelow _ (Nat.le_refl _)))

/-- A call of `insert`, with the values given so far beside the array. -/
def insertNoted (s : OrderedVector T T × List T) (t : T) : OrderedVector T T × List T :=
  (s.1.insert t, s.2 ++ [t])

/-- Strictly increasing, made of values that were given, and of the size that
their number and the capacity say. -/
structure InSequence (max : Nat) (s : OrderedVector T T × List T) : Prop where
  increasing : Increasing s.1.arr s.1.n
  given : ∀ i < s.1.n, s.1.arr i ∈ s.2
  size : s.1.n = min max s.2.length

/-- The array of a vector in order, after a call, and the vector's size. -/
theorem Inserts.slots (h : Inserts OrderedVector.operators v t v') (hn : v.n ≤ v.maxNum)
    (hmax : 1 ≤ v.maxNum) :
    (∀ i < v'.n, v'.arr i = t ∨ ∃ k < v.n, v.arr k = v'.arr i) ∧
      v'.n = min v.maxNum (v.n + 1) := by
  have hmem : ∀ {k : Nat} {b : Nat → T},
      Lib.slots v'.arr v'.n = t ::ₘ Lib.slots b k →
      (∀ j < k, ∃ l < v.n, v.arr l = b j) →
      ∀ i < v'.n, v'.arr i = t ∨ ∃ k < v.n, v.arr k = v'.arr i := by
    intro k b hslots hb i hi
    have hin : v'.arr i ∈ Lib.slots v'.arr v'.n := mem_slots.mpr ⟨i, hi, rfl⟩
    rw [hslots, Multiset.mem_cons] at hin
    refine hin.imp_right fun hin => ?_
    obtain ⟨j, hj, heq⟩ := mem_slots.mp hin
    rw [← heq]
    exact hb j hj
  cases h with
  | room hroom p hp _ _ harr hn' _ =>
      refine ⟨hmem (by rw [harr, hn', slots_opened hp]) fun j hj => ⟨j, hj, rfl⟩, ?_⟩
      omega
  | refused hfull _ hv =>
      subst hv
      exact ⟨fun i hi => .inr ⟨i, hi, rfl⟩, by omega⟩
  | last hfull _ _ p hp _ _ harr hn' _ =>
      have hvn : v'.n = v.maxNum - 1 + 1 := by omega
      refine ⟨hmem (by rw [harr, hvn, slots_opened hp]) fun j hj => ⟨j, by omega, rfl⟩, ?_⟩
      omega
  | first hfull _ _ p hp _ _ harr hn' _ =>
      have hvn : v'.n = v.maxNum - 1 + 1 := by omega
      refine ⟨hmem (by rw [harr, hvn, slots_closed hp]) fun j hj => ⟨j + 1, by omega, rfl⟩, ?_⟩
      omega

theorem insertNoted_maxNum (s : OrderedVector T T × List T) (t : T) :
    (insertNoted s t).1.maxNum = s.1.maxNum :=
  (insertWith_fixed ..).1

theorem insertNoted_iff (hmax : 1 ≤ max) (hcap : s.1.maxNum = max) (hs : InSequence max s)
    (hnew : t ∉ s.2) : InSequence max (insertNoted s t) ↔ ¬ Misplaced s.1 t := by
  have hins := insertWith_inserts OrderedVector.operators s.1 t
  have hn : s.1.n ≤ s.1.maxNum := by
    rw [hcap, hs.size]
    exact Nat.min_le_left ..
  constructor
  · intro h hmis
    exact hins.misplaced hs.increasing hn hmis h.increasing
  · intro hok
    obtain ⟨hmem, hsize⟩ := hins.slots hn (hcap ▸ hmax)
    refine ⟨hins.increasing hs.increasing hn (hcap ▸ hmax) ?_ hok, ?_, ?_⟩
    · intro i hi heq
      exact hnew (heq ▸ hs.given i hi)
    · intro i hi
      rcases hmem i hi with heq | ⟨k, hk, heq⟩
      · exact List.mem_append_right _ (List.mem_singleton.mpr heq)
      · exact List.mem_append_left _ (heq ▸ hs.given k hk)
    · have hold := hs.size
      change (s.1.insertWith OrderedVector.operators t).n = min max (s.2 ++ [t]).length
      rw [hsize, hcap, List.length_append, List.length_singleton]
      omega

/-- With distinct values, each one is new. -/
theorem always_new (s : OrderedVector T T × List T) {ts : List T}
    (h : (s.2 ++ ts).Nodup) : Always insertNoted (fun s t => t ∉ s.2) s ts := by
  induction ts generalizing s with
  | nil => trivial
  | cons t ts ih =>
      refine ⟨fun hmem => ?_, ih _ ?_⟩
      · exact List.disjoint_of_nodup_append h hmem (List.mem_cons_self ..)
      · change (s.2 ++ [t] ++ ts).Nodup
        rwa [List.append_assoc, List.singleton_append]

/-- Over any calls with distinct values, the array is in order after each of them
if and only if none is misplaced. -/
theorem vector_in_order_iff (hmax : 1 ≤ max) (mid : T) (arr : Nat → T) (ts : List T)
    (hts : ts.Nodup) :
    Always insertNoted (fun s t => InSequence max (insertNoted s t)) (.new max mid arr, []) ts ↔
      Always insertNoted (fun s t => ¬ Misplaced s.1 t) (.new max mid arr, []) ts := by
  refine always_iff_of_inv
    (I := fun s : OrderedVector T T × List T => s.1.maxNum = max ∧ InSequence max s) ?_ ?_ ?_
    (always_new (.new max mid arr, []) hts)
  · intro s t hs hnew hok
    exact ⟨(insertNoted_maxNum s t).trans hs.1, (insertNoted_iff hmax hs.1 hs.2 hnew).mpr hok⟩
  · intro s t hs hnew
    exact insertNoted_iff hmax hs.1 hs.2 hnew
  · exact ⟨rfl, fun i hi => absurd hi (Nat.not_lt_zero _),
      fun i hi => absurd hi (Nat.not_lt_zero _), (Nat.min_zero max).symm⟩

/-- Room for three around 50: a value comes in between, and the first is dropped
for it. -/
theorem vector_in_order_iff_three :
    Always insertNoted (fun s t => InSequence 3 (insertNoted s t))
      (.new 3 50 (fun _ => 0), []) [1, 55, 7, 30] :=
  (vector_in_order_iff (by decide) 50 (fun _ => 0) [1, 55, 7, 30] (by decide)).mpr
    (by decide)

/-- One value below 50 and two above. A second one below, and less than the first,
goes last. -/
theorem vector_out_of_order :
    ¬ Always insertNoted (fun s t => InSequence 3 (insertNoted s t))
      (.new 3 50 (fun _ => 0), []) [1, 55, 57, 0] := by
  rintro ⟨_, _, _, h, _⟩
  exact absurd (h.increasing 1 (by decide)) (by decide)

end Linear

end Daenet.Proofs
