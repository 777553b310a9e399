import Mathlib.Data.Bool.Basic

/-!
# One swap between two parties

Two parties each put in one item and each take out the other's, through a slot
that holds one item at a time. The items are only counted here: for each party,
how many of its own are on the way in, how many of its own wait in the slot,
how many of the other's are on the way out to it, and how many it has got.

An item that finds the slot empty waits in it; an item that finds another one
waiting takes it out, and the two owners are sent one item each. Nothing forces
the two to be of different owners. That they are is `Ok`: a swap is either still
open, with nothing on the way out, or done, with nothing on the way in.
-/

namespace Daenet.Lib

/-- The counts of one swap, for the two parties. -/
@[ext]
structure Cell where
  sent : Bool → Nat
  flying : Bool → Nat
  waiting : Bool → Nat
  coming : Bool → Nat
  got : Bool → Nat

/-- One for the party itself and none for the other. -/
def tick (x y : Bool) : Nat := if y = x then 1 else 0

namespace Cell

/-- What can happen to a cell. -/
inductive Step (c c' : Cell) : Prop where
  | stay (h : c' = c)
  | post (x : Bool) (hnew : c.sent x = 0)
      (hsent : ∀ y, c'.sent y = c.sent y + tick x y)
      (hflying : ∀ y, c'.flying y = c.flying y + tick x y)
      (hwaiting : c'.waiting = c.waiting) (hcoming : c'.coming = c.coming)
      (hgot : c'.got = c.got)
  | wait (x : Bool) (hempty : ∀ y, c.waiting y = 0) (hsent : c'.sent = c.sent)
      (hflying : ∀ y, c.flying y = c'.flying y + tick x y)
      (hwaiting : ∀ y, c'.waiting y = tick x y) (hcoming : c'.coming = c.coming)
      (hgot : c'.got = c.got)
  | swap (x x' : Bool) (hfull : ∀ y, c.waiting y = tick x' y)
      (hsent : c'.sent = c.sent)
      (hflying : ∀ y, c.flying y = c'.flying y + tick x y)
      (hwaiting : ∀ y, c'.waiting y = 0)
      (hcoming : ∀ y, c'.coming y = c.coming y + tick x y + tick x' y)
      (hgot : c'.got = c.got)
  | take (x : Bool) (hsent : c'.sent = c.sent) (hflying : c'.flying = c.flying)
      (hwaiting : c'.waiting = c.waiting)
      (hcoming : ∀ y, c.coming y = c'.coming y + tick x y)
      (hgot : ∀ y, c'.got y = c.got y + tick x y)

/-- Every item put in is on the way or waits, and nothing has come out. -/
structure Open (c : Cell) : Prop where
  sent : ∀ x, c.sent x ≤ 1
  put : ∀ x, c.flying x + c.waiting x = c.sent x
  coming : ∀ x, c.coming x = 0
  got : ∀ x, c.got x = 0
  slot : c.waiting false + c.waiting true ≤ 1

/-- Both items have been put in, and one comes or has come out for each. -/
structure Done (c : Cell) : Prop where
  sent : ∀ x, c.sent x = 1
  flying : ∀ x, c.flying x = 0
  waiting : ∀ x, c.waiting x = 0
  out : ∀ x, c.coming x + c.got x = 1

/-- Nothing is lost or doubled. -/
def Ok (c : Cell) : Prop := c.Open ∨ c.Done

variable {c c' : Cell}

/-- An item finds only the other party's item waiting. -/
theorem Ok.partner (h : c.Ok) {x x' : Bool} (hx : 0 < c.flying x)
    (hx' : 0 < c.waiting x') : x' = !x := by
  rcases h with h | h
  · by_contra hne
    have hself : x' = x := by cases x <;> cases x' <;> simp_all
    subst hself
    have hput := h.put x'
    have hsent := h.sent x'
    omega
  · have hnone := h.flying x
    omega

theorem Open.step (h : c.Open) (hs : Step c c') : c'.Ok := by
  cases hs with
  | stay he =>
      rw [he]
      exact Or.inl h
  | post x hnew hsent hflying hwaiting hcoming hgot =>
      refine Or.inl ⟨?_, ?_, ?_, ?_, ?_⟩
      · intro y
        have hy := h.sent y
        have hsy := hsent y
        unfold tick at hsy
        split at hsy
        · next he =>
            rw [he] at hsy hy
            rw [he]
            omega
        · omega
      · intro y
        rw [hsent y, hflying y, hwaiting, ← h.put y]
        omega
      · rw [hcoming]
        exact h.coming
      · rw [hgot]
        exact h.got
      · rw [hwaiting]
        exact h.slot
  | wait x hempty hsent hflying hwaiting hcoming hgot =>
      refine Or.inl ⟨?_, ?_, ?_, ?_, ?_⟩
      · rw [hsent]
        exact h.sent
      · intro y
        rw [hsent, hwaiting y, ← hflying y, ← h.put y, hempty y]
        omega
      · rw [hcoming]
        exact h.coming
      · rw [hgot]
        exact h.got
      · rw [hwaiting, hwaiting]
        cases x <;> simp [tick]
  | swap x x' hfull hsent hflying hwaiting hcoming hgot =>
      have hx : 0 < c.flying x := by
        rw [hflying x, tick, if_pos rfl]
        omega
      have hx' : 0 < c.waiting x' := by
        rw [hfull x', tick, if_pos rfl]
        omega
      have hother : x' = !x := Ok.partner (Or.inl h) hx hx'
      subst hother
      -- The two counts of each party: one item, in flight for one of them and
      -- in the slot for the other.
      have hpair : ∀ y, tick x y + tick (!x) y = 1 := by
        intro y
        cases x <;> cases y <;> rfl
      have hcount : ∀ y, c'.flying y + 1 = c.sent y := by
        intro y
        rw [← h.put y, hflying y, hfull y, Nat.add_assoc, hpair y]
      refine Or.inr ⟨?_, ?_, hwaiting, ?_⟩
      · intro y
        have hle := h.sent y
        have hy := hcount y
        rw [hsent]
        omega
      · intro y
        have hle := h.sent y
        have hy := hcount y
        omega
      · intro y
        rw [hcoming y, hgot, h.coming y, h.got y, Nat.zero_add, Nat.add_zero,
          hpair y]
  | take x hsent hflying hwaiting hcoming hgot =>
      have hnone := hcoming x
      rw [h.coming x, tick, if_pos rfl] at hnone
      omega

theorem Done.step (h : c.Done) (hs : Step c c') : c'.Ok := by
  cases hs with
  | stay he =>
      rw [he]
      exact Or.inr h
  | post x hnew hsent hflying hwaiting hcoming hgot =>
      rw [h.sent x] at hnew
      cases hnew
  | wait x hempty hsent hflying hwaiting hcoming hgot =>
      have hnone := hflying x
      rw [h.flying x, tick, if_pos rfl] at hnone
      omega
  | swap x x' hfull hsent hflying hwaiting hcoming hgot =>
      have hnone := hflying x
      rw [h.flying x, tick, if_pos rfl] at hnone
      omega
  | take x hsent hflying hwaiting hcoming hgot =>
      refine Or.inr ⟨?_, ?_, ?_, ?_⟩
      · rw [hsent]
        exact h.sent
      · rw [hflying]
        exact h.flying
      · rw [hwaiting]
        exact h.waiting
      · intro y
        have hy := h.out y
        have hcy := hcoming y
        rw [hgot y]
        omega

theorem Ok.step (h : c.Ok) (hs : Step c c') : c'.Ok :=
  h.elim (fun ho => ho.step hs) (fun hd => hd.step hs)

/-- Nobody gets two items. -/
theorem Ok.got_le (h : c.Ok) (x : Bool) : c.got x ≤ 1 := by
  rcases h with h | h
  · rw [h.got x]
    omega
  · have hout := h.out x
    omega

/-- When nothing is under way, a party has got an item exactly if both have put
one in. -/
theorem Ok.at_rest (h : c.Ok) (hflying : ∀ x, c.flying x = 0)
    (hcoming : ∀ x, c.coming x = 0) (x : Bool) :
    c.got x = 1 ↔ ∀ y, c.sent y = 1 := by
  rcases h with h | h
  · constructor
    · intro hx
      rw [h.got x] at hx
      cases hx
    · intro hsent
      have hslot := h.slot
      have hput := fun y => h.put y
      have hfalse := hput false
      have htrue := hput true
      rw [hflying, hsent] at hfalse htrue
      omega
  · have hout := h.out x
    rw [hcoming x] at hout
    exact ⟨fun _ => h.sent, fun _ => by omega⟩

end Cell

end Daenet.Lib
