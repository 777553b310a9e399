import Daenet.Lib.Tiling
import Daenet.Ref.FileTask
import Mathlib.Data.List.Induction
import Mathlib.Data.Multiset.MapFold
import Mathlib.Algebra.Ring.Int.Defs

/-!
# Blocks of a file, in any order

The loop that appends waiting blocks looks at the one with the least index. A
block at the position is appended and leaves the queue; one after it ends the
loop; one before it is only reported, and then the next turn looks at the same
block again, for ever. So a call returns exactly when the waiting blocks, in the
order the queue gives them, follow the given one without a step back, up to the
first gap: `appendWaiting_iff`.

The blocks of a cut of the file, each given once, never step back, whatever order
they come in. Those before the position are the ones appended, the waiting ones
are after it, and the block at the position is missing (`Midfile`).
-/

namespace Daenet.Proofs

open Daenet.Lib Daenet.Ref

variable {Q : BlockQueue} {q q' : Q.State} {p e : Int} {task task' : FileTask Q}
  {b : FileBlock}

/-! ## The queue -/

/-- Where a block starts, and its size. -/
def extent (b : FileBlock) : Block := (b.idx.toInt, b.size.toInt)

/-- The blocks of a queue. -/
def extents (Q : BlockQueue) (q : Q.State) : Multiset Block := (Q.elems q).map extent

theorem extents_eq_zero : extents Q q = 0 ↔ Q.elems q = 0 := Multiset.map_eq_zero

theorem extents_pop (hq : extents Q q ≠ 0) :
    extent (Q.top q) ::ₘ extents Q (Q.pop q) = extents Q q := by
  rw [extents, extents, ← Multiset.map_cons, Q.elems_pop q (mt extents_eq_zero.mpr hq)]

theorem top_least {c : Block} (hc : c ∈ extents Q q) : (Q.top q).idx.toInt ≤ c.1 := by
  obtain ⟨b, hb, rfl⟩ := Multiset.mem_map.mp hc
  have hnot := of_decide_eq_false (Q.top_greatest q b hb)
  exact Int.not_lt.mp hnot

theorem empty_of_extents (hq : extents Q q = 0) : Q.empty q = true :=
  (Q.empty_iff q).mpr (extents_eq_zero.mp hq)

theorem not_empty_of_extents (hq : extents Q q ≠ 0) : ¬ Q.empty q = true :=
  fun h => hq (extents_eq_zero.mpr ((Q.empty_iff q).mp h))

/-- The blocks of a queue in the order in which it gives them. -/
def order (Q : BlockQueue) (q : Q.State) : List Block :=
  go (Q.elems q).card q
where
  go : Nat → Q.State → List Block
    | 0, _ => []
    | k + 1, q => extent (Q.top q) :: go k (Q.pop q)

theorem order_nil (hq : extents Q q = 0) : order Q q = [] := by
  rw [order, extents_eq_zero.mp hq]
  rfl

theorem order_cons (hq : extents Q q ≠ 0) :
    order Q q = extent (Q.top q) :: order Q (Q.pop q) := by
  have hcard := congrArg Multiset.card (Q.elems_pop q (mt extents_eq_zero.mpr hq))
  rw [Multiset.card_cons] at hcard
  rw [order, ← hcard]
  rfl

/-- The blocks follow one another from `p` on, up to a gap. -/
def Joined (p : Int) (bs : List Block) : Prop :=
  ∃ taken left e, bs = taken ++ left ∧ Tiles p taken e ∧ ∀ c ∈ left.head?, e < c.1

theorem joined_nil (p : Int) : Joined p [] := ⟨[], [], p, rfl, rfl, nofun⟩

theorem joined_cons {c : Block} {bs : List Block} :
    Joined p (c :: bs) ↔ p < c.1 ∨ c.1 = p ∧ Joined (p + c.2) bs := by
  constructor
  · rintro ⟨taken, left, e, hbs, htiles, hgap⟩
    cases taken with
    | nil =>
        subst hbs
        have hpe : p = e := htiles
        exact .inl (hpe ▸ hgap c rfl)
    | cons d taken =>
        obtain ⟨rfl, rfl⟩ := List.cons.inj hbs
        exact .inr ⟨htiles.1, taken, left, e, rfl, htiles.2, hgap⟩
  · rintro (hlt | ⟨hc, taken, left, e, rfl, htiles, hgap⟩)
    · refine ⟨[], c :: bs, p, rfl, rfl, fun d hd => ?_⟩
      obtain rfl : c = d := Option.some.inj hd
      exact hlt
    · exact ⟨c :: taken, left, e, rfl, ⟨hc, htiles⟩, hgap⟩

/-! ## The loop -/

theorem appendWaiting_empty (fuel : Nat) (hq : extents Q q = 0) :
    FileTask.appendWaiting Q (fuel + 1) p q = some (p, q) :=
  if_pos (empty_of_extents hq)

theorem appendWaiting_cons (fuel : Nat) (hq : extents Q q ≠ 0) :
    FileTask.appendWaiting Q (fuel + 1) p q =
      if (Q.top q).idx.toInt = p then
        FileTask.appendWaiting Q fuel (p + (Q.top q).size.toInt) (Q.pop q)
      else if (Q.top q).idx.toInt < p then FileTask.appendWaiting Q fuel p q
      else some (p, q) :=
  if_neg (not_empty_of_extents hq)

/-- A block before the position: the loop does not end. -/
theorem appendWaiting_stuck (hq : extents Q q ≠ 0) (hlt : (Q.top q).idx.toInt < p)
    (fuel : Nat) : FileTask.appendWaiting Q fuel p q = none := by
  induction fuel with
  | zero => rfl
  | succ fuel ih =>
      rw [appendWaiting_cons fuel hq, if_neg (by omega), if_pos hlt]
      exact ih

/-- The loop ends if and only if the waiting blocks are joined. -/
theorem appendWaiting_iff {bs : List Block} (hbs : order Q q = bs) :
    (∃ fuel, (FileTask.appendWaiting Q fuel p q).isSome = true) ↔ Joined p bs := by
  induction bs generalizing p q with
  | nil =>
      have hq : extents Q q = 0 := by
        by_contra hq
        rw [order_cons hq] at hbs
        exact absurd hbs (List.cons_ne_nil _ _)
      exact iff_of_true ⟨1, by rw [appendWaiting_empty 0 hq]; rfl⟩ (joined_nil p)
  | cons c bs ih =>
      have hq : extents Q q ≠ 0 := by
        intro hq
        rw [order_nil hq] at hbs
        exact absurd hbs (List.cons_ne_nil _ _).symm
      rw [order_cons hq] at hbs
      obtain ⟨hc, hrest⟩ := List.cons.inj hbs
      have hidx : (Q.top q).idx.toInt = c.1 := congrArg Prod.fst hc
      have hsize : (Q.top q).size.toInt = c.2 := congrArg Prod.snd hc
      rw [joined_cons]
      rcases Int.lt_trichotomy c.1 p with hlt | heq | hgt
      · refine iff_of_false ?_ (by omega)
        rintro ⟨fuel, h⟩
        rw [appendWaiting_stuck hq (by omega) fuel] at h
        cases h
      · constructor
        · rintro ⟨fuel, h⟩
          cases fuel with
          | zero => cases h
          | succ fuel =>
              rw [appendWaiting_cons fuel hq, if_pos (by omega), hsize] at h
              exact .inr ⟨heq, (ih hrest).mp ⟨fuel, h⟩⟩
        · rintro (hno | ⟨_, hjoined⟩)
          · omega
          · obtain ⟨fuel, h⟩ := (ih hrest).mpr hjoined
            refine ⟨fuel + 1, ?_⟩
            rw [appendWaiting_cons fuel hq, if_pos (by omega), hsize]
            exact h
      · refine iff_of_true ⟨1, ?_⟩ (.inl hgt)
        rw [appendWaiting_cons 0 hq, if_neg (by omega), if_neg (by omega)]
        rfl

/-- Where the loop ends, if it does: not before where it started. -/
theorem appendWaiting_le {fuel : Nat} {r : Int × Q.State}
    (h : FileTask.appendWaiting Q fuel p q = some r) (hpos : ∀ c ∈ extents Q q, 0 ≤ c.2) :
    p ≤ r.1 ∧ ∀ c ∈ extents Q r.2, c ∈ extents Q q := by
  induction fuel generalizing p q with
  | zero => cases h
  | succ fuel ih =>
      by_cases hq : extents Q q = 0
      · rw [appendWaiting_empty fuel hq] at h
        obtain rfl := Option.some.inj h
        exact ⟨Int.le_refl p, fun _ hc => hc⟩
      · rw [appendWaiting_cons fuel hq] at h
        have hpop := extents_pop hq
        split at h
        · have hmem : ∀ c ∈ extents Q (Q.pop q), c ∈ extents Q q :=
            fun c hc => hpop ▸ Multiset.mem_cons_of_mem hc
          have htop : extent (Q.top q) ∈ extents Q q := hpop ▸ Multiset.mem_cons_self ..
          have hsize : 0 ≤ (Q.top q).size.toInt := hpos _ htop
          obtain ⟨hle, hsub⟩ := ih h fun c hc => hpos c (hmem c hc)
          exact ⟨by omega, fun c hc => hmem c (hsub c hc)⟩
        · split at h
          · exact ih h hpos
          · obtain rfl := Option.some.inj h
            exact ⟨Int.le_refl p, fun _ hc => hc⟩

/-- More turns do not change the result. -/
theorem appendWaiting_mono {fuel : Nat} {r : Int × Q.State}
    (h : FileTask.appendWaiting Q fuel p q = some r) (k : Nat) :
    FileTask.appendWaiting Q (fuel + k) p q = some r := by
  induction fuel generalizing p q with
  | zero => cases h
  | succ fuel ih =>
      rw [show fuel + 1 + k = fuel + k + 1 by omega]
      by_cases hq : extents Q q = 0
      · rw [appendWaiting_empty _ hq] at h ⊢
        exact h
      · rw [appendWaiting_cons _ hq] at h ⊢
        split at h
        · next heq =>
            rw [if_pos heq]
            exact ih h
        · next hne =>
            rw [if_neg hne]
            split at h
            · next hlt =>
                rw [if_pos hlt]
                exact ih h
            · next hge =>
                rw [if_neg hge]
                exact h

/-! ## Calls -/

/-- A call returns. -/
def Returns (task : FileTask Q) (b : FileBlock) (task' : FileTask Q) : Prop :=
  ∃ fuel, task.appendDataBlock fuel b.idx b.size b.buf = some task'

theorem returns_next (h : b.idx.toInt = task.curSeqId) :
    Returns task b task' ↔ ∃ fuel r,
      FileTask.appendWaiting Q fuel (task.curSeqId + b.size.toInt) task.unAppendedBlocks =
        some r ∧
      task' = { task with curRecvLen := task.curRecvLen + b.size.toInt, curSeqId := r.1
                          unAppendedBlocks := r.2 } := by
  simp only [Returns, FileTask.appendDataBlock, if_pos h, Option.map_eq_some_iff]
  constructor
  · rintro ⟨fuel, r, hr, rfl⟩
    exact ⟨fuel, r, hr, rfl⟩
  · rintro ⟨fuel, r, hr, rfl⟩
    exact ⟨fuel, r, hr, rfl⟩

/-- The block as it is put into the queue. -/
def kept (b : FileBlock) : FileBlock := { b with buf := b.buf.take b.size.toInt.toNat }

theorem returns_wait (h : b.idx.toInt ≠ task.curSeqId) :
    Returns task b task' ↔
      task' = { task with curRecvLen := task.curRecvLen + b.size.toInt
                          unAppendedBlocks := Q.push task.unAppendedBlocks (kept b) } := by
  simp only [Returns, FileTask.appendDataBlock, if_neg h, Option.some_inj]
  constructor
  · rintro ⟨_, rfl⟩
    rfl
  · rintro rfl
    exact ⟨0, rfl⟩

theorem Returns.unique {task₁ task₂ : FileTask Q} (h₁ : Returns task b task₁)
    (h₂ : Returns task b task₂) : task₁ = task₂ := by
  by_cases hidx : b.idx.toInt = task.curSeqId
  · obtain ⟨fuel₁, r₁, hr₁, rfl⟩ := (returns_next hidx).mp h₁
    obtain ⟨fuel₂, r₂, hr₂, rfl⟩ := (returns_next hidx).mp h₂
    have hboth := appendWaiting_mono hr₁ fuel₂
    rw [Nat.add_comm, appendWaiting_mono hr₂ fuel₁] at hboth
    rw [Option.some.inj hboth]
  · rw [(returns_wait hidx).mp h₁, (returns_wait hidx).mp h₂]

theorem extents_push (Q : BlockQueue) (q : Q.State) (b : FileBlock) :
    extents Q (Q.push q (kept b)) = extent b ::ₘ extents Q q := by
  rw [extents, Q.elems_push, Multiset.map_cons]
  rfl

/-- A call that the loop can finish: the block is not the next one, or the waiting
blocks follow it, up to a gap. -/
def Drains (task : FileTask Q) (b : FileBlock) : Prop :=
  b.idx.toInt = task.curSeqId →
    Joined (task.curSeqId + b.size.toInt) (order Q task.unAppendedBlocks)

theorem returns_iff : (∃ task', Returns task b task') ↔ Drains task b := by
  by_cases h : b.idx.toInt = task.curSeqId
  · rw [Drains, ← appendWaiting_iff rfl]
    simp only [returns_next h, h, forall_const, Option.isSome_iff_exists]
    constructor
    · rintro ⟨_, fuel, r, hr, _⟩
      exact ⟨fuel, r, hr⟩
    · rintro ⟨fuel, r, hr⟩
      exact ⟨_, fuel, r, hr, rfl⟩
  · refine iff_of_true ⟨_, (returns_wait h).mpr rfl⟩ fun heq => absurd heq h

/-- A waiting block that starts before the end of the given one: the call does not
return. -/
theorem not_returns_of_stale (h : b.idx.toInt = task.curSeqId) {c : Block}
    (hc : c ∈ extents Q task.unAppendedBlocks) (hlt : c.1 < task.curSeqId + b.size.toInt) :
    ¬ Returns task b task' := by
  intro hret
  obtain ⟨fuel, r, hr, _⟩ := (returns_next h).mp hret
  have hq : extents Q task.unAppendedBlocks ≠ 0 :=
    fun hzero => absurd (hzero ▸ hc) (Multiset.notMem_zero c)
  rw [appendWaiting_stuck hq (Int.lt_of_le_of_lt (top_least hc) hlt) fuel] at hr
  cases hr

/-- No block waits. -/
theorem returns_alone (h : b.idx.toInt = task.curSeqId)
    (hq : extents Q task.unAppendedBlocks = 0) (hret : Returns task b task') :
    task' = { task with curRecvLen := task.curRecvLen + b.size.toInt
                        curSeqId := task.curSeqId + b.size.toInt } := by
  refine hret.unique ((returns_next h).mpr ⟨1, _, appendWaiting_empty 0 hq, rfl⟩)

/-- Every block that waits has a size. -/
def Measured (task : FileTask Q) : Prop := ∀ c ∈ extents Q task.unAppendedBlocks, 0 ≤ c.2

theorem Returns.grows (h : Returns task b task') (hs : Measured task)
    (hb : 0 ≤ b.size.toInt) : task.curSeqId ≤ task'.curSeqId ∧ Measured task' := by
  by_cases hidx : b.idx.toInt = task.curSeqId
  · obtain ⟨fuel, r, hr, rfl⟩ := (returns_next hidx).mp h
    obtain ⟨hle, hsub⟩ := appendWaiting_le hr hs
    exact ⟨by dsimp only; omega, fun c hc => hs c (hsub c hc)⟩
  · rw [(returns_wait hidx).mp h]
    refine ⟨Int.le_refl _, fun c hc => ?_⟩
    dsimp only at hc
    rw [extents_push, Multiset.mem_cons] at hc
    rcases hc with rfl | hc
    · exact hb
    · exact hs c hc

/-- Every call returns, and none moves the position back. -/
def AllReturn (task : FileTask Q) : List FileBlock → Prop
  | [] => True
  | b :: bs => ∃ task', Returns task b task' ∧ task.curSeqId ≤ task'.curSeqId ∧
      AllReturn task' bs

/-- Every call is one that the loop can finish. -/
def AllDrain (task : FileTask Q) : List FileBlock → Prop
  | [] => True
  | b :: bs => Drains task b ∧ ∀ task', Returns task b task' → AllDrain task' bs

theorem allReturn_iff {bs : List FileBlock} (hs : Measured task)
    (hbs : ∀ b ∈ bs, 0 ≤ b.size.toInt) : AllReturn task bs ↔ AllDrain task bs := by
  induction bs generalizing task with
  | nil => exact Iff.rfl
  | cons b bs ih =>
      have hb := hbs b (List.mem_cons_self ..)
      have hrest : ∀ c ∈ bs, 0 ≤ c.size.toInt := fun c hc => hbs c (List.mem_cons_of_mem b hc)
      constructor
      · rintro ⟨task', hret, _, hall⟩
        refine ⟨returns_iff.mp ⟨task', hret⟩, fun task₂ hret₂ => ?_⟩
        rw [hret₂.unique hret]
        exact (ih (hret.grows hs hb).2 hrest).mp hall
      · rintro ⟨hdrains, hall⟩
        obtain ⟨task', hret⟩ := returns_iff.mpr hdrains
        obtain ⟨hle, hs'⟩ := hret.grows hs hb
        exact ⟨task', hret, hle, (ih hs' hrest).mpr (hall task' hret)⟩

theorem measured_new (Q : BlockQueue) (len : Int) : Measured (FileTask.new Q len) := by
  intro c hc
  have hnone : extents Q (FileTask.new Q len).unAppendedBlocks = 0 :=
    extents_eq_zero.mpr Q.elems_new
  rw [hnone] at hc
  exact absurd hc (Multiset.notMem_zero c)

/-- For any blocks of any indices, given to a new task: every call returns, and the
position never moves back, if and only if each call that brings the next block
finds the waiting ones joined. -/
theorem appends_return_iff (Q : BlockQueue) (len : Int) (bs : List FileBlock)
    (hbs : ∀ b ∈ bs, 0 ≤ b.size.toInt) :
    AllReturn (FileTask.new Q len) bs ↔ AllDrain (FileTask.new Q len) bs :=
  allReturn_iff (measured_new Q len) hbs

/-- A block in its place, one that waits, and the one between them. -/
theorem appends_return_iff_gap :
    AllDrain (FileTask.new BlockQueue.list 10) [⟨0, 4, []⟩, ⟨8, 2, []⟩, ⟨4, 4, []⟩] :=
  (appends_return_iff BlockQueue.list 10 [⟨0, 4, []⟩, ⟨8, 2, []⟩, ⟨4, 4, []⟩]
    (by decide)).mp
    ⟨_, ⟨1, rfl⟩, by decide, _, ⟨1, rfl⟩, by decide, _, ⟨2, rfl⟩, by decide, trivial⟩

/-- A block given twice, and then the next one: that call does not return, whatever
the queue. -/
theorem repeated_block_hangs :
    ¬ ∃ Q : BlockQueue, AllReturn (FileTask.new Q 8) [⟨0, 4, []⟩, ⟨0, 4, []⟩, ⟨4, 4, []⟩] := by
  rintro ⟨Q, task₁, hret₁, _, task₂, hret₂, _, task₃, hret₃, _⟩
  have hnone : extents Q (FileTask.new Q 8).unAppendedBlocks = 0 :=
    extents_eq_zero.mpr Q.elems_new
  have hidx₁ : (⟨0, 4, []⟩ : FileBlock).idx.toInt = (FileTask.new Q 8).curSeqId := rfl
  obtain rfl := returns_alone hidx₁ hnone hret₁
  have hidx₂ : (0 : Int32).toInt ≠ 0 + (4 : Int32).toInt := by decide
  obtain rfl := (returns_wait hidx₂).mp hret₂
  have hidx₃ : (4 : Int32).toInt = 0 + (4 : Int32).toInt := rfl
  refine not_returns_of_stale hidx₃ (extents_push Q _ ⟨0, 4, []⟩ ▸ Multiset.mem_cons_self ..)
    (?_ : (0 : Int32).toInt < 0 + (4 : Int32).toInt + (4 : Int32).toInt) hret₃
  decide

/-! ## The blocks of a cut -/

section

variable {c : Block} {rest : List Block}

theorem top_mem (hq : extents Q q ≠ 0) : extent (Q.top q) ∈ extents Q q :=
  extents_pop hq ▸ Multiset.mem_cons_self ..

/-- The first block waits: it is the top one. -/
theorem top_of_mem (htiles : Tiles p (c :: rest) e) (hpos : ∀ d ∈ c :: rest, 0 < d.2)
    (hsub : extents Q q ≤ ((c :: rest : List Block) : Multiset Block))
    (hmem : c ∈ extents Q q) : extent (Q.top q) = c := by
  have hq : extents Q q ≠ 0 := fun h => absurd (h ▸ hmem) (Multiset.notMem_zero c)
  have hin := Multiset.mem_of_le hsub (top_mem hq)
  rcases List.mem_cons.mp (Multiset.mem_coe.mp hin) with heq | hin
  · exact heq
  · have hlt : p < (Q.top q).idx.toInt := htiles.after_first hpos _ hin
    have hle := top_least hmem
    rw [htiles.1] at hle
    omega

/-- The first block is missing: the loop ends at once. -/
theorem appendWaiting_missing (htiles : Tiles p (c :: rest) e)
    (hpos : ∀ d ∈ c :: rest, 0 < d.2)
    (hsub : extents Q q ≤ ((c :: rest : List Block) : Multiset Block))
    (hmem : c ∉ extents Q q) : FileTask.appendWaiting Q 1 p q = some (p, q) := by
  by_cases hq : extents Q q = 0
  · exact appendWaiting_empty 0 hq
  · have hin := Multiset.mem_of_le hsub (top_mem hq)
    rcases List.mem_cons.mp (Multiset.mem_coe.mp hin) with heq | hin
    · exact absurd (heq ▸ top_mem hq) hmem
    · have hlt : p < (Q.top q).idx.toInt := htiles.after_first hpos _ hin
      rw [appendWaiting_cons 0 hq, if_neg (by omega), if_neg (by omega)]

end

/-- Blocks that wait among those still to come: the loop takes them up to the first
one that is missing. -/
theorem appendWaiting_tiled {rest : List Block} (htiles : Tiles p rest e)
    (hpos : ∀ c ∈ rest, 0 < c.2) (hsub : extents Q q ≤ (rest : Multiset Block)) :
    ∃ taken left m q', rest = taken ++ left ∧ Tiles p taken m ∧ Tiles m left e ∧
      (∃ fuel, FileTask.appendWaiting Q fuel p q = some (m, q')) ∧
      extents Q q = (taken : Multiset Block) + extents Q q' ∧
      extents Q q' ≤ (left : Multiset Block) ∧ ∀ c ∈ left.head?, c ∉ extents Q q' := by
  induction rest generalizing p q with
  | nil =>
      have hq : extents Q q = 0 := Multiset.le_zero.mp hsub
      exact ⟨[], [], p, q, rfl, rfl, htiles, ⟨1, appendWaiting_empty 0 hq⟩,
        (Multiset.zero_add _).symm, hsub, nofun⟩
  | cons c rest ih =>
      by_cases hmem : c ∈ extents Q q
      · have hq : extents Q q ≠ 0 := fun h => absurd (h ▸ hmem) (Multiset.notMem_zero c)
        have htop := top_of_mem htiles hpos hsub hmem
        have hpop := extents_pop hq
        rw [htop] at hpop
        have hsub' : extents Q (Q.pop q) ≤ (rest : Multiset Block) := by
          rw [← hpop] at hsub
          exact (Multiset.cons_le_cons_iff c).mp hsub
        obtain ⟨taken, left, m, q', rfl, htaken, hleft, ⟨fuel, hfuel⟩, hall, hle, hmiss⟩ :=
          ih htiles.2 (fun d hd => hpos d (List.mem_cons_of_mem c hd)) hsub'
        refine ⟨c :: taken, left, m, q', rfl, ⟨htiles.1, htaken⟩, hleft, ⟨fuel + 1, ?_⟩, ?_,
          hle, hmiss⟩
        · have hidx : (Q.top q).idx.toInt = p := (congrArg Prod.fst htop).trans htiles.1
          have hsize : (Q.top q).size.toInt = c.2 := congrArg Prod.snd htop
          rw [appendWaiting_cons fuel hq, if_pos hidx, hsize]
          exact hfuel
        · rw [← hpop, hall, ← Multiset.cons_coe, Multiset.cons_add]
      · refine ⟨[], c :: rest, p, q, rfl, rfl, htiles,
          ⟨1, appendWaiting_missing htiles hpos hsub hmem⟩, (Multiset.zero_add _).symm, hsub,
          fun d hd => ?_⟩
        obtain rfl : c = d := Option.some.inj hd
        exact hmem

/-- Between two calls: the blocks up to the position have been given, the others
that were given wait, and the one at the position has not been. -/
structure Midfile (len : Int) (given done rest : List Block) (task : FileTask Q) :
    Prop where
  before : Tiles 0 done task.curSeqId
  after : Tiles task.curSeqId rest len
  given : (given : Multiset Block) = (done : Multiset Block) +
    extents Q task.unAppendedBlocks
  sub : extents Q task.unAppendedBlocks ≤ (rest : Multiset Block)
  missing : ∀ c ∈ rest.head?, c ∉ extents Q task.unAppendedBlocks

section

variable {len : Int} {c : Block} {given done rest : List Block}

theorem coe_snoc (given : List Block) (c : Block) :
    ((given ++ [c] : List Block) : Multiset Block) = c ::ₘ given :=
  Multiset.coe_eq_coe.mpr (List.perm_append_singleton ..)

/-- The block at the position: those that wait behind it go with it. -/
theorem Midfile.next (h : Midfile len given done (extent b :: rest) task)
    (hpos : ∀ c ∈ extent b :: rest, 0 < c.2) :
    ∃ task' taken left, Returns task b task' ∧ extent b :: rest = taken ++ left ∧
      Midfile len (given ++ [extent b]) (done ++ taken) left task' := by
  have hidx : b.idx.toInt = task.curSeqId := h.after.1
  have hsub : extents Q task.unAppendedBlocks ≤ (rest : Multiset Block) :=
    (Multiset.le_cons_of_notMem (h.missing (extent b) rfl)).mp h.sub
  obtain ⟨taken, left, m, q', rfl, htaken, hleft, ⟨fuel, hfuel⟩, hall, hle, hmiss⟩ :=
    appendWaiting_tiled h.after.2 (fun d hd => hpos d (List.mem_cons_of_mem _ hd)) hsub
  refine ⟨_, extent b :: taken, left, (returns_next hidx).mpr ⟨fuel, _, hfuel, rfl⟩, rfl,
    tiles_append.mpr ⟨_, h.before, h.after.1, htaken⟩, hleft, ?_, hle, hmiss⟩
  rw [coe_snoc, h.given, hall, ← Multiset.coe_add, ← Multiset.cons_coe, Multiset.add_cons,
    Multiset.cons_add, Multiset.add_assoc]

/-- A block behind the position: it waits. -/
theorem Midfile.wait (h : Midfile len given done (c :: rest) task)
    (hpos : ∀ d ∈ c :: rest, 0 < d.2) (hb : extent b ∈ rest)
    (hwait : extent b ∉ extents Q task.unAppendedBlocks) :
    ∃ task', Returns task b task' ∧
      Midfile len (given ++ [extent b]) done (c :: rest) task' := by
  have hafter : task.curSeqId < b.idx.toInt := h.after.after_first hpos _ hb
  refine ⟨_, (returns_wait (by omega)).mpr rfl, h.before, h.after, ?_, ?_, ?_⟩
  · dsimp only
    rw [extents_push, coe_snoc, h.given, Multiset.add_cons]
  · dsimp only
    rw [extents_push]
    exact (Multiset.cons_le_of_notMem hwait).mpr
      ⟨Multiset.mem_coe.mpr (List.mem_cons_of_mem c hb), h.sub⟩
  · intro d hd hmem
    dsimp only at hmem
    rw [extents_push, Multiset.mem_cons] at hmem
    obtain rfl : c = d := Option.some.inj hd
    rcases hmem with rfl | hmem
    · have hfirst : b.idx.toInt = task.curSeqId := h.after.1
      omega
    · exact h.missing c rfl hmem

/-- One more block of the cut. -/
theorem Midfile.step (h : Midfile len given done rest task) (hpos : ∀ c ∈ rest, 0 < c.2)
    (hb : extent b ∈ rest) (hnew : extent b ∉ given) :
    ∃ task' taken left, Returns task b task' ∧ rest = taken ++ left ∧
      Midfile len (given ++ [extent b]) (done ++ taken) left task' := by
  obtain ⟨c, rest, rfl⟩ := List.exists_cons_of_ne_nil (List.ne_nil_of_mem hb)
  rcases List.mem_cons.mp hb with rfl | hin
  · exact h.next hpos
  · have hwait : extent b ∉ extents Q task.unAppendedBlocks := by
      intro hmem
      refine hnew (Multiset.mem_coe.mp ?_)
      rw [h.given]
      exact Multiset.mem_add.mpr (.inr hmem)
    obtain ⟨task', hret, hmid⟩ := h.wait hpos hin hwait
    refine ⟨task', [], c :: rest, hret, rfl, ?_⟩
    rw [List.append_nil]
    exact hmid

end

theorem midfile_new {len : Int} {cut : List Block} (hcut : Tiles 0 cut len) :
    Midfile len [] [] cut (FileTask.new Q len) := by
  have hnone : extents Q (FileTask.new Q len).unAppendedBlocks = 0 :=
    extents_eq_zero.mpr Q.elems_new
  refine ⟨rfl, hcut, ?_, ?_, ?_⟩
  · rw [hnone]
    rfl
  · rw [hnone]
    exact Multiset.zero_le _
  · intro c _
    rw [hnone]
    exact Multiset.notMem_zero c

/-- The position is the end of what the given blocks cover from the start. -/
theorem Midfile.prefix_end {len : Int} {given done rest : List Block}
    (h : Midfile len given done rest task) (hpos : ∀ c ∈ done ++ rest, 0 < c.2) :
    IsGreatest {e | e ≤ len ∧ ∀ x, 0 ≤ x → x < e → ∃ c ∈ given, Covers c x}
      task.curSeqId := by
  have hmem : ∀ c, c ∈ given ↔ c ∈ done ∨ c ∈ extents Q task.unAppendedBlocks := by
    intro c
    rw [← Multiset.mem_coe, h.given, Multiset.mem_add, Multiset.mem_coe]
  have hnodup := (tiles_append.mpr ⟨_, h.before, h.after⟩).nodup hpos
  refine h.before.prefix_end h.after hpos (fun c hc => (hmem c).mpr (.inl hc)) ?_ ?_
  · intro c hc
    rcases (hmem c).mp hc with hin | hin
    · exact List.mem_append_left _ hin
    · exact List.mem_append_right _ (Multiset.mem_coe.mp (Multiset.mem_of_le h.sub hin))
  · intro c hc hin
    rcases (hmem c).mp hin with hin | hin
    · exact List.disjoint_of_nodup_append hnodup hin (List.mem_of_mem_head? hc)
    · exact h.missing c hc hin

/-- At the end, all blocks have been given. -/
theorem Midfile.fin_iff {len : Int} {given done rest : List Block}
    (h : Midfile len given done rest task) (hlen : task.len = len)
    (hpos : ∀ c ∈ rest, 0 < c.2) :
    task.checkFin = true ↔ (given : Multiset Block) = ((done ++ rest : List Block) :
      Multiset Block) := by
  rw [FileTask.checkFin, decide_eq_true_iff, hlen, h.after.end_iff hpos, h.given,
    ← Multiset.coe_add, Multiset.add_right_inj]
  constructor
  · rintro rfl
    exact Multiset.le_zero.mp h.sub
  · intro heq
    cases rest with
    | nil => rfl
    | cons c rest =>
        refine absurd ?_ (h.missing c rfl)
        rw [heq]
        exact Multiset.mem_coe.mpr (List.mem_cons_self ..)

/-- Every call for the blocks, in this order, has returned. -/
inductive Fed (start : FileTask Q) : List FileBlock → FileTask Q → Prop
  | nil : Fed start [] start
  | snoc {bs : List FileBlock} {b : FileBlock} {task task' : FileTask Q} :
      Fed start bs task → Returns task b task' → Fed start (bs ++ [b]) task'

theorem Returns.received (h : Returns task b task') :
    task'.curRecvLen = task.curRecvLen + b.size.toInt ∧ task'.len = task.len := by
  by_cases hidx : b.idx.toInt = task.curSeqId
  · obtain ⟨_, _, _, rfl⟩ := (returns_next hidx).mp h
    exact ⟨rfl, rfl⟩
  · rw [(returns_wait hidx).mp h]
    exact ⟨rfl, rfl⟩

theorem Fed.received {start : FileTask Q} {bs : List FileBlock} (h : Fed start bs task) :
    task.curRecvLen = start.curRecvLen + (bs.map fun b => b.size.toInt).sum ∧
      task.len = start.len := by
  induction h with
  | nil => exact ⟨(Int.add_zero _).symm, rfl⟩
  | snoc _ hret ih =>
      rw [hret.received.1, hret.received.2, ih.1, ih.2, List.map_append, List.sum_append,
        Int.add_assoc]
      exact ⟨by simp, rfl⟩

/-- Some blocks of a cut, each given once. -/
theorem fed_midfile (Q : BlockQueue) {len : Int} {cut : List Block} (hcut : Tiles 0 cut len)
    (hpos : ∀ c ∈ cut, 0 < c.2) {given : List FileBlock}
    (hsub : ∀ b ∈ given, extent b ∈ cut) (hnodup : (given.map extent).Nodup) :
    ∃ task done rest, Fed (FileTask.new Q len) given task ∧ done ++ rest = cut ∧
      Midfile len (given.map extent) done rest task := by
  induction given using List.reverseRecOn with
  | nil => exact ⟨_, [], cut, .nil, rfl, midfile_new hcut⟩
  | append_singleton given b ih =>
      rw [List.map_append, List.nodup_append] at hnodup
      obtain ⟨hgiven, _, hnew⟩ := hnodup
      obtain ⟨task, done, rest, hfed, rfl, hmid⟩ :=
        ih (fun c hc => hsub c (List.mem_append_left _ hc)) hgiven
      have hfresh : extent b ∉ given.map extent :=
        fun hmem => hnew _ hmem _ (List.mem_cons_self ..) rfl
      have hrest : extent b ∈ rest := by
        have hin := hsub b (List.mem_append_right _ (List.mem_cons_self ..))
        refine (List.mem_append.mp hin).resolve_left fun hdone => hfresh ?_
        rw [← Multiset.mem_coe, hmid.given]
        exact Multiset.mem_add.mpr (.inl (Multiset.mem_coe.mpr hdone))
      obtain ⟨task', taken, left, hret, rfl, hmid'⟩ :=
        hmid.step (fun c hc => hpos c (List.mem_append_right _ hc)) hrest hfresh
      refine ⟨task', done ++ taken, left, hfed.snoc hret, List.append_assoc .., ?_⟩
      rw [List.map_append]
      exact hmid'

/-- A file is put together from the blocks of any cut in any order: every call
returns, and after each the position is the end of the longest prefix that the
blocks given so far cover, the length received is the sum of their sizes, and the
task is finished once all are given, and not before. -/
theorem blocks_reassemble (Q : BlockQueue) (len : Int) (cut given : List FileBlock)
    (hcut : Tiles 0 (cut.map extent) len) (hpos : ∀ b ∈ cut, 0 < b.size.toInt)
    (hgiven : given.Perm cut) (k : Nat) (hk : k ≤ given.length) :
    ∃ task, Fed (FileTask.new Q len) (given.take k) task ∧
      IsGreatest {e | e ≤ len ∧
        ∀ x, 0 ≤ x → x < e → ∃ b ∈ given.take k, Covers (extent b) x} task.curSeqId ∧
      task.curRecvLen = ((given.take k).map fun b => b.size.toInt).sum ∧
      (task.checkFin = true ↔ k = given.length) := by
  have hpos' : ∀ c ∈ cut.map extent, 0 < c.2 := by
    intro c hc
    obtain ⟨b, hb, rfl⟩ := List.mem_map.mp hc
    exact hpos b hb
  have hall : (given.map extent).Perm (cut.map extent) := hgiven.map extent
  have hnodup : ((given.take k).map extent).Nodup :=
    (hall.nodup_iff.mpr (hcut.nodup hpos')).sublist ((List.take_sublist k given).map extent)
  obtain ⟨task, done, rest, hfed, hsplit, hmid⟩ := fed_midfile Q hcut hpos'
    (fun b hb => hall.subset (List.mem_map_of_mem (List.mem_of_mem_take hb))) hnodup
  rw [← hsplit] at hpos' hall
  refine ⟨task, hfed, ?_, ?_, ?_⟩
  · have hend := hmid.prefix_end hpos'
    simp only [List.mem_map, exists_exists_and_eq_and] at hend
    exact hend
  · rw [hfed.received.1]
    exact Int.zero_add _
  · rw [hmid.fin_iff hfed.received.2 fun c hc => hpos' c (List.mem_append_right _ hc),
      Multiset.coe_eq_coe]
    constructor
    · intro hperm
      have hlen := (hperm.trans hall.symm).length_eq
      rw [List.length_map, List.length_map, List.length_take, Nat.min_eq_left hk] at hlen
      exact hlen
    · rintro rfl
      rw [List.take_length]
      exact hall

/-- Three blocks, the last one first. -/
theorem blocks_reassemble_three :
    let given : List FileBlock := [⟨6, 3, []⟩, ⟨0, 4, []⟩, ⟨4, 2, []⟩]
    ∃ task, Fed (FileTask.new BlockQueue.list 9) given task ∧ task.checkFin = true := by
  intro given
  obtain ⟨task, hfed, _, _, hfin⟩ := blocks_reassemble BlockQueue.list 9
    [⟨0, 4, []⟩, ⟨4, 2, []⟩, ⟨6, 3, []⟩] given (by decide) (by decide) (by decide) 3
    (by decide)
  exact ⟨task, hfed, hfin.mpr rfl⟩

end Daenet.Proofs
