import Mathlib.Data.Multiset.AddSub

/-!
# Receiving a file

`FileTask`: a file arrives in blocks, and a block that does not come next waits in
a `std::priority_queue`. An index and a size are `int`s; the position is a `long`,
which is an integer here: it moves past a block only from that block's index, so
that it stays below `2 ^ 32`.

A priority queue has to give the greatest of its elements, and which one if there
are several is not laid down. So it is any implementation with the documented
behaviour, and every theorem is about all of them.
-/

namespace Daenet.Ref

/-- `std::priority_queue<T>` with `operator<`: its states and operations. `elems` is
what a state holds. -/
structure PriorityQueue (T : Type) (lt : T → T → Bool) where
  State : Type
  elems : State → Multiset T
  new : State
  empty : State → Bool
  push : State → T → State
  top : State → T
  pop : State → State
  elems_new : elems new = 0
  empty_iff : ∀ q, empty q = true ↔ elems q = 0
  elems_push : ∀ q t, elems (push q t) = t ::ₘ elems q
  top_greatest : ∀ q, ∀ t ∈ elems q, lt (top q) t = false
  elems_pop : ∀ q, elems q ≠ 0 → top q ::ₘ elems (pop q) = elems q

/-- `FileBlock`. -/
structure FileBlock where
  idx : Int32
  size : Int32
  buf : List UInt8 := []
  deriving DecidableEq, Repr

/-- `operator<`, inverted: the greatest block is the one with the least index. -/
def FileBlock.lt (left right : FileBlock) : Bool := decide (right.idx.toInt < left.idx.toInt)

/-- The queue of the waiting blocks. -/
abbrev BlockQueue := PriorityQueue FileBlock FileBlock.lt

namespace BlockQueue

/-- The first block with the least index. -/
def least : FileBlock → List FileBlock → FileBlock
  | b, [] => b
  | b, c :: cs => if c.idx.toInt < b.idx.toInt then least c cs else least b cs

theorem least_mem (b : FileBlock) (bs : List FileBlock) : least b bs ∈ b :: bs := by
  induction bs generalizing b with
  | nil => exact List.mem_cons_self ..
  | cons c cs ih =>
      rw [least]
      split
      · exact List.mem_cons_of_mem b (ih c)
      · rcases List.mem_cons.mp (ih b) with heq | hmem
        · rw [heq]
          exact List.mem_cons_self ..
        · exact List.mem_cons_of_mem b (List.mem_cons_of_mem c hmem)

theorem least_le (b : FileBlock) (bs : List FileBlock) :
    ∀ c ∈ b :: bs, (least b bs).idx.toInt ≤ c.idx.toInt := by
  induction bs generalizing b with
  | nil => simp [least]
  | cons c cs ih =>
      have hb := ih b b (List.mem_cons_self ..)
      have hc := ih c c (List.mem_cons_self ..)
      intro d hd
      rw [least]
      simp only [List.mem_cons] at hd
      rcases hd with rfl | rfl | hd
      · split <;> omega
      · split <;> omega
      · split
        · exact ih c d (List.mem_cons_of_mem c hd)
        · exact ih b d (List.mem_cons_of_mem b hd)

/-- What a list has on top; an empty one has nothing. -/
def first : List FileBlock → FileBlock
  | [] => ⟨0, 0, []⟩
  | b :: bs => least b bs

/-- One implementation: a list, in which the first of the least is looked for. -/
def list : BlockQueue where
  State := List FileBlock
  elems q := q
  new := []
  empty q := q.isEmpty
  push q b := q ++ [b]
  top := first
  pop q := q.erase (first q)
  elems_new := rfl
  empty_iff q := List.isEmpty_iff.trans (Multiset.coe_eq_zero q).symm
  elems_push q b := Multiset.coe_eq_coe.mpr (List.perm_append_singleton b q)
  top_greatest q b hb := by
    cases q with
    | nil => exact absurd hb (Multiset.notMem_zero b)
    | cons c cs => exact decide_eq_false (Int.not_lt.mpr (least_le c cs b hb))
  elems_pop q hq := by
    cases q with
    | nil => exact absurd rfl hq
    | cons c cs => exact Multiset.coe_eq_coe.mpr (List.perm_cons_erase (least_mem c cs)).symm

end BlockQueue

/-- `FileTask`. The name and the hash of the file are only printed. -/
structure FileTask (Q : BlockQueue) where
  len : Int
  curSeqId : Int := 0
  curRecvLen : Int := 0
  unAppendedBlocks : Q.State := Q.new

namespace FileTask

variable {Q : BlockQueue}

/-- The loop of `append_data_block` that checks for waiting blocks, cut off after
`fuel` turns. A block before the position is reported, and stays where it is. -/
def appendWaiting (Q : BlockQueue) : Nat → Int → Q.State → Option (Int × Q.State)
  | 0, _, _ => none
  | fuel + 1, curSeqId, blocks =>
      if Q.empty blocks then some (curSeqId, blocks)
      else
        let block := Q.top blocks
        if block.idx.toInt = curSeqId then
          appendWaiting Q fuel (curSeqId + block.size.toInt) (Q.pop blocks)
        else if block.idx.toInt < curSeqId then appendWaiting Q fuel curSeqId blocks
        else some (curSeqId, blocks)

/-- `append_data_block`, with its loop cut off after `fuel` turns. -/
def appendDataBlock (task : FileTask Q) (fuel : Nat) (idx size : Int32)
    (buf : List UInt8) : Option (FileTask Q) :=
  let curRecvLen := task.curRecvLen + size.toInt
  if idx.toInt = task.curSeqId then
    (appendWaiting Q fuel (task.curSeqId + size.toInt) task.unAppendedBlocks).map fun r =>
      { task with curRecvLen := curRecvLen, curSeqId := r.1, unAppendedBlocks := r.2 }
  else
    let block : FileBlock := { idx, size, buf := buf.take size.toInt.toNat }
    some { task with curRecvLen := curRecvLen
                     unAppendedBlocks := Q.push task.unAppendedBlocks block }

/-- `check_fin`. -/
def checkFin (task : FileTask Q) : Bool := decide (task.curSeqId = task.len)

/-- A new task for a file. -/
def new (Q : BlockQueue) (len : Int) : FileTask Q where
  len := len

end FileTask

end Daenet.Ref
