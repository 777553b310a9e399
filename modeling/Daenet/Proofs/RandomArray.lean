import Daenet.Lib.Runs
import Daenet.Lib.Slide
import Daenet.Proofs.Heap
import Daenet.Ref.RandomArray

/-!
# The random queue in its memory

Whatever a call takes out, it does in one way: the element leaves its slot, the last
one moves there, and the front is one shorter (`Took`). The two branches of
`pop_random` and `pop_front` differ in how they choose the slot and in what they
leave behind the front. So elements are conserved as long as `n` is at most the
capacity, and that is where `push` fails: on a full array it writes behind the end.

A null pointer that was pushed is lost for the count when it is taken out, as it
looks like no result.
-/

namespace Daenet.Proofs

open Daenet.Lib Daenet.Ref

variable {T : Type} {nullptr : T} {moved : T → T} {q : RandomArray T} {idx : Nat}

/-! ## One call -/

/-- The slot that a call takes an element from, if any. -/
def drawn (q : RandomArray T) : RandomArray.Call T → Option Nat
  | .push _ => none
  | .popFront => if q.n = 0 then none else some (q.n - 1)
  | .popRandom minPool idxS => atRandom minPool idxS
  | .popWithP accept r idxS => if accept r then atRandom 0 idxS else none
where
  atRandom (minPool : Nat) (idxS : UInt32) : Option Nat :=
    let idx := idxS.toNat % max q.n minPool
    if idx < q.n then some idx else none

/-- The element of slot `idx` was taken out: the last one stands in its place. -/
structure Took (q : RandomArray T) (idx : Nat) (ret : RandomArray.Returned T) : Prop where
  lt : idx < q.n
  result : ret.result = some (q.arr idx)
  n : ret.queue.n = q.n - 1
  capacity : ret.queue.capacity = q.capacity
  filled : ∀ k < q.n - 1, ret.queue.arr k = if k = idx then q.arr (q.n - 1) else q.arr k
  accessed : ∀ i ∈ ret.accessed, i < q.n

/-- The hole filled, before anything is done to the slot behind the front. -/
theorem move_filled {arr : Nat → T} (hne : idx ≠ q.n - 1)
    (harr : ∀ k, k ≠ idx → arr k = q.arr k) {k : Nat} (hk : k < q.n - 1) :
    Heap.move moved arr idx (q.n - 1) k = if k = idx then q.arr (q.n - 1) else q.arr k := by
  split
  · next heq => rw [heq, move_dst moved arr hne, harr _ (Ne.symm hne)]
  · next hother => rw [move_rest moved arr hother (by omega), harr k hother]

theorem took_last (moved : T → T) (hidx : idx = q.n - 1) (hn : q.n ≠ 0) :
    Took q idx
      { result := some (q.arr idx)
        queue := { q with arr := Function.update q.arr idx (moved (q.arr idx)), n := q.n - 1 }
        accessed := [idx] } where
  lt := by omega
  result := rfl
  n := rfl
  capacity := rfl
  filled k hk := by
    rw [if_neg (by omega)]
    exact Function.update_of_ne (by omega) ..
  accessed i hi := by
    rw [List.mem_singleton.mp hi]
    omega

/-- Another slot than the last: what is written behind the front, and how often slots
are accessed, makes no difference. -/
theorem took_other (hidx : idx < q.n - 1) {arr : Nat → T}
    (harr : ∀ k < q.n - 1, arr k = if k = idx then q.arr (q.n - 1) else q.arr k)
    {accessed : List Nat} (hacc : ∀ i ∈ accessed, i = idx ∨ i = q.n - 1) :
    Took q idx
      { result := some (q.arr idx), queue := { q with arr := arr, n := q.n - 1 }, accessed } where
  lt := by omega
  result := rfl
  n := rfl
  capacity := rfl
  filled := harr
  accessed i hi := by
    have := hacc i hi
    omega

/-- What a call that pops comes to, by the slot it draws. -/
def Pops (nullptr : T) (q : RandomArray T) : Option Nat → RandomArray.Returned T → Prop
  | none, ret => ret = { result := some nullptr, queue := q }
  | some idx, ret => Took q idx ret

theorem popFront_pops : Pops nullptr q (drawn q .popFront) (q.popFront nullptr moved) := by
  rw [drawn, RandomArray.popFront]
  split
  · exact rfl
  · next hn => exact took_last moved rfl hn

theorem popRandom_pops (minPool : Nat) (idxS : UInt32) :
    Pops nullptr q (drawn.atRandom q minPool idxS)
      (q.popRandom nullptr moved minPool idxS) := by
  have hupdate : ∀ idx k, k ≠ idx →
      Function.update q.arr idx (moved (q.arr idx)) k = q.arr k :=
    fun idx k hk => Function.update_of_ne hk ..
  rw [drawn.atRandom, RandomArray.popRandom]
  by_cases hmin : minPool = 0
  · rw [if_pos hmin, hmin, Nat.max_eq_left (Nat.zero_le _)]
    dsimp only
    by_cases hn : q.n = 0
    · rw [if_pos hn, if_neg (by omega)]
      exact rfl
    · have hlt := Nat.mod_lt idxS.toNat (Nat.pos_of_ne_zero hn)
      rw [if_neg hn, if_pos hlt]
      split
      · next hne =>
          refine took_other (by omega) (fun k hk => ?_) (by simp)
          rw [Function.update_of_ne (by omega)]
          exact move_filled hne (hupdate _) hk
      · next heq => exact took_last moved (not_not.mp heq) hn
  · rw [if_neg hmin]
    dsimp only
    by_cases hge : idxS.toNat % max q.n minPool ≥ q.n
    · rw [if_pos hge, if_neg (by omega)]
      exact rfl
    · rw [if_neg hge, if_pos (by omega)]
      split
      · next hne =>
          exact took_other (by omega) (fun k hk => move_filled hne (hupdate _) hk) (by simp)
      · next heq => exact took_last moved (not_not.mp heq) (by omega)

theorem popWithP_pops (accept : Nat → Bool) (r : Nat) (idxS : UInt32) :
    Pops nullptr q (drawn q (.popWithP accept r idxS))
      (q.popWithP nullptr moved accept r idxS) := by
  rw [drawn, RandomArray.popWithP]
  split
  · exact popRandom_pops 0 idxS
  · exact rfl

theorem Pops.cases {slot : Option Nat} {ret : RandomArray.Returned T}
    (h : Pops nullptr q slot ret) :
    (slot = none ∧ ret = { result := some nullptr, queue := q }) ∨
      ∃ idx, slot = some idx ∧ Took q idx ret := by
  cases slot with
  | none => exact .inl ⟨rfl, h⟩
  | some idx => exact .inr ⟨idx, rfl, h⟩

/-- A call pushes, or finds nothing and leaves the queue as it was, or takes the
element of the slot that it draws. -/
theorem call_cases (nullptr : T) (moved : T → T) (q : RandomArray T)
    (call : RandomArray.Call T) :
    (∃ t, call = .push t) ∨
      (∀ t, call ≠ .push t) ∧
        ((drawn q call = none ∧
            q.call nullptr moved call = { result := some nullptr, queue := q }) ∨
          ∃ idx, drawn q call = some idx ∧ Took q idx (q.call nullptr moved call)) := by
  cases call with
  | push t => exact .inl ⟨t, rfl⟩
  | popFront => exact .inr ⟨nofun, popFront_pops.cases⟩
  | popRandom minPool idxS => exact .inr ⟨nofun, (popRandom_pops minPool idxS).cases⟩
  | popWithP accept r idxS => exact .inr ⟨nofun, (popWithP_pops accept r idxS).cases⟩

/-! ## Elements -/

/-- The elements at the front, the taken one apart. -/
theorem Took.slots {ret : RandomArray.Returned T} (h : Took q idx ret) :
    Lib.slots q.arr q.n = q.arr idx ::ₘ Lib.slots ret.queue.arr ret.queue.n := by
  have hlt := h.lt
  obtain ⟨k, hk⟩ : ∃ k, q.n = k + 1 := ⟨q.n - 1, by omega⟩
  have hfilled := h.filled
  rw [h.n, hk, Nat.add_sub_cancel]
  rw [hk, Nat.add_sub_cancel] at hfilled
  rcases Nat.lt_or_ge idx k with hin | hout
  · have hsame : Lib.slots ret.queue.arr k =
        Lib.slots (Function.update q.arr idx (q.arr k)) k := by
      refine slots_congr fun j hj => ?_
      rw [hfilled j hj, Function.update_apply]
    rw [hsame, slots_update hin, slots_succ, slots_eq_cons hin, Multiset.cons_swap]
  · obtain rfl : idx = k := by omega
    have hsame : Lib.slots ret.queue.arr idx = Lib.slots q.arr idx := by
      refine slots_congr fun j hj => ?_
      rw [hfilled j hj, if_neg (by omega)]
    rw [hsame, slots_succ]

/-! ## The queue as a list

The pools are built from queues that are lists. Each operation on the array is that
on the list of the elements at its front, so what is proved of the lists holds of
the arrays, as long as these are not overrun. -/

/-- The elements at the front, in order. -/
def listed (q : RandomArray T) : ConcurrentRandomQueue T where
  capacity := q.capacity
  arr := (List.range q.n).map q.arr

theorem listed_push (q : RandomArray T) (t : T) :
    listed (q.push t).queue = (listed q).push t := by
  have hfront : (List.range q.n).map (Function.update q.arr q.n t) =
      (List.range q.n).map q.arr := by
    refine List.map_congr_left fun k hk => Function.update_of_ne ?_ ..
    exact Nat.ne_of_lt (List.mem_range.mp hk)
  simp only [listed, RandomArray.push, ConcurrentRandomQueue.push, List.range_succ,
    List.map_append, List.map_cons, List.map_nil, Function.update_self, hfront]

theorem listed_size (q : RandomArray T) : (listed q).size = q.n := by
  simp [listed, ConcurrentRandomQueue.size]

theorem listed_getLast (hn : q.n ≠ 0) : (listed q).arr.getLast? = some (q.arr (q.n - 1)) := by
  rw [listed, List.getLast?_map, List.getLast?_range, if_neg hn]
  rfl

/-- What is left at the front, as the list is written. -/
theorem Took.front {ret : RandomArray.Returned T} (h : Took q idx ret) :
    { listed q with arr := ((listed q).arr.set idx (q.arr (q.n - 1))).dropLast } =
      listed ret.queue := by
  have hfront : ((listed q).arr.set idx (q.arr (q.n - 1))).dropLast =
      (listed ret.queue).arr := by
    refine List.ext_getElem (by simp [listed, h.n]) fun k hk hk' => ?_
    have hin : k < q.n - 1 := by simpa [listed, h.n] using hk'
    simp only [listed, List.getElem_dropLast, List.getElem_set, List.getElem_map,
      List.getElem_range, h.filled k hin, eq_comm]
  rw [hfront, listed, listed, h.capacity]

/-- An element taken out of the array is taken out of the list. -/
theorem Took.takeSlot {ret : RandomArray.Returned T} (h : Took q idx ret) :
    (listed q).takeSlot idx = (some (q.arr idx), listed ret.queue) := by
  have hlt := h.lt
  have hget : (listed q).arr[idx]? = some (q.arr idx) := by
    simp [listed, hlt]
  rw [ConcurrentRandomQueue.takeSlot, hget, listed_getLast (by omega), ← h.front]

/-- `pop_random` on the list is what it is on the array. -/
theorem listed_popRandom (nullptr : T) (moved : T → T) (q : RandomArray T) (minPool : Nat)
    (idxS : UInt32) :
    (listed q).popRandom minPool idxS.toNat =
      ((drawn.atRandom q minPool idxS).map q.arr,
        listed (q.popRandom nullptr moved minPool idxS).queue) := by
  have hpops : Pops nullptr q _ (q.popRandom nullptr moved minPool idxS) :=
    popRandom_pops minPool idxS
  generalize q.popRandom nullptr moved minPool idxS = ret at hpops ⊢
  rw [ConcurrentRandomQueue.popRandom, listed_size]
  by_cases hin : idxS.toNat % max q.n minPool < q.n
  · rw [drawn.atRandom, if_pos hin] at hpops ⊢
    have htake := Took.takeSlot hpops
    by_cases hmin : minPool = 0
    · rw [hmin, Nat.max_eq_left (Nat.zero_le _)] at htake ⊢
      rw [if_pos rfl, if_neg (by omega)]
      exact htake
    · rw [if_neg hmin]
      dsimp only
      rw [if_neg (by omega)]
      exact htake
  · rw [drawn.atRandom, if_neg hin] at hpops ⊢
    have hret : ret = { result := some nullptr, queue := q } := hpops
    rw [hret]
    by_cases hmin : minPool = 0
    · rw [hmin, Nat.max_eq_left (Nat.zero_le _)] at hin
      have hn : q.n = 0 := by
        by_contra hn
        exact hin (Nat.mod_lt _ (Nat.pos_of_ne_zero hn))
      rw [if_pos hmin, if_pos hn]
      rfl
    · rw [if_neg hmin]
      dsimp only
      rw [if_pos (by omega)]
      rfl

/-- And so is `pop_with_P`, which is what the pools call. -/
theorem listed_popWithP (nullptr : T) (moved : T → T) (q : RandomArray T)
    (accept : Nat → Bool) (r : Nat) (idxS : UInt32) :
    (listed q).popWithP accept r idxS.toNat =
      ((drawn q (.popWithP accept r idxS)).map q.arr,
        listed (q.popWithP nullptr moved accept r idxS).queue) := by
  rw [ConcurrentRandomQueue.popWithP, RandomArray.popWithP, drawn]
  split
  · exact listed_popRandom nullptr moved q 0 idxS
  · rfl

theorem listed_popFront (nullptr : T) (moved : T → T) (q : RandomArray T) :
    (listed q).popFront =
      ((drawn q .popFront).map q.arr, listed (q.popFront nullptr moved).queue) := by
  have hpops : Pops nullptr q _ (q.popFront nullptr moved) := popFront_pops
  generalize q.popFront nullptr moved = ret at hpops ⊢
  rw [ConcurrentRandomQueue.popFront]
  by_cases hn : q.n = 0
  · rw [drawn, if_pos hn] at hpops ⊢
    have hret : ret = { result := some nullptr, queue := q } := hpops
    rw [hret]
    simp [listed, hn]
  · rw [drawn, if_neg hn] at hpops ⊢
    -- the hole is the last slot, so filling it changes nothing
    have hset : (listed q).arr.set (q.n - 1) (q.arr (q.n - 1)) = (listed q).arr := by
      refine List.ext_getElem (by simp) fun k hk hk' => ?_
      simp only [listed, List.getElem_set, List.getElem_map, List.getElem_range]
      split
      · next heq => rw [heq]
      · rfl
    rw [listed_getLast hn, ← Took.front hpops, hset]
    rfl

/-! ## Runs -/

/-- A queue, with what has been pushed into it and what has come out of it. -/
structure QueueRun (T : Type) where
  queue : RandomArray T
  pushed : Multiset T := 0
  popped : Multiset T := 0

section

variable [DecidableEq T]

/-- One call. A null result is no element. -/
def QueueRun.step (nullptr : T) (moved : T → T) (s : QueueRun T) (call : RandomArray.Call T) :
    QueueRun T :=
  let ret := s.queue.call nullptr moved call
  { queue := ret.queue
    pushed :=
      match call with
      | .push t => t ::ₘ s.pushed
      | _ => s.pushed
    popped :=
      match ret.result with
      | some t => if t = nullptr then s.popped else t ::ₘ s.popped
      | none => s.popped }

/-- The slots that a call accesses are in the array, `n` is in its range afterwards,
and what was pushed has come out or is in the queue. -/
structure KeepsAll (nullptr : T) (moved : T → T) (c : Nat) (s : QueueRun T)
    (call : RandomArray.Call T) : Prop where
  accessed : ∀ i ∈ (s.queue.call nullptr moved call).accessed, i < c
  bounded : (s.step nullptr moved call).queue.n ≤ c
  conserved : (s.step nullptr moved call).pushed =
    (s.step nullptr moved call).popped +
      Lib.slots (s.step nullptr moved call).queue.arr (s.step nullptr moved call).queue.n

end

/-- A push finds room, and no null pointer is taken out. -/
def HasRoom (nullptr : T) (c : Nat) (s : QueueRun T) (call : RandomArray.Call T) : Prop :=
  (∀ t, call = .push t → s.queue.n < c) ∧
    ∀ idx ∈ drawn s.queue call, s.queue.arr idx ≠ nullptr

/-- So far: `n` is in its range and nothing is lost. -/
structure Accounted (c : Nat) (s : QueueRun T) : Prop where
  bounded : s.queue.n ≤ c
  conserved : s.pushed = s.popped + Lib.slots s.queue.arr s.queue.n

section

variable [DecidableEq T] {c : Nat} {s : QueueRun T}

theorem keepsAll_push_iff (h : Accounted c s) (t : T) :
    KeepsAll nullptr moved c s (.push t) ↔ s.queue.n < c := by
  constructor
  · exact fun hk => hk.accessed s.queue.n (List.mem_singleton.mpr rfl)
  · intro hlt
    refine ⟨fun i hi => List.mem_singleton.mp hi ▸ hlt, hlt, ?_⟩
    have hslots : Lib.slots (Function.update s.queue.arr s.queue.n t) (s.queue.n + 1) =
        t ::ₘ Lib.slots s.queue.arr s.queue.n := by
      rw [slots_update (Nat.lt_succ_self _), others_last]
    show t ::ₘ s.pushed =
      s.popped + Lib.slots (Function.update s.queue.arr s.queue.n t) (s.queue.n + 1)
    rw [hslots, Multiset.add_cons, h.conserved]

theorem keepsAll_took_iff (h : Accounted c s) {call : RandomArray.Call T}
    (hcall : ∀ t, call ≠ .push t) (htook : Took s.queue idx (s.queue.call nullptr moved call)) :
    KeepsAll nullptr moved c s call ↔ s.queue.arr idx ≠ nullptr := by
  have hpushed : (s.step nullptr moved call).pushed = s.pushed := by
    cases call with
    | push t => exact absurd rfl (hcall t)
    | _ => rfl
  have hpopped : (s.step nullptr moved call).popped =
      if s.queue.arr idx = nullptr then s.popped else s.queue.arr idx ::ₘ s.popped := by
    simp only [QueueRun.step, htook.result]
  have hslots := htook.slots
  have hn := htook.n
  have hlt := htook.lt
  have hle := h.bounded
  constructor
  · intro hk hnull
    have hcons := hk.conserved
    rw [hpushed, hpopped, if_pos hnull, h.conserved, hslots, Multiset.add_cons] at hcons
    have hcard := congrArg Multiset.card hcons
    rw [Multiset.card_cons] at hcard
    exact absurd hcard (Nat.succ_ne_self _)
  · intro hne
    refine ⟨fun i hi => Nat.lt_of_lt_of_le (htook.accessed i hi) hle, ?_, ?_⟩
    · show (s.queue.call nullptr moved call).queue.n ≤ c
      omega
    · rw [hpushed, hpopped, if_neg hne, h.conserved, hslots, Multiset.add_cons,
        Multiset.cons_add]
      rfl

theorem keepsAll_nothing (h : Accounted c s) {call : RandomArray.Call T}
    (hcall : ∀ t, call ≠ .push t)
    (hnone : s.queue.call nullptr moved call = { result := some nullptr, queue := s.queue }) :
    KeepsAll nullptr moved c s call := by
  have hstep : s.step nullptr moved call = s := by
    cases call with
    | push t => exact absurd rfl (hcall t)
    | _ => simp only [QueueRun.step, hnone, if_true]
  refine ⟨?_, ?_, ?_⟩
  · rw [hnone]
    nofun
  · rw [hstep]
    exact h.bounded
  · rw [hstep]
    exact h.conserved

theorem keepsAll_iff (h : Accounted c s) (call : RandomArray.Call T) :
    KeepsAll nullptr moved c s call ↔ HasRoom nullptr c s call := by
  obtain ⟨t, rfl⟩ | ⟨hcall, ⟨hdrawn, hnone⟩ | ⟨idx, hdrawn, htook⟩⟩ :=
    call_cases nullptr moved s.queue call
  · rw [keepsAll_push_iff h t]
    constructor
    · exact fun hlt => ⟨fun _ _ => hlt, nofun⟩
    · exact fun hroom => hroom.1 t rfl
  · refine iff_of_true (keepsAll_nothing h hcall hnone) ⟨?_, ?_⟩
    · exact fun t ht => absurd ht (hcall t)
    · rw [hdrawn]
      nofun
  · rw [keepsAll_took_iff h hcall htook]
    constructor
    · intro hne
      refine ⟨fun t ht => absurd ht (hcall t), fun k hk => ?_⟩
      rw [hdrawn] at hk
      obtain rfl : idx = k := Option.some.inj hk
      exact hne
    · exact fun hroom => hroom.2 idx hdrawn

/-- For every capacity, whatever the array held, whatever is called and drawn: all
slots accessed are in the array, `n` stays in its range and no element is lost, if
and only if every push finds room and no null pointer is taken out. -/
theorem random_queue_keeps_all_iff (nullptr : T) (moved : T → T) (c : Nat) (arr : Nat → T)
    (calls : List (RandomArray.Call T)) :
    Always (QueueRun.step nullptr moved) (KeepsAll nullptr moved c)
        { queue := .new c arr } calls ↔
      Always (QueueRun.step nullptr moved) (HasRoom nullptr c)
        { queue := .new c arr } calls := by
  have hnew : Accounted c { queue := RandomArray.new c arr } :=
    ⟨Nat.zero_le c, (Multiset.zero_add 0).symm⟩
  refine always_iff_of_inv (I := Accounted c) (W := fun _ _ => True) ?_ ?_ hnew
    (always_of_forall (fun _ _ => trivial) _ _)
  · intro s call h _ hroom
    have hkeeps : KeepsAll nullptr moved c s call := (keepsAll_iff h call).mpr hroom
    exact ⟨hkeeps.bounded, hkeeps.conserved⟩
  · exact fun s call h _ => keepsAll_iff h call

/-- As long as no null pointer is pushed, none is taken out. -/
theorem hasRoom_of_pushes (nullptr : T) (moved : T → T) (c : Nat) (arr : Nat → T)
    {calls : List (RandomArray.Call T)}
    (h : Always (QueueRun.step nullptr moved)
      (fun s call => ∀ t, call = .push t → s.queue.n < c ∧ t ≠ nullptr)
      { queue := .new c arr } calls) :
    Always (QueueRun.step nullptr moved) (HasRoom nullptr c) { queue := .new c arr } calls := by
  refine Always.of_inv (I := fun s => ∀ k < s.queue.n, s.queue.arr k ≠ nullptr) ?_ ?_
    (fun k hk => absurd hk (Nat.not_lt_zero k)) h
  · intro s call hlive hpush k hk
    obtain ⟨t, rfl⟩ | ⟨_, ⟨_, hnone⟩ | ⟨idx, _, htook⟩⟩ :=
      call_cases nullptr moved s.queue call
    · have hk' : k < s.queue.n + 1 := hk
      show Function.update s.queue.arr s.queue.n t k ≠ nullptr
      by_cases hlast : k = s.queue.n
      · rw [hlast, Function.update_self]
        exact (hpush t rfl).2
      · rw [Function.update_of_ne hlast]
        exact hlive k (by omega)
    · have hsame : (s.step nullptr moved call).queue = s.queue :=
        congrArg RandomArray.Returned.queue hnone
      rw [hsame] at hk ⊢
      exact hlive k hk
    · have hn : (s.step nullptr moved call).queue.n = s.queue.n - 1 := htook.n
      have hfilled : (s.step nullptr moved call).queue.arr k = _ :=
        htook.filled k (by omega)
      rw [hfilled]
      split
      · exact hlive _ (by omega)
      · exact hlive k (by omega)
  · intro s call hlive hpush
    refine ⟨fun t ht => (hpush t ht).1, fun idx hidx => hlive idx ?_⟩
    obtain ⟨t, rfl⟩ | ⟨_, ⟨hdrawn, _⟩ | ⟨k, hdrawn, htook⟩⟩ :=
      call_cases nullptr moved s.queue call
    · cases hidx
    · rw [hdrawn] at hidx
      cases hidx
    · rw [hdrawn] at hidx
      obtain rfl : k = idx := Option.some.inj hidx
      exact htook.lt

end

/-- An array of one slot, and two pushes: the second one writes behind its end. -/
theorem random_queue_overruns :
    ¬ Always (QueueRun.step none fun _ => none) (KeepsAll none (fun _ => none) 1)
      { queue := RandomArray.new 1 fun _ => none }
      [.push (some 1), .push (some (2 : Nat))] :=
  fun h => absurd (h.2.1.accessed 1 (List.mem_singleton.mpr rfl)) (by decide)

end Daenet.Proofs
