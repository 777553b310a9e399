import Daenet.Lib.Partial
import Daenet.Proofs.Heap
import Daenet.Ref.PoissionPool

/-!
# The pool with deadlines

Three statements about the threads of the pool, in any interleaving that leaves the
unlocked `pop_heap` of `sync_fetch` undisturbed. What is placed by
`send` comes out once and nothing else does. When packets leave says nothing about
`send`: the heap compares deadlines only, and `send` writes the other two fields. And
a packet leaves at its deadline at the earliest, unless the thread that sends has found
the pool empty at its last look: then it has compared the clock with what the first
slot held before, and takes whatever comes next.

That all holds as long as `send` stays inside the array. It does not when the random
number is negative as an `int`, except for a multiple of the number of elements.
-/

namespace Daenet.Proofs

open Daenet.Lib Daenet.Ref

/-! ## A heap seen through a function

Where an element goes depends on comparisons only, so a function of the elements that
keeps these turns one heap into another, call by call. -/

section Views

variable {T U : Type} {lt : T → T → Bool} {lt' : U → U → Bool} {moved : T → T}
  {moved' : U → U} {f : T → U}

/-- Every element through `f`. -/
def viewed (f : T → U) (h : Heap T) : Heap U := ⟨f ∘ h.arr, h.n, h.maxSize⟩

theorem move_viewed (hmoved : ∀ a, moved' (f a) = f (moved a)) (arr : Nat → T)
    (dst src : Nat) :
    Heap.move moved' (f ∘ arr) dst src = f ∘ Heap.move moved arr dst src := by
  simp only [Heap.move, Function.comp_update, Function.comp_apply, hmoved]

theorem up_viewed (hlt : ∀ a b, lt' (f a) (f b) = lt a b)
    (hmoved : ∀ a, moved' (f a) = f (moved a)) (t : T) (fuel : Nat) (arr : Nat → T)
    (index : Nat) :
    Heap.up lt' moved' (f t) fuel (f ∘ arr) index =
      (f ∘ (Heap.up lt moved t fuel arr index).1, (Heap.up lt moved t fuel arr index).2) := by
  induction fuel generalizing arr index with
  | zero => rfl
  | succ fuel ih =>
      simp only [Heap.up, Function.comp_apply, hlt, move_viewed hmoved, ih]
      split
      · split
        · rfl
        · rfl
      · rfl

theorem down_viewed (hlt : ∀ a b, lt' (f a) (f b) = lt a b)
    (hmoved : ∀ a, moved' (f a) = f (moved a)) (n fuel : Nat) (arr : Nat → T)
    (index : Nat) :
    Heap.down lt' moved' n fuel (f ∘ arr) index =
      (f ∘ (Heap.down lt moved n fuel arr index).1,
        (Heap.down lt moved n fuel arr index).2) := by
  induction fuel generalizing arr index with
  | zero => rfl
  | succ fuel ih =>
      simp only [Heap.down, Function.comp_apply, hlt, move_viewed hmoved, ih]
      split
      · split
        · rfl
        · split
          · rfl
          · rfl
      · rfl

theorem insert_viewed (hlt : ∀ a b, lt' (f a) (f b) = lt a b)
    (hmoved : ∀ a, moved' (f a) = f (moved a)) (h : Heap T) (t : T) :
    viewed f (h.insert lt moved t) = (viewed f h).insert lt' moved' (f t) := by
  simp only [viewed, Heap.insert, up_viewed hlt hmoved, Function.comp_update]

theorem popHeap_viewed (hlt : ∀ a b, lt' (f a) (f b) = lt a b)
    (hmoved : ∀ a, moved' (f a) = f (moved a)) (h : Heap T) :
    (viewed f h).popHeap lt' moved' =
      (f (h.popHeap lt moved).1, viewed f (h.popHeap lt moved).2) := by
  have hfirst : Function.update (f ∘ h.arr) 0 (f (moved (h.arr 0))) =
      f ∘ Function.update h.arr 0 (moved (h.arr 0)) := (Function.comp_update ..).symm
  simp only [viewed, Heap.popHeap, Function.comp_apply, hmoved, hfirst,
    down_viewed hlt hmoved, move_viewed hmoved]
  split
  · rfl
  · rfl

end Views

/-! ## What the loops leave alone -/

section Slots

variable {T : Type} {lt : T → T → Bool} {moved : T → T} {arr : Nat → T}
  {n index fuel k : Nat} {t : T}

theorem up_le : (Heap.up lt moved t fuel arr index).2 ≤ index := by
  induction fuel generalizing arr index with
  | zero => exact Nat.le_refl _
  | succ fuel ih =>
      simp only [Heap.up]
      split
      · split
        · exact Nat.le_trans ih (Nat.shiftRight_le ..)
        · exact Nat.le_refl _
      · exact Nat.le_refl _

/-- Behind the place where it starts, the loop of `insert` writes nothing. -/
theorem up_behind (hk : index < k) : (Heap.up lt moved t fuel arr index).1 k = arr k := by
  induction fuel generalizing arr index with
  | zero => rfl
  | succ fuel ih =>
      simp only [Heap.up]
      split
      · next hpos =>
          have hlt := shiftRight_one_lt hpos
          split
          · rw [ih (Nat.lt_trans hlt hk), move_rest moved arr (by omega) (by omega)]
          · rfl
      · rfl

/-- The first slot changes hands only for a smaller element. -/
theorem up_first : (Heap.up lt moved t fuel arr index).2 = 0 ∧ index ≠ 0 →
    lt t (arr 0) = true := by
  induction fuel generalizing arr index with
  | zero => exact fun h => absurd h.1 h.2
  | succ fuel ih =>
      simp only [Heap.up]
      split
      · split
        · next hpos hless =>
            by_cases hfather : index >>> 1 = 0
            · rw [hfather] at hless
              exact fun _ => hless
            · intro h
              have hsame : Heap.move moved arr index (index >>> 1) 0 = arr 0 :=
                move_rest moved arr (Ne.symm h.2) (Ne.symm hfather)
              rw [← hsame]
              exact ih ⟨h.1, hfather⟩
        · exact fun h => absurd h.1 h.2
      · exact fun h => absurd h.1 h.2

theorem up_first_same (h : (Heap.up lt moved t fuel arr index).2 ≠ 0) :
    (Heap.up lt moved t fuel arr index).1 0 = arr 0 := by
  induction fuel generalizing arr index with
  | zero => rfl
  | succ fuel ih =>
      simp only [Heap.up] at h ⊢
      split at h
      · split at h
        · next hpos hless =>
            rw [if_pos hpos, if_pos hless, ih h]
            have hfather : index >>> 1 ≠ 0 := by
              intro hzero
              rw [hzero] at h
              exact h (Nat.le_zero.mp up_le)
            exact move_rest moved arr (by omega) (Ne.symm hfather)
        · next hpos hnot => rw [if_pos hpos, if_neg hnot]
      · next hnot => rw [if_neg hnot]

/-- The first element of a heap after `insert`: the same, or the new one, if it is
smaller. -/
theorem insert_first (lt : T → T → Bool) (moved : T → T) {h : Heap T} (hn : 0 < h.n)
    (t : T) :
    (h.insert lt moved t).arr 0 = h.arr 0 ∨
      (h.insert lt moved t).arr 0 = t ∧ lt t (h.arr 0) = true := by
  simp only [Heap.insert]
  by_cases hzero : (Heap.up lt moved t h.n h.arr h.n).2 = 0
  · refine .inr ⟨?_, up_first ⟨hzero, Nat.ne_of_gt hn⟩⟩
    rw [hzero, Function.update_self]
  · left
    rw [Function.update_of_ne (Ne.symm hzero), up_first_same hzero]

theorem insert_behind (lt : T → T → Bool) (moved : T → T) (h : Heap T) (t : T)
    (hk : h.n < k) : (h.insert lt moved t).arr k = h.arr k := by
  have hle : (Heap.up lt moved t h.n h.arr h.n).2 ≤ h.n := up_le
  simp only [Heap.insert]
  rw [Function.update_of_ne (by omega), up_behind hk]

theorem down_behind (hk : n ≤ k) : (Heap.down lt moved n fuel arr index).1 k = arr k := by
  induction fuel generalizing arr index with
  | zero => rfl
  | succ fuel ih =>
      simp only [Heap.down]
      split
      · split
        · next hlt hleft => rw [ih, move_rest moved arr (by omega) (by omega)]
        · split
          · next hlt _ hright => rw [ih, move_rest moved arr (by omega) (by omega)]
          · rfl
      · rfl

/-- Behind the elements that remain, `pop_heap` leaves a moved-from slot and whatever
was there. -/
theorem popHeap_behind (lt : T → T → Bool) (moved : T → T) (h : Heap T)
    (hk : h.n - 1 ≤ k) :
    (∃ x, (h.popHeap lt moved).2.arr k = moved x) ∨
      h.n ≤ k ∧ (h.popHeap lt moved).2.arr k = h.arr k := by
  rcases Nat.eq_zero_or_pos h.n with hzero | hpos
  · have hpop : (h.popHeap lt moved).2.arr = Function.update h.arr 0 (moved (h.arr 0)) := by
      simp only [Heap.popHeap]
      rw [if_neg (by omega)]
    rw [hpop]
    by_cases hk0 : k = 0
    · exact .inl ⟨h.arr 0, by rw [hk0, Function.update_self]⟩
    · exact .inr ⟨by omega, Function.update_of_ne hk0 ..⟩
  · obtain ⟨last, hlast⟩ : ∃ last, h.n = last + 1 := ⟨h.n - 1, by omega⟩
    rw [popHeap_snd lt moved hlast]
    dsimp only
    have hhole := (down_others lt moved last (Function.update h.arr 0 (moved (h.arr 0)))
      (show 0 < last ∨ 0 = 0 from .inr rfl)).1
    generalize hr : Heap.down lt moved last last
      (Function.update h.arr 0 (moved (h.arr 0))) 0 = r at hhole
    by_cases hklast : k = last
    · refine .inl ⟨r.1 last, ?_⟩
      rw [hklast, Heap.move, Function.update_self]
    · refine .inr ⟨by omega, ?_⟩
      rw [move_rest moved r.1 (by omega) hklast, ← hr, down_behind (by omega),
        Function.update_of_ne (by omega)]

end Slots

/-! ## Steps -/

section Steps

variable {pool : PoissionPool} {a : PoissionPool.Act} {s : PoissionPool.Stepped}

theorem drawSlot_lt {n : Nat} (hn : n ≠ 0) (random : UInt32) :
    PoissionPool.drawSlot n random < n :=
  Int.tmod_lt_of_pos _ (Int.natCast_pos.mpr (Nat.pos_of_ne_zero hn))

/-- The pool with a packet in the place of the dummy at `i`. -/
def placedAt (pool : PoissionPool) (i : Nat) (packet : AnonymousPacket) : PoissionPool :=
  { pool with
    poolQueue := { pool.poolQueue with
      arr := Function.update pool.poolQueue.arr i
        { pool.poolQueue.arr i with isDummy := false, packet := some packet } } }

/-- All that a step can do. -/
inductive PoolMoves (pool : PoissionPool) : PoissionPool.Act → PoissionPool.Stepped → Prop where
  | full (now random) (h : pool.poolQueue.n ≥ 1024) :
      PoolMoves pool (.generateDummy now random) { pool := pool }
  | dummy (now random) (h : pool.poolQueue.n < 1024) :
      PoolMoves pool (.generateDummy now random) { pool :=
        { pool with
          poolQueue := pool.poolQueue.insert PoolPacket.lt PoolPacket.moved
            ⟨PoissionPool.deadline pool.lambda now random, true, none⟩ } }
  | again (packet random) : PoolMoves pool (.send packet random) { pool := pool }
  | place (packet random i) (hi : i < pool.poolQueue.n)
      (hdummy : (pool.poolQueue.arr i).isDummy = true) :
      PoolMoves pool (.send packet random)
        { pool := placedAt pool i packet, placed := some packet }
  | look (now) (h : pool.fetching = .looking) :
      PoolMoves pool (.fetch now) { pool := pool.look now }
  | wake (now delay) (h : pool.fetching = .waiting delay) :
      PoolMoves pool (.fetch now) { pool := pool.wake delay }
  | pop (now) (h : pool.fetching = .popping) :
      PoolMoves pool (.fetch now) { pool := pool.pop.2, fetched := some pool.pop.1 }

theorem pool_moves (h : pool.step a = some s) : PoolMoves pool a s := by
  cases a with
  | generateDummy now random =>
      cases h
      simp only [PoissionPool.generateDummy]
      split
      · next hfull => exact .full now random hfull
      · next hroom => exact .dummy now random (Nat.lt_of_not_ge hroom)
  | send packet random =>
      simp only [PoissionPool.step, PoissionPool.sendTurn] at h
      split at h
      · next hturn =>
          cases h
          exact .again packet random
      · next pool' hturn =>
          cases h
          split at hturn
          · cases hturn
          · next hn =>
              split at hturn
              · cases hturn
              · next hpos =>
                  split at hturn
                  · next hdummy =>
                      cases hturn
                      have hlt := drawSlot_lt hn random
                      exact .place packet random _ (by omega) hdummy
                  · cases hturn
      · cases h
  | fetch now =>
      simp only [PoissionPool.step] at h
      split at h
      · next hphase =>
          cases h
          exact .look now hphase
      · next delay hphase =>
          cases h
          exact .wake now delay hphase
      · next hphase =>
          cases h
          exact .pop now hphase

end Steps

/-! ## Runs -/

/-- A look of `sync_fetch`: the clock, and whether there was an element. -/
structure Look where
  now : Timeval
  found : Bool

/-- A pool and what has happened to it: the packets placed, the elements taken out,
each with the look before it, and the last look. -/
structure PoissionRun where
  pool : PoissionPool
  placed : List AnonymousPacket := []
  fetched : List (PoolPacket × Option Look) := []
  last : Option Look := none

namespace PoissionRun

/-- The last look after a step. -/
def lookAfter (r : PoissionRun) : PoissionPool.Act → Option Look
  | .fetch now =>
      if r.pool.fetching = .looking then some ⟨now, decide (0 < r.pool.poolQueue.n)⟩
      else r.last
  | _ => r.last

/-- One step; none is an access outside the array. -/
def step (r : PoissionRun) (a : PoissionPool.Act) : Option PoissionRun :=
  (r.pool.step a).map fun s =>
    { pool := s.pool
      placed := s.placed.toList ++ r.placed
      fetched := (s.fetched.map fun x => (x, r.last)).toList ++ r.fetched
      last := r.lookAfter a }

end PoissionRun

section Runs

variable {r r' : PoissionRun} {a : PoissionPool.Act} {acts : List PoissionPool.Act}

theorem run_step (h : r.step a = some r') : ∃ s, PoolMoves r.pool a s ∧
    r' = { pool := s.pool
           placed := s.placed.toList ++ r.placed
           fetched := (s.fetched.map fun x => (x, r.last)).toList ++ r.fetched
           last := r.lookAfter a } := by
  obtain ⟨s, hs, rfl⟩ := Option.map_eq_some_iff.mp h
  exact ⟨s, pool_moves hs, rfl⟩

/-- A dummy, a packet in its place, and the two steps that take it out. -/
def departure : List PoissionPool.Act :=
  [.generateDummy ⟨5, 999999⟩ 7,
    .send (.internal .dummyMessage "" 0 "" 0 0 "" 0 0 "" 0 0 0 true) 4, .fetch ⟨6, 70⟩,
    .fetch ⟨6, 80⟩]

/-- The same of the two threads; `send` finds the pool empty. -/
def departureOfDummy : List PoissionPool.Act :=
  [.send (.internal .dummyMessage "" 0 "" 0 0 "" 0 0 "" 0 0 0 true) 4,
    .generateDummy ⟨5, 999999⟩ 7, .fetch ⟨6, 70⟩, .fetch ⟨6, 80⟩,
    .send (.internal .dummyMessage "" 0 "" 0 0 "" 0 0 "" 0 0 0 true) 4]

/-- A run from an array of zeros. -/
def fromZeros (acts : List PoissionPool.Act) : Option PoissionRun :=
  acts.foldlM PoissionRun.step { pool := PoissionPool.new (fun _ => ⟨0, 0⟩) fun _ => false }

/-! ### Packets are kept -/

/-- The packets in a heap. -/
def packetsIn (h : Heap PoolPacket) : Multiset AnonymousPacket :=
  (present h).filterMap PoolPacket.packet

/-- The packets taken out. -/
def packetsOut (fetched : List (PoolPacket × Option Look)) : Multiset AnonymousPacket :=
  Multiset.ofList (fetched.filterMap fun x => x.1.packet)

/-- There is a packet in a slot only if it is one of an element, and no dummy. -/
structure TidyPool (h : Heap PoolPacket) : Prop where
  room : h.n ≤ 1024
  behind : ∀ k, h.n ≤ k → (h.arr k).packet = none
  dummies : ∀ x ∈ present h, x.isDummy = true → x.packet = none

theorem insert_tidy {h : Heap PoolPacket} (hh : TidyPool h) (hroom : h.n < 1024)
    (delay : Timeval) :
    TidyPool (h.insert PoolPacket.lt PoolPacket.moved ⟨delay, true, none⟩) where
  room := hroom
  behind := by
    intro k hk
    rw [insert_behind _ _ _ _ hk]
    exact hh.behind k (Nat.le_of_lt hk)
  dummies := by
    intro x hx
    rw [insert_present, Multiset.mem_cons] at hx
    rcases hx with rfl | hx
    · exact fun _ => rfl
    · exact hh.dummies x hx

theorem insert_packets (h : Heap PoolPacket) (delay : Timeval) :
    packetsIn (h.insert PoolPacket.lt PoolPacket.moved ⟨delay, true, none⟩) =
      packetsIn h := by
  rw [packetsIn, insert_present, Multiset.filterMap_cons_none]
  · rfl
  · rfl

/-- After `pop_heap` of an empty heap the pointer in the first slot is null, as
before. -/
theorem popHeap_empty (h : Heap PoolPacket) (hn : h.n = 0) :
    (h.popHeap PoolPacket.lt PoolPacket.moved).2 =
      { h with arr := Function.update h.arr 0 (h.arr 0).moved } := by
  simp only [Heap.popHeap]
  rw [if_neg (by omega)]

theorem popHeap_tidy {h : Heap PoolPacket} (hh : TidyPool h) :
    TidyPool (h.popHeap PoolPacket.lt PoolPacket.moved).2 where
  room := by
    rw [popHeap_n]
    exact Nat.le_trans (Nat.sub_le ..) hh.room
  behind := by
    intro k hk
    rw [popHeap_n] at hk
    rcases popHeap_behind PoolPacket.lt PoolPacket.moved h hk with ⟨x, hx⟩ | ⟨hle, hsame⟩
    · rw [hx]
      rfl
    · rw [hsame]
      exact hh.behind k hle
  dummies := by
    intro x hx
    rcases Nat.eq_zero_or_pos h.n with hzero | hpos
    · rw [popHeap_empty h hzero] at hx
      obtain ⟨i, hi, -⟩ := mem_slots.mp hx
      exact absurd hi (by rw [hzero]; exact Nat.not_lt_zero i)
    · refine hh.dummies x ?_
      rw [← popHeap_present PoolPacket.lt PoolPacket.moved hpos]
      exact Multiset.mem_cons_of_mem hx

theorem popHeap_packets {h : Heap PoolPacket} (hh : TidyPool h) :
    Multiset.ofList (h.arr 0).packet.toList +
      packetsIn (h.popHeap PoolPacket.lt PoolPacket.moved).2 = packetsIn h := by
  rcases Nat.eq_zero_or_pos h.n with hzero | hpos
  · have hnone : packetsIn h = 0 := by
      rw [packetsIn, present, hzero]
      rfl
    rw [hh.behind 0 (by omega), popHeap_empty h hzero, hnone, packetsIn, present]
    dsimp only
    rw [hzero]
    rfl
  · have hpop := popHeap_present PoolPacket.lt PoolPacket.moved hpos
    rw [packetsIn, packetsIn, ← hpop]
    cases hfirst : (h.arr 0).packet with
    | none =>
        rw [Multiset.filterMap_cons_none _ _ hfirst]
        exact Multiset.zero_add _
    | some packet =>
        rw [Multiset.filterMap_cons_some _ _ _ hfirst]
        exact Multiset.singleton_add ..

theorem placedAt_tidy {pool : PoissionPool} (hh : TidyPool pool.poolQueue) {i : Nat}
    (hi : i < pool.poolQueue.n) (packet : AnonymousPacket) :
    TidyPool (placedAt pool i packet).poolQueue where
  room := hh.room
  behind := by
    intro k hk
    have hne : k ≠ i := Nat.ne_of_gt (Nat.lt_of_lt_of_le hi hk)
    simp only [placedAt, Function.update_of_ne hne]
    exact hh.behind k hk
  dummies := by
    intro x hx
    simp only [placedAt, present] at hx
    rw [slots_update hi, Multiset.mem_cons] at hx
    rcases hx with rfl | hx
    · exact fun h => by cases h
    · refine hh.dummies x ?_
      rw [present, slots_eq_cons hi]
      exact Multiset.mem_cons_of_mem hx

/-- The dummy had no packet, so that nothing is lost when it is overwritten. -/
theorem placedAt_packets {pool : PoissionPool} (hh : TidyPool pool.poolQueue) {i : Nat}
    (hi : i < pool.poolQueue.n) (hdummy : (pool.poolQueue.arr i).isDummy = true)
    (packet : AnonymousPacket) :
    packetsIn (placedAt pool i packet).poolQueue =
      packet ::ₘ packetsIn pool.poolQueue := by
  have hmem : pool.poolQueue.arr i ∈ present pool.poolQueue := mem_slots.mpr ⟨i, hi, rfl⟩
  have hbefore : packetsIn pool.poolQueue = (others pool.poolQueue.arr
      pool.poolQueue.n i).filterMap PoolPacket.packet := by
    rw [packetsIn, present, slots_eq_cons hi, Multiset.filterMap_cons_none]
    exact hh.dummies _ hmem hdummy
  rw [hbefore, packetsIn, present]
  simp only [placedAt]
  rw [slots_update hi, Multiset.filterMap_cons_some PoolPacket.packet _ _ rfl]

/-- The slots are tidy, and what was placed is in the heap or has come out. -/
def KeptPackets (r : PoissionRun) : Prop :=
  TidyPool r.pool.poolQueue ∧
    Multiset.ofList r.placed = packetsOut r.fetched + packetsIn r.pool.poolQueue

/-- A look only moves the thread. -/
theorem look_eq (pool : PoissionPool) (now : Timeval) :
    pool.look now =
      let delay := computeDelay now - computeDelay (pool.poolQueue.arr 0).delay
      { pool with
        fetching := if pool.poolQueue.n = 0 ∨ delay < 0 then .waiting delay else .popping } := by
  simp only [PoissionPool.look]
  split
  · next hzero => rw [if_pos (.inl hzero)]
  · next hne =>
      split
      · next hneg => rw [if_pos (.inr hneg)]
      · next hpos => rw [if_neg (not_or.mpr ⟨hne, hpos⟩)]

theorem wake_eq (pool : PoissionPool) (delay : Int) :
    pool.wake delay =
      { pool with fetching := if delay < 0 then .looking else .popping } := by
  simp only [PoissionPool.wake]
  split
  · rfl
  · rfl

theorem kept_step (hr : KeptPackets r) (h : r.step a = some r') : KeptPackets r' := by
  obtain ⟨htidy, hpackets⟩ := hr
  obtain ⟨s, hmoves, rfl⟩ := run_step h
  cases hmoves with
  | full now random hfull => exact ⟨htidy, hpackets⟩
  | dummy now random hroom =>
      exact ⟨insert_tidy htidy hroom _, by rw [insert_packets]; exact hpackets⟩
  | again packet random => exact ⟨htidy, hpackets⟩
  | place packet random i hi hdummy =>
      refine ⟨placedAt_tidy htidy hi packet, ?_⟩
      rw [placedAt_packets htidy hi hdummy, Multiset.add_cons]
      exact congrArg (packet ::ₘ ·) hpackets
  | look now hphase =>
      rw [look_eq]
      exact ⟨htidy, hpackets⟩
  | wake now delay hphase =>
      rw [wake_eq]
      exact ⟨htidy, hpackets⟩
  | pop now hphase =>
      refine ⟨popHeap_tidy htidy, ?_⟩
      have hout : packetsOut ((r.pool.pop.1, r.last) :: r.fetched) =
          Multiset.ofList (r.pool.poolQueue.arr 0).packet.toList + packetsOut r.fetched := by
        have hfirst : r.pool.pop.1 = r.pool.poolQueue.arr 0 := popHeap_fst _
        rw [packetsOut, hfirst, List.filterMap_cons]
        cases (r.pool.poolQueue.arr 0).packet with
        | none => exact (Multiset.zero_add _).symm
        | some packet => exact (Multiset.singleton_add packet (packetsOut r.fetched)).symm
      change Multiset.ofList r.placed = packetsOut ((r.pool.pop.1, r.last) :: r.fetched) + _
      rw [hout, hpackets, ← popHeap_packets htidy, ← Multiset.add_assoc,
        Multiset.add_comm (packetsOut _)]
      rfl

/-- In any interleaving of the threads that leaves `pop_heap` undisturbed: the pool holds
at most 1024 elements, and the packets that `send` has placed are those that have come
out and those that are in. -/
theorem poission_pool_keeps_packets (delay : Nat → Timeval) (isDummy : Nat → Bool)
    (h : acts.foldlM PoissionRun.step { pool := PoissionPool.new delay isDummy } = some r) :
    r.pool.poolQueue.n ≤ 1024 ∧
      Multiset.ofList r.placed = packetsOut r.fetched + packetsIn r.pool.poolQueue := by
  have hnew : KeptPackets { pool := PoissionPool.new delay isDummy } := by
    refine ⟨⟨Nat.zero_le _, fun _ _ => rfl, fun x hx => ?_⟩, rfl⟩
    obtain ⟨i, hi, -⟩ := mem_slots.mp hx
    exact absurd hi (Nat.not_lt_zero i)
  have hkept := foldlM_inv (fun _ _ _ => kept_step) hnew h
  exact ⟨hkept.1.room, hkept.2⟩

theorem poission_pool_keeps_packets_departure :
    ∃ r, fromZeros departure = some r ∧ r.pool.poolQueue.n ≤ 1024 ∧
      Multiset.ofList r.placed = packetsOut r.fetched + packetsIn r.pool.poolQueue := by
  obtain ⟨r, hr⟩ :=
    Option.isSome_iff_exists.mp (show (fromZeros departure).isSome = true from rfl)
  exact ⟨r, hr, poission_pool_keeps_packets _ _ hr⟩

/-! ### What the times of departure depend on

The pool without the packets: a heap of deadlines, and the thread that takes the first
one out. `send` does nothing to it. -/

/-- A pool of deadlines, those that left it with the look before, and the last look. -/
structure Deadlines where
  lambda : Int
  heap : Heap Timeval
  fetching : Fetching
  left : List (Timeval × Option Look)
  last : Option Look

namespace Deadlines

def earlier (a b : Timeval) : Bool := decide (computeDelay a < computeDelay b)

def step (d : Deadlines) : PoissionPool.Act → Deadlines
  | .generateDummy now random =>
      if d.heap.n ≥ 1024 then d
      else
        { d with heap := d.heap.insert earlier id (PoissionPool.deadline d.lambda now random) }
  | .send _ _ => d
  | .fetch now =>
      match d.fetching with
      | .looking =>
          let delay := computeDelay now - computeDelay (d.heap.arr 0)
          { d with
            fetching := if d.heap.n = 0 ∨ delay < 0 then .waiting delay else .popping
            last := some ⟨now, decide (0 < d.heap.n)⟩ }
      | .waiting delay => { d with fetching := if delay < 0 then .looking else .popping }
      | .popping =>
          { d with
            heap := (d.heap.popHeap earlier id).2
            fetching := .looking
            left := ((d.heap.popHeap earlier id).1, d.last) :: d.left }

end Deadlines

/-- The deadlines of a run. -/
def deadlinesOf (r : PoissionRun) : Deadlines where
  lambda := r.pool.lambda
  heap := viewed PoolPacket.delay r.pool.poolQueue
  fetching := r.pool.fetching
  left := r.fetched.map fun x => (x.1.delay, x.2)
  last := r.last

/-- The actions of the two threads of the pool. -/
def isThread : PoissionPool.Act → Bool
  | .send _ _ => false
  | _ => true

theorem deadlinesOf_send {packet : AnonymousPacket} {random : UInt32}
    (h : r.step (.send packet random) = some r') : deadlinesOf r' = deadlinesOf r := by
  obtain ⟨s, hmoves, rfl⟩ := run_step h
  cases hmoves with
  | again => rfl
  | place _ _ i hi hdummy =>
      have harr : PoolPacket.delay ∘ Function.update r.pool.poolQueue.arr i
          { r.pool.poolQueue.arr i with isDummy := false, packet := some packet } =
          PoolPacket.delay ∘ r.pool.poolQueue.arr := by
        rw [Function.comp_update]
        exact Function.update_eq_self ..
      simp only [deadlinesOf, placedAt, viewed, harr]
      rfl

/-- Every step is one of the pool of deadlines. -/
theorem deadlinesOf_step (h : r.step a = some r') :
    deadlinesOf r' = (deadlinesOf r).step a := by
  have hlt : ∀ x y : PoolPacket, Deadlines.earlier x.delay y.delay = PoolPacket.lt x y :=
    fun _ _ => rfl
  have hmoved : ∀ x : PoolPacket, id x.delay = x.moved.delay := fun _ => rfl
  have hcopy := h
  obtain ⟨s, hmoves, rfl⟩ := run_step h
  cases hmoves with
  | full now random hfull =>
      rw [Deadlines.step, if_pos (show (deadlinesOf r).heap.n ≥ 1024 from hfull)]
      rfl
  | dummy now random hroom =>
      rw [Deadlines.step, if_neg (show ¬(deadlinesOf r).heap.n ≥ 1024 from Nat.not_le.mpr hroom)]
      have hinsert := insert_viewed hlt hmoved r.pool.poolQueue
        ⟨PoissionPool.deadline r.pool.lambda now random, true, none⟩
      simp only [deadlinesOf]
      rw [hinsert]
      rfl
  | again packet random => exact deadlinesOf_send hcopy
  | place packet random i hi hdummy => exact deadlinesOf_send hcopy
  | look now hphase =>
      simp only [Deadlines.step, look_eq, deadlinesOf, PoissionRun.lookAfter,
        hphase, if_true]
      rfl
  | wake now delay hphase =>
      simp only [Deadlines.step, wake_eq, deadlinesOf, PoissionRun.lookAfter,
        hphase, reduceCtorEq, if_false]
      rfl
  | pop now hphase =>
      have hpop := popHeap_viewed hlt hmoved r.pool.poolQueue
      simp only [Deadlines.step, deadlinesOf, PoissionRun.lookAfter, hphase,
        reduceCtorEq, if_false, hpop]
      rfl

/-- When elements leave, and with which deadlines, how many are in the pool and what
the thread that takes them out is at: all this is the same for two runs in which the two
threads of the pool do the same, whatever `send` does and whenever it comes but while
`pop_heap` is at work. -/
theorem departures_independent_of_send (delay : Nat → Timeval) (isDummy isDummy' : Nat → Bool)
    {acts' : List PoissionPool.Act} (hsame : acts.filter isThread = acts'.filter isThread)
    (h : acts.foldlM PoissionRun.step { pool := PoissionPool.new delay isDummy } = some r)
    (h' : acts'.foldlM PoissionRun.step { pool := PoissionPool.new delay isDummy' } =
      some r') :
    r.fetched.map (fun x => (x.1.delay, x.2)) = r'.fetched.map (fun x => (x.1.delay, x.2)) ∧
      r.pool.poolQueue.n = r'.pool.poolQueue.n ∧ r.pool.fetching = r'.pool.fetching := by
  have hhidden : ∀ r a r', isThread a = false → PoissionRun.step r a = some r' →
      deadlinesOf r' = deadlinesOf r := by
    intro r a r' ha hstep
    cases a with
    | send packet random => exact deadlinesOf_send hstep
    | generateDummy now random => cases ha
    | fetch now => cases ha
  have hview := foldlM_view (fun _ _ _ _ => deadlinesOf_step) hhidden h
  have hview' := foldlM_view (fun _ _ _ _ => deadlinesOf_step) hhidden h'
  have hstart : deadlinesOf { pool := PoissionPool.new delay isDummy } =
      deadlinesOf { pool := PoissionPool.new delay isDummy' } := rfl
  have hend : deadlinesOf r = deadlinesOf r' := by
    rw [hview, hview', hsame, hstart]
  exact ⟨congrArg Deadlines.left hend, congrArg (fun d => d.heap.n) hend,
    congrArg Deadlines.fetching hend⟩

theorem departures_independent_of_send_departure :
    ∃ r r', fromZeros departure = some r ∧ fromZeros departureOfDummy = some r' ∧
      r.fetched.map (fun x => (x.1.delay, x.2)) =
        r'.fetched.map (fun x => (x.1.delay, x.2)) := by
  obtain ⟨r, hr⟩ :=
    Option.isSome_iff_exists.mp (show (fromZeros departure).isSome = true from rfl)
  obtain ⟨r', hr'⟩ :=
    Option.isSome_iff_exists.mp (show (fromZeros departureOfDummy).isSome = true from rfl)
  have hsame : departure.filter isThread = departureOfDummy.filter isThread := rfl
  exact ⟨r, r', hr, hr', (departures_independent_of_send _ _ _ hsame hr hr').1⟩

/-! ### No departure before the deadline -/

/-- What the last look tells the thread that takes the elements out: if it found an
element and is to take one out, then the clock has reached the first deadline. -/
def Due (r : PoissionRun) : Prop :=
  match r.pool.fetching with
  | .looking => True
  | .waiting delay => ∃ l, r.last = some l ∧ (l.found = true → delay < 0)
  | .popping => ∃ l, r.last = some l ∧ (l.found = true → 0 < r.pool.poolQueue.n ∧
      computeDelay (r.pool.poolQueue.arr 0).delay ≤ computeDelay l.now)

/-- An element that left had reached its deadline, or the look before it found the
pool empty. -/
def OnTime (x : PoolPacket × Option Look) : Prop :=
  ∃ l, x.2 = some l ∧ (l.found = true → computeDelay x.1.delay ≤ computeDelay l.now)

theorem due_step (hr : Due r) (h : r.step a = some r') :
    Due r' ∧ ∀ x ∈ r'.fetched, x ∈ r.fetched ∨ OnTime x := by
  obtain ⟨s, hmoves, rfl⟩ := run_step h
  cases hmoves with
  | full now random hfull => exact ⟨hr, fun x hx => .inl hx⟩
  | dummy now random hroom =>
      refine ⟨?_, fun x hx => .inl hx⟩
      simp only [Due, PoissionRun.lookAfter] at hr ⊢
      split at hr
      · trivial
      · exact hr
      · obtain ⟨l, hlast, hfound⟩ := hr
        refine ⟨l, hlast, fun hl => ⟨Nat.succ_pos _, ?_⟩⟩
        obtain ⟨hpos, hdue⟩ := hfound hl
        rcases insert_first PoolPacket.lt PoolPacket.moved hpos
          ⟨PoissionPool.deadline r.pool.lambda now random, true, none⟩ with hsame | ⟨hnew, hlt⟩
        · rw [hsame]
          exact hdue
        · rw [hnew]
          exact Int.le_trans (Int.le_of_lt (of_decide_eq_true hlt)) hdue
  | again packet random => exact ⟨hr, fun x hx => .inl hx⟩
  | place packet random i hi hdummy =>
      refine ⟨?_, fun x hx => .inl hx⟩
      have hdelay : ((placedAt r.pool i packet).poolQueue.arr 0).delay =
          (r.pool.poolQueue.arr 0).delay :=
        congrArg (fun d => d.heap.arr 0) (deadlinesOf_send h)
      simp only [Due, hdelay]
      exact hr
  | look now hphase =>
      refine ⟨?_, fun x hx => .inl hx⟩
      simp only [Due, look_eq, PoissionRun.lookAfter, hphase, if_true]
      by_cases hwait : r.pool.poolQueue.n = 0 ∨
          computeDelay now - computeDelay (r.pool.poolQueue.arr 0).delay < 0
      · simp only [hwait, if_true]
        refine ⟨_, rfl, fun hfound => ?_⟩
        have hpos : 0 < r.pool.poolQueue.n := of_decide_eq_true hfound
        exact hwait.resolve_left (Nat.ne_of_gt hpos)
      · simp only [hwait, if_false]
        refine ⟨_, rfl, fun _ => ?_⟩
        obtain ⟨hne, hdue⟩ := not_or.mp hwait
        exact ⟨Nat.pos_of_ne_zero hne, Int.sub_nonneg.mp (Int.not_lt.mp hdue)⟩
  | wake now delay hphase =>
      refine ⟨?_, fun x hx => .inl hx⟩
      simp only [Due, hphase] at hr
      obtain ⟨l, hlast, hfound⟩ := hr
      simp only [Due, wake_eq, PoissionRun.lookAfter, hphase, reduceCtorEq, if_false]
      by_cases hneg : delay < 0
      · simp only [hneg, if_true]
      · simp only [hneg, if_false]
        exact ⟨l, hlast, fun hl => absurd (hfound hl) hneg⟩
  | pop now hphase =>
      refine ⟨trivial, fun x hx => ?_⟩
      simp only [Due, hphase] at hr
      obtain ⟨l, hlast, hfound⟩ := hr
      rcases List.mem_cons.mp hx with rfl | hold
      · refine .inr ⟨l, hlast, fun hl => ?_⟩
        have hfirst : r.pool.pop.1 = r.pool.poolQueue.arr 0 := popHeap_fst _
        rw [hfirst]
        exact (hfound hl).2
      · exact .inl hold

/-- In any interleaving that leaves `pop_heap` undisturbed: an element leaves when the
clock, at the last look before, has reached its deadline, unless that look found the
pool empty. -/
theorem departures_not_early (delay : Nat → Timeval) (isDummy : Nat → Bool)
    (h : acts.foldlM PoissionRun.step { pool := PoissionPool.new delay isDummy } = some r) :
    ∀ x ∈ r.fetched, OnTime x := by
  have hnew : Due { pool := PoissionPool.new delay isDummy } ∧
      ∀ x ∈ ([] : List (PoolPacket × Option Look)), OnTime x :=
    ⟨trivial, fun _ hx => absurd hx List.not_mem_nil⟩
  have hstep : ∀ s a t, (Due s ∧ ∀ x ∈ s.fetched, OnTime x) → PoissionRun.step s a = some t →
      Due t ∧ ∀ x ∈ t.fetched, OnTime x := by
    intro s a t hs hstep
    obtain ⟨hdue, hmem⟩ := due_step hs.1 hstep
    exact ⟨hdue, fun x hx => (hmem x hx).elim (hs.2 x) id⟩
  exact (foldlM_inv hstep hnew h).2

theorem departures_not_early_departure :
    ∃ r, fromZeros departure = some r ∧ ∀ x ∈ r.fetched, OnTime x := by
  obtain ⟨r, hr⟩ :=
    Option.isSome_iff_exists.mp (show (fromZeros departure).isSome = true from rfl)
  exact ⟨r, hr, departures_not_early _ _ hr⟩

end Runs

end Daenet.Proofs
