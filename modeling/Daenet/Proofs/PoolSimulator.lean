import Daenet.Lib.Clockwise
import Daenet.Lib.Partial
import Daenet.Proofs.Pool
import Daenet.Proofs.Simulator
import Daenet.Ref.PoolSimulator
import Mathlib.Algebra.BigOperators.Fin

/-!
# Messages between the pools

Whoever a message is handed to is at least as near to its destination, the shorter way
round the circle: in the one case in which the step goes the longer way, to the user
opposite on a circle with an odd number of users, the two ways differ by one and the step
does no harm. So no message is ever farther from its destination than where it was made
(`OnWay`).

Every operation moves the messages that it has and makes or loses none: what has been made
is in the pools, has arrived or was dropped. `tally` counts the latter three.
-/

namespace Daenet.Proofs

open Daenet.Lib Daenet.Ref

/-! ## One hop -/

/-- The distance the shorter way round. -/
def around (N a b : Nat) : Nat := min (cw N a b) (cw N b a)

section Hop

variable {s : PoolSimulator} {i dest r : Nat} {step : UInt32}

theorem sub_mod_eq {N u a : Nat} (hu : u < N) (ha : a ≤ N) :
    (u + N - a) % N = if a ≤ u then u - a else u + N - a := by
  split
  · next h =>
      have hsum : u + N - a = u - a + N := by omega
      rw [hsum, Nat.add_mod_right, Nat.mod_eq_of_lt (by omega)]
  · next h => exact Nat.mod_eq_of_lt (by omega)

/-- `real_d` is this distance. -/
theorem realD_eq {N : Nat} (hi : i < N) (hdest : dest < N) :
    (if ((dest : Int) - i).natAbs > N / 2 then (N : Int) - (((dest : Int) - i).natAbs : Nat)
      else (((dest : Int) - i).natAbs : Nat)) = (around N i dest : Nat) := by
  unfold around cw
  split
  · split_ifs <;> omega
  · split_ifs <;> omega

theorem around_le {N : Nat} (hi : i < N) (hdest : dest < N) : around N i dest ≤ N / 2 := by
  unfold around cw
  split_ifs <;> omega

/-- `y` steps on. -/
theorem cw_forth {N y : Nat} (hi : i < N) (hdest : dest < N) (hy : y ≤ cw N i dest) :
    cw N ((i + y) % N) dest = cw N i dest - y := by
  have hlt := cw_lt hi hdest
  rw [add_mod_eq hi (by omega)]
  unfold cw at hy ⊢
  split_ifs at hy ⊢ <;> omega

/-- `y` steps back. -/
theorem cw_back {N y : Nat} (hi : i < N) (hdest : dest < N) (hy : y ≤ cw N dest i) :
    cw N dest ((i + N - y) % N) = cw N dest i - y := by
  have hlt := cw_lt hdest hi
  rw [sub_mod_eq hi (by omega)]
  unfold cw at hy ⊢
  split_ifs at hy ⊢ <;> omega

/-- The step forth goes the shorter way. -/
theorem around_forth {N y : Nat} (hi : i < N) (hdest : dest < N) (hy : y < around N i dest)
    (hforth : (i : Int) - dest > (N / 2 : Nat) ∨
      (dest : Int) - i > 0 ∧ (dest : Int) - i < (N / 2 : Nat)) :
    around N ((i + y) % N) dest ≤ around N i dest := by
  have hshort : cw N i dest ≤ cw N dest i := by
    unfold cw
    split_ifs <;> omega
  have hmin : around N i dest = cw N i dest := Nat.min_eq_left hshort
  calc around N ((i + y) % N) dest
      _ ≤ cw N ((i + y) % N) dest := Nat.min_le_left _ _
      _ = cw N i dest - y := cw_forth hi hdest (by omega)
      _ ≤ around N i dest := by omega

/-- The step back goes a way that is at most one longer. -/
theorem around_back {N y : Nat} (hi : i < N) (hdest : dest < N) (hy : y < around N i dest)
    (hback : ¬((i : Int) - dest > (N / 2 : Nat) ∨
      (dest : Int) - i > 0 ∧ (dest : Int) - i < (N / 2 : Nat))) :
    around N ((i + N - y) % N) dest ≤ around N i dest := by
  have hlong : cw N dest i ≤ cw N i dest + 1 := by
    unfold cw
    split_ifs <;> omega
  have hle : around N i dest ≤ cw N dest i := Nat.min_le_right _ _
  by_cases hzero : y = 0
  · rw [hzero, Nat.sub_zero, Nat.add_mod_right, Nat.mod_eq_of_lt hi]
  · calc around N ((i + N - y) % N) dest
        _ ≤ cw N dest ((i + N - y) % N) := Nat.min_le_right _ _
        _ = cw N dest i - y := cw_back hi hdest (by omega)
        _ ≤ around N i dest := by
          unfold around
          omega

theorem receiver_near (hN : s.cntUsers ≤ 2 ^ 31) (hi : i < s.cntUsers)
    (hdest : dest < s.cntUsers) (h : s.receiver i dest step = some r) :
    r < s.cntUsers ∧ around s.cntUsers r dest ≤ around s.cntUsers i dest := by
  have hpos : 0 < s.cntUsers := by omega
  unfold PoolSimulator.receiver at h
  simp only at h
  rw [realD_eq hi hdest] at h
  split at h
  · cases h
    refine ⟨hdest, ?_⟩
    unfold around
    rw [cw_self]
    omega
  · next hfar =>
      split at h
      · cases h
      · next hhalf =>
          have hle := around_le hi hdest
          have hy : step.toNat % (s.range / 2) < around s.cntUsers i dest := by
            have := Nat.mod_lt step.toNat (Nat.pos_of_ne_zero hhalf)
            omega
          split at h
          · next hforth =>
              cases h
              have hplain : (i + step.toNat % (s.range / 2)) % 2 ^ 32 =
                  i + step.toNat % (s.range / 2) := Nat.mod_eq_of_lt (by omega)
              rw [hplain]
              exact ⟨Nat.mod_lt _ hpos, around_forth hi hdest hy hforth⟩
          · next hback =>
              cases h
              have hsum : i + 2 ^ 32 - step.toNat % (s.range / 2) + s.cntUsers =
                  i + s.cntUsers - step.toNat % (s.range / 2) + 2 ^ 32 := by omega
              have hwrap : (i + 2 ^ 32 - step.toNat % (s.range / 2) + s.cntUsers) % 2 ^ 32 =
                  i + s.cntUsers - step.toNat % (s.range / 2) := by
                rw [hsum, Nat.add_mod_right, Nat.mod_eq_of_lt (by omega)]
              rw [hwrap]
              exact ⟨Nat.mod_lt _ hpos, around_back hi hdest hy hback⟩

end Hop

/-! ## What every operation keeps -/

/-- A message at user `u` is no farther from its destination than it was when it was
made, and not there yet. -/
structure OnWay (N u : Nat) (msg : PoolMsg) : Prop where
  origin : msg.origin < N
  dest : msg.dest < N
  away : msg.dest ≠ u
  near : around N u msg.dest ≤ around N msg.origin msg.dest

/-- All messages of a user are on their way. -/
def UserOnWay (N u : Nat) (user : PoolUser) : Prop :=
  (∀ msg ∈ user.sentPool, OnWay N u msg) ∧ ∀ e ∈ user.recvPool, OnWay N u e.1

section Counts

variable (o d : Nat)

/-- A message from `o` to `d`. -/
def isFrom (msg : PoolMsg) : Bool := msg.origin == o && msg.dest == d

/-- The messages from `o` to `d` that a user holds. -/
def heldBy (user : PoolUser) : Nat :=
  user.sentPool.countP (isFrom o d) + user.recvPool.countP fun e => isFrom o d e.1

/-- Those that all users hold. -/
def heldByAll (s : PoolSimulator) : Nat :=
  ∑ u ∈ Finset.range s.cntUsers, heldBy o d (s.users u)

/-- The messages from `o` to `d` that were made. -/
def isMade : PoolEvent → Bool
  | .made msg => isFrom o d msg
  | _ => false

/-- Those that have arrived. -/
def isArrived : PoolEvent → Bool
  | .arrived msg => isFrom o d msg
  | _ => false

/-- Those that were dropped. -/
def isDropped : PoolEvent → Bool
  | .dropped msg => isFrom o d msg
  | _ => false

/-- What has become of the messages from `o` to `d`. -/
def tally (s : PoolSimulator) : Nat :=
  heldByAll o d s + s.log.countP (isArrived o d) + s.log.countP (isDropped o d)

variable {o d}

theorem heldByAll_modify (s : PoolSimulator) {i : Nat} (hi : i < s.cntUsers)
    (f : PoolUser → PoolUser) :
    heldByAll o d (s.modify i f) + heldBy o d (s.users i) =
      heldByAll o d s + heldBy o d (f (s.users i)) := by
  have hmem : i ∈ Finset.range s.cntUsers := Finset.mem_range.mpr hi
  have hleft := Finset.add_sum_erase (Finset.range s.cntUsers)
    (fun u => heldBy o d ((s.modify i f).users u)) hmem
  have hright := Finset.add_sum_erase (Finset.range s.cntUsers)
    (fun u => heldBy o d (s.users u)) hmem
  have hrest : ∑ u ∈ (Finset.range s.cntUsers).erase i, heldBy o d ((s.modify i f).users u) =
      ∑ u ∈ (Finset.range s.cntUsers).erase i, heldBy o d (s.users u) := by
    refine Finset.sum_congr rfl fun u hu => ?_
    show heldBy o d (if u = i then f (s.users i) else s.users u) = _
    rw [if_neg (Finset.ne_of_mem_erase hu)]
  have hself : (s.modify i f).users i = f (s.users i) := if_pos rfl
  rw [hself] at hleft
  unfold heldByAll
  show (∑ u ∈ Finset.range s.cntUsers, heldBy o d ((s.modify i f).users u)) + _ = _
  omega

end Counts

/-- The books, with the messages `inHand` in no pool yet. -/
structure PoolBooks (N : Nat) (inHand : List PoolMsg) (s : PoolSimulator) : Prop where
  cntUsers : s.cntUsers = N
  onWay : ∀ u < N, UserOnWay N u (s.users u)
  balance : ∀ o d, s.log.countP (isMade o d) = tally o d s + inHand.countP (isFrom o d)

section PoolBooks

variable {N i : Nat} {inHand l : List PoolMsg} {s s' : PoolSimulator} {msg : PoolMsg}

/-- Messages go from the hand to a pool of user `i`, or back. -/
theorem PoolBooks.modify (h : PoolBooks N inHand s) (hi : i < N) (f : PoolUser → PoolUser)
    (hway : UserOnWay N i (f (s.users i)))
    (hcount : ∀ o d, heldBy o d (f (s.users i)) + l.countP (isFrom o d) =
      heldBy o d (s.users i) + inHand.countP (isFrom o d)) : PoolBooks N l (s.modify i f) := by
  refine ⟨h.cntUsers, fun u hu => ?_, fun o d => ?_⟩
  · show UserOnWay N u (if u = i then f (s.users i) else s.users u)
    split
    · next hui =>
        rw [hui]
        exact hway
    · exact h.onWay u hu
  · have hheld := heldByAll_modify (o := o) (d := d) s (by rw [h.cntUsers]; exact hi) f
    have hbal := h.balance o d
    have hc := hcount o d
    unfold tally at hbal ⊢
    show s.log.countP (isMade o d) = heldByAll o d (s.modify i f) +
      s.log.countP (isArrived o d) + s.log.countP (isDropped o d) + _
    omega

/-- What becomes of a message is written down. -/
theorem PoolBooks.note (h : PoolBooks N inHand s) (e : PoolEvent)
    (hcount : ∀ o d, [e].countP (isMade o d) + inHand.countP (isFrom o d) =
      [e].countP (isArrived o d) + [e].countP (isDropped o d) + l.countP (isFrom o d)) :
    PoolBooks N l (s.note e) := by
  refine ⟨h.cntUsers, h.onWay, fun o d => ?_⟩
  have hbal := h.balance o d
  have hc := hcount o d
  unfold tally at hbal ⊢
  show ([e] ++ s.log).countP (isMade o d) = heldByAll o d s +
    ([e] ++ s.log).countP (isArrived o d) + ([e] ++ s.log).countP (isDropped o d) + _
  rw [List.countP_append, List.countP_append, List.countP_append]
  omega

theorem PoolBooks.note_made (h : PoolBooks N inHand s) (msg : PoolMsg) :
    PoolBooks N (msg :: inHand) (s.note (.made msg)) := by
  refine h.note _ fun o d => ?_
  show [msg].countP (isFrom o d) + _ = 0 + 0 + ([msg] ++ inHand).countP (isFrom o d)
  rw [List.countP_append]
  omega

theorem PoolBooks.note_arrived (h : PoolBooks N (msg :: inHand) s) :
    PoolBooks N inHand (s.note (.arrived msg)) := by
  refine h.note _ fun o d => ?_
  show 0 + ([msg] ++ inHand).countP (isFrom o d) = [msg].countP (isFrom o d) + 0 + _
  rw [List.countP_append]
  omega

theorem PoolBooks.note_dropped (h : PoolBooks N (msg :: inHand) s) :
    PoolBooks N inHand (s.note (.dropped msg)) := by
  refine h.note _ fun o d => ?_
  show 0 + ([msg] ++ inHand).countP (isFrom o d) = 0 + [msg].countP (isFrom o d) + _
  rw [List.countP_append]
  omega

/-- The count is not part of what the books say of a message. -/
theorem PoolBooks.push (h : PoolBooks N (msg :: inHand) s) (hi : i < N)
    (hway : OnWay N i msg) {cnt : Nat}
    (hpush : s.push i { msg with cnt := cnt } = some s') : PoolBooks N inHand s' := by
  unfold PoolSimulator.push at hpush
  split at hpush
  · cases hpush
    refine h.modify hi _ ⟨fun m hm => ?_, (h.onWay i hi).2⟩ fun o d => ?_
    · rcases List.mem_append.mp hm with hm | hm
      · exact (h.onWay i hi).1 m hm
      · rw [List.mem_singleton.mp hm]
        exact ⟨hway.origin, hway.dest, hway.away, hway.near⟩
    · have hfrom : isFrom o d { msg with cnt := cnt } = isFrom o d msg := rfl
      unfold heldBy
      dsimp only
      rw [List.countP_append, List.countP_cons, List.countP_cons, List.countP_nil, hfrom]
      omega
  · cases hpush

theorem PoolBooks.handleSendMsg (h : PoolBooks N (msg :: inHand) s) {r : Nat} (hr : r < N)
    (hway : msg.dest ≠ r → OnWay N r msg) (drop : Bool) :
    PoolBooks N inHand (s.handleSendMsg r msg drop) := by
  unfold PoolSimulator.handleSendMsg
  split
  · exact h.note_arrived
  · next haway =>
      refine h.modify hr _ ⟨(h.onWay r hr).1, fun e he => ?_⟩ fun o d => ?_
      · rcases List.mem_append.mp he with he | he
        · exact (h.onWay r hr).2 e he
        · rw [List.mem_singleton.mp he]
          exact hway haway
      · unfold heldBy
        show (s.users r).sentPool.countP (isFrom o d) +
          ((s.users r).recvPool ++ [(msg, drop)]).countP (fun e => isFrom o d e.1) + _ =
          _ + ([msg] ++ inHand).countP (isFrom o d)
        have hone : [(msg, drop)].countP (fun e => isFrom o d e.1) = [msg].countP (isFrom o d) :=
          rfl
        rw [List.countP_append, List.countP_append, hone]
        omega

theorem PoolBooks.recvMsg {head : PoolMsg × Bool} (h : PoolBooks N (head.1 :: inHand) s)
    (hi : i < N) (hway : OnWay N i head.1) (hrecv : PoolSimulator.recvMsg i s head = some s') :
    PoolBooks N inHand s' := by
  unfold PoolSimulator.recvMsg at hrecv
  split at hrecv
  · cases hrecv
    exact h.note_dropped
  · exact h.push hi hway hrecv

theorem PoolBooks.recvMsgs {heads : List (PoolMsg × Bool)} (h : PoolBooks N (heads.map (·.1)) s)
    (hi : i < N) (hway : ∀ e ∈ heads, OnWay N i e.1)
    (hrecv : heads.foldlM (PoolSimulator.recvMsg i) s = some s') : PoolBooks N [] s' := by
  induction heads generalizing s with
  | nil =>
      cases hrecv
      exact h
  | cons head heads ih =>
      obtain ⟨t, hhead, hrest⟩ := Option.bind_eq_some_iff.mp hrecv
      exact ih (h.recvMsg hi (hway head (List.mem_cons_self ..)) hhead)
        (fun e he => hway e (List.mem_cons_of_mem head he)) hrest

theorem PoolBooks.drain (h : PoolBooks N [] s) (hi : i < N) (hdrain : s.drain i = some s') :
    PoolBooks N [] s' := by
  refine PoolBooks.recvMsgs (h.modify hi _ ⟨(h.onWay i hi).1, fun e he => ?_⟩ fun o d => ?_) hi
    (h.onWay i hi).2 hdrain
  · cases he
  · unfold heldBy
    dsimp only
    rw [List.countP_map, List.countP_nil, List.countP_nil]
    rfl

theorem PoolBooks.generate (h : PoolBooks N [] s) (hi : i < N) {p : UInt32}
    (hgen : s.generate i p = some s') : PoolBooks N [] s' := by
  unfold PoolSimulator.generate at hgen
  simp only at hgen
  split at hgen
  · next hnew =>
      rw [h.cntUsers] at hgen hnew
      exact (h.note_made _).push hi ⟨hi, Nat.mod_lt _ (by omega), hnew.2, le_refl _⟩ hgen
  · cases hgen
    exact h

/-- The next user is nearer, or as near. -/
theorem PoolBooks.receiver (h : PoolBooks N inHand s) (hN : N ≤ 2 ^ 31) (hi : i < N)
    {dest r : Nat} {step : UInt32} (hdest : dest < N)
    (hr : s.receiver i dest step = some r) : r < N ∧ around N r dest ≤ around N i dest := by
  have hsame := h.cntUsers
  subst hsame
  exact receiver_near hN hi hdest hr

theorem PoolBooks.sendDummy (h : PoolBooks N [] s) (hN : N ≤ 2 ^ 31) (hi : i < N)
    {draws : PoolDraws} (hsend : s.sendDummy i draws = some s') : PoolBooks N [] s' := by
  unfold PoolSimulator.sendDummy at hsend
  simp only at hsend
  split at hsend
  · cases hsend
    exact h
  · obtain ⟨r, hr, hs'⟩ := Option.map_eq_some_iff.mp hsend
    cases hs'
    rw [h.cntUsers] at hr ⊢
    have hdest : draws.dest.toNat % N < N := Nat.mod_lt _ (by omega)
    obtain ⟨hlt, hnear⟩ := h.receiver hN hi hdest hr
    exact (h.note_made _).handleSendMsg hlt (fun haway => ⟨hi, hdest, haway, hnear⟩) false

/-- The message in hand is the entry, and the hole is filled with the last one. -/
theorem PoolBooks.sendMsg (h : PoolBooks N [] s) (hN : N ≤ 2 ^ 31) (hi : i < N)
    {percent : Nat → Nat → Int} {k : Nat} {draws : PoolDraws}
    (hsend : s.sendMsg percent i k draws = some s') : PoolBooks N [] s' := by
  unfold PoolSimulator.sendMsg at hsend
  simp only at hsend
  split at hsend
  · next msg last hmsg hlast =>
      obtain ⟨r, hr, hs'⟩ := Option.map_eq_some_iff.mp hsend
      cases hs'
      obtain ⟨hk, hget⟩ := List.getElem?_eq_some_iff.mp hmsg
      have hperm := perm_fill_hole hk hlast
      rw [hget] at hperm
      have hway : OnWay N i msg := (h.onWay i hi).1 msg (List.mem_of_getElem? hmsg)
      obtain ⟨hlt, hnear⟩ := h.receiver hN hi hway.dest hr
      refine PoolBooks.handleSendMsg
        (h.modify hi _ ⟨fun m hm => ?_, (h.onWay i hi).2⟩ fun o d => ?_) hlt
        (fun haway => ⟨hway.origin, hway.dest, haway, le_trans hnear hway.near⟩) _
      · exact (h.onWay i hi).1 m (hperm.mem_iff.mp (List.mem_cons_of_mem msg hm))
      · have hcount := hperm.countP_eq (isFrom o d)
        rw [List.countP_cons] at hcount
        unfold heldBy
        dsimp only
        rw [List.countP_cons, List.countP_nil]
        omega
  · cases hsend

theorem PoolBooks.run (h : PoolBooks N [] s) (hN : N ≤ 2 ^ 31) (hi : i < N)
    {percent : Nat → Nat → Int} {draws : PoolDraws}
    (hrun : s.run percent i draws = some s') : PoolBooks N [] s' := by
  unfold PoolSimulator.run at hrun
  obtain ⟨t, hgen, hrun⟩ := Option.bind_eq_some_iff.mp hrun
  obtain ⟨v, hdrain, hrun⟩ := Option.bind_eq_some_iff.mp hrun
  have hbooks := (h.generate hi hgen).drain hi hdrain
  simp only at hrun
  split at hrun
  · exact hbooks.sendDummy hN hi hrun
  · exact hbooks.sendMsg hN hi hrun

end PoolBooks

/-! ## Whole runs -/

section Runs

variable {percent : Nat → Nat → Int} {N R : Nat} {turns : List (Nat × PoolDraws)}
  {s : PoolSimulator}

theorem poolBooks_start : PoolBooks N [] { cntUsers := N, range := R } := by
  refine ⟨rfl, fun u _ => ⟨fun msg hmsg => ?_, fun e he => ?_⟩, fun o d => ?_⟩
  · cases hmsg
  · cases he
  · simp [tally, heldByAll, heldBy]

theorem start_poolBooks (hN : N ≤ 2 ^ 31) (hturns : ∀ turn ∈ turns, turn.1 < N)
    (h : PoolSimulator.start percent N R turns = some s) : PoolBooks N [] s :=
  foldlM_inv_mem (fun turn hturn _ _ hs hrun => PoolBooks.run hs hN (hturns turn hturn) hrun)
    poolBooks_start h

/-- No message is ever farther from its destination than where it was made. -/
theorem pool_messages_approach (hN : N ≤ 2 ^ 31) (hturns : ∀ turn ∈ turns, turn.1 < N)
    (h : PoolSimulator.start percent N R turns = some s) :
    ∀ u < N, UserOnWay N u (s.users u) :=
  (start_poolBooks hN hturns h).onWay

/-- User 0 sends a message for 5 backwards to 6, which delivers it; user 1 sends a new one
for 3 as far as 2. -/
def threeTurns : List (Nat × PoolDraws) :=
  [(0, ⟨9, 0, 0, 1, 50⟩), (6, ⟨0, 0, 0, 0, 50⟩), (1, ⟨0, 5, 3, 1, 50⟩)]

theorem threeTurns_lt : ∀ turn ∈ threeTurns, turn.1 < 7 := by decide

theorem pool_messages_approach_three :
    ∃ s, PoolSimulator.start (fun _ _ => 0) 7 4 threeTurns = some s ∧
      (s.users 2).recvPool = [(⟨1, 3, 0⟩, false)] ∧ UserOnWay 7 2 (s.users 2) := by
  have hend : (PoolSimulator.start (fun _ _ => 0) 7 4 threeTurns).map
      (fun s => (s.users 2).recvPool) = some [(⟨1, 3, 0⟩, false)] := by decide
  obtain ⟨s, hs, hpool⟩ := Option.map_eq_some_iff.mp hend
  exact ⟨s, hs, hpool, pool_messages_approach (by decide) threeTurns_lt hs 2 (by decide)⟩

/-- Every message that was made is in one pool, has arrived or was dropped. -/
theorem pool_messages_conserved (hN : N ≤ 2 ^ 31) (hturns : ∀ turn ∈ turns, turn.1 < N)
    (h : PoolSimulator.start percent N R turns = some s) (o d : Nat) :
    s.log.countP (isMade o d) =
      heldByAll o d s + s.log.countP (isArrived o d) + s.log.countP (isDropped o d) := by
  rw [(start_poolBooks hN hturns h).balance o d, List.countP_nil]
  rfl

theorem pool_messages_conserved_three :
    ∃ s, PoolSimulator.start (fun _ _ => 0) 7 4 threeTurns = some s ∧
      s.log = [.made ⟨1, 3, 0⟩, .arrived ⟨0, 5, 1⟩, .made ⟨0, 5, 0⟩] ∧
      s.log.countP (isMade 0 5) =
        heldByAll 0 5 s + s.log.countP (isArrived 0 5) + s.log.countP (isDropped 0 5) := by
  have hend : (PoolSimulator.start (fun _ _ => 0) 7 4 threeTurns).map (·.log) =
      some [.made ⟨1, 3, 0⟩, .arrived ⟨0, 5, 1⟩, .made ⟨0, 5, 0⟩] := by decide
  obtain ⟨s, hs, hlog⟩ := Option.map_eq_some_iff.mp hend
  exact ⟨s, hs, hlog, pool_messages_conserved (by decide) threeTurns_lt hs 0 5⟩

end Runs

end Daenet.Proofs
