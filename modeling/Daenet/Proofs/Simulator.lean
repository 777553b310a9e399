import Daenet.Lib.Clockwise
import Daenet.Lib.Strides
import Daenet.Ref.DAESimulator

/-!
# Routes in the simulator

A user hands a message to the last neighbour that is not past the destination: at
the distance `2 ^ i` when `2 ^ i` fits and `2 ^ (i + 1)` does not. The last interval
of the source's search, everything from the farthest neighbour on, is its default,
and a message to the sender itself falls into it too: its way is a whole turn. So
every hop is the longest stride of `Strides` on the way that is left, `span`.
-/

namespace Daenet.Proofs

open Daenet.Lib Daenet.Ref

variable {N u dest : Nat}

/-! ## One hop -/

theorem add_mod_eq {a : Nat} (hu : u < N) (ha : a < N) :
    (u + a) % N = if u + a < N then u + a else u + a - N := by
  split
  · next h => exact Nat.mod_eq_of_lt h
  · next h => rw [Nat.mod_eq_sub_mod (by omega), Nat.mod_eq_of_lt (by omega)]

/-- The interval between two neighbours: the distances from the one to the other. -/
theorem inRange_neighbours {a : Nat} (hu : u < N) (hdest : dest < N) (ha : 0 < a)
    (haN : a + a < N) :
    DAEUser.inRange N ((u + a) % N) ((u + (a + a)) % N) dest = true ↔
      a ≤ cw N u dest ∧ cw N u dest < a + a := by
  rw [add_mod_eq hu (by omega), add_mod_eq hu haN]
  unfold DAEUser.inRange cw
  split_ifs <;> rw [decide_eq_true_iff] <;> omega

/-- The loop of `get_idx` finds the interval, or none. -/
theorem searchIdx_eq (hu : u < N) (hdest : dest < N) {k : Nat} (hk : 2 ^ k < N) :
    (DAEUser.init N u).searchIdx N dest k =
      if cw N u dest = 0 ∨ 2 ^ k ≤ cw N u dest then N.log2 - 1
      else (cw N u dest).log2 := by
  induction k with
  | zero =>
      rw [if_pos (by omega)]
      rfl
  | succ k ih =>
      have hpow : 2 ^ (k + 1) = 2 ^ k + 2 ^ k := by rw [Nat.pow_succ]; omega
      have hpos := Nat.two_pow_pos k
      have hin := inRange_neighbours hu hdest hpos (hpow ▸ hk)
      rw [← hpow] at hin
      change DAEUser.inRange N ((DAEUser.init N u).neighbours k)
        ((DAEUser.init N u).neighbours (k + 1)) dest = true ↔ _ at hin
      rw [DAEUser.searchIdx, ih (by omega)]
      by_cases hhere : 2 ^ k ≤ cw N u dest ∧ cw N u dest < 2 ^ (k + 1)
      · have hlog := (Nat.log2_eq_iff (by omega)).mpr hhere
        rw [if_pos (hin.mpr hhere), if_neg (by omega), hlog]
      · rw [if_neg (mt hin.mp hhere)]
        congr 1
        exact propext ⟨by omega, by omega⟩

/-- `get_idx`: the longest stride on the way that is left. -/
theorem getIdx_eq (hN : 2 ≤ N) (hu : u < N) (hdest : dest < N) :
    (DAEUser.init N u).getIdx N dest = min (span N u dest).log2 (N.log2 - 1) := by
  have hlog : 1 ≤ N.log2 := (Nat.le_log2 (by omega)).mpr hN
  have htop : 2 ^ (N.log2 - 1) < N := by
    calc 2 ^ (N.log2 - 1)
        _ < 2 ^ N.log2 := Nat.pow_lt_pow_right (by decide) (by omega)
        _ ≤ N := Nat.log2_self_le (by omega)
  have hsearch := searchIdx_eq hu hdest htop
  rw [DAEUser.getIdx, show (DAEUser.init N u).count = N.log2 from rfl, hsearch]
  by_cases hself : u = dest
  · subst hself
    rw [cw_self, if_pos (.inl rfl), span_self]
    omega
  · have hne : cw N u dest ≠ 0 := mt (cw_eq_zero hu).mp hself
    rw [span_of_ne hself]
    by_cases hfar : 2 ^ (N.log2 - 1) ≤ cw N u dest
    · rw [if_pos (.inr hfar), Nat.min_eq_right ((Nat.le_log2 hne).mpr hfar)]
    · rw [if_neg (by omega), Nat.min_eq_left]
      exact Nat.le_of_lt ((Nat.log2_lt hne).mpr (by omega))

/-- Where user `u` hands a message to `dest`. -/
def nextUser (N dest u : Nat) : Nat :=
  (DAEUser.init N u).neighbours ((DAEUser.init N u).getIdx N dest)

theorem nextUser_eq (hN : 2 ≤ N) (hu : u < N) (hdest : dest < N) :
    nextUser N dest u = (u + stride (N.log2 - 1) (span N u dest)) % N := by
  rw [nextUser, getIdx_eq hN hu hdest]
  rfl

theorem nextUser_lt (hN : 2 ≤ N) (dest u : Nat) : nextUser N dest u < N :=
  Nat.mod_lt _ (by omega)

/-- From `a` to `b` is part of the way from `a` to `dest`. -/
def OnTheWay (N dest a b : Nat) : Prop := cw N a b + cw N b dest = span N a dest

theorem cw_of_stride {k : Nat} (hu : u < N) (hdest : dest < N) (hpos : 0 < k) (hk : k < N)
    (hle : k ≤ span N u dest) :
    cw N u ((u + k) % N) = k ∧ OnTheWay N dest u ((u + k) % N) := by
  unfold OnTheWay
  rw [cw_add hu hk]
  refine ⟨rfl, ?_⟩
  rw [add_mod_eq hu hk]
  unfold span cw at *
  split_ifs at * <;> omega

/-- A hop goes on by its stride, and not past the destination. -/
theorem nextUser_cw (hN : 2 ≤ N) (hu : u < N) (hdest : dest < N) :
    cw N u (nextUser N dest u) = stride (N.log2 - 1) (span N u dest) ∧
      OnTheWay N dest u (nextUser N dest u) := by
  have hspan := span_pos hu hdest
  have hlog : 1 ≤ N.log2 := (Nat.le_log2 (by omega)).mpr hN
  have hlt : stride (N.log2 - 1) (span N u dest) < N := by
    calc stride (N.log2 - 1) (span N u dest)
        _ ≤ 2 ^ (N.log2 - 1) := Nat.pow_le_pow_right (by decide) (Nat.min_le_right ..)
        _ < 2 ^ N.log2 := Nat.pow_lt_pow_right (by decide) (by omega)
        _ ≤ N := Nat.log2_self_le (by omega)
  rw [nextUser_eq hN hu hdest]
  exact cw_of_stride hu hdest stride_pos hlt (stride_le (by omega))

/-! ## A route -/

/-- From `u` on, by way of `vs`, of which the last is `dest`: a message is sent at
least once, and comes to rest where `recv_message` finds that it has arrived. -/
inductive Route (N dest : Nat) : Nat → List Nat → Prop
  | last {u : Nat} : nextUser N dest u = dest → Route N dest u [dest]
  | more {u : Nat} {vs : List Nat} : nextUser N dest u ≠ dest →
      Route N dest (nextUser N dest u) vs → Route N dest u (nextUser N dest u :: vs)

theorem Route.getLast {vs : List Nat} (h : Route N dest u vs) : vs.getLast? = some dest := by
  induction h with
  | last => rfl
  | more _ hroute ih =>
      rw [List.getLast?_cons, ih]
      rfl

/-- A way of length `d` takes at most `k` hops. -/
def Reached (N dest d k : Nat) : Prop :=
  ∀ u < N, span N u dest = d → ∃ vs, Route N dest u vs ∧ vs.length ≤ k ∧
    List.IsChain (OnTheWay N dest) (u :: vs)

theorem reached_next (hN : 2 ≤ N) (hdest : dest < N) {d k : Nat}
    (h : Reached N dest (d - stride (N.log2 - 1) d) k) : Reached N dest d (k + 1) := by
  intro u hu hspan
  obtain ⟨hstride, hway⟩ := nextUser_cw hN hu hdest
  by_cases hlast : nextUser N dest u = dest
  · refine ⟨[dest], .last hlast, Nat.succ_le_succ (Nat.zero_le k), ?_⟩
    rw [hlast] at hway
    exact .cons_cons hway (.singleton dest)
  · have hrest : span N (nextUser N dest u) dest = d - stride (N.log2 - 1) d := by
      have hsum : _ = span N u dest := hway
      rw [span_of_ne hlast]
      rw [hspan] at hstride hsum
      omega
    obtain ⟨vs, hroute, hlen, hchain⟩ := h _ (nextUser_lt hN dest u) hrest
    exact ⟨nextUser N dest u :: vs, .more hlast hroute, Nat.succ_le_succ hlen,
      .cons_cons hway hchain⟩

/-- The circle is shorter than four of the longest strides. -/
theorem route_exists (hN : 2 ≤ N) (hu : u < N) (hdest : dest < N) :
    ∃ vs, Route N dest u vs ∧ vs.length ≤ N.log2 + 2 ∧
      List.IsChain (OnTheWay N dest) (u :: vs) := by
  have hlog : 1 ≤ N.log2 := (Nat.le_log2 (by omega)).mpr hN
  have hspan : span N u dest ≤ N := by
    have hsum := cw_add_span hu hdest
    omega
  have hpow : 2 ^ (N.log2 + 1) = 2 ^ (N.log2 - 1) * 4 := by
    rw [show N.log2 + 1 = N.log2 - 1 + 2 by omega, Nat.pow_add]
  have hlt : N < 2 ^ (N.log2 + 1) := Nat.lt_log2_self
  have hlong : span N u dest / 2 ^ (N.log2 - 1) < 4 := Nat.div_lt_of_lt_mul (by omega)
  obtain ⟨k, hk, hreached⟩ := strides_induction (P := Reached N dest) (d := span N u dest)
    (fun u hu hzero => absurd hzero (Nat.ne_of_gt (span_pos hu hdest)))
    (fun d k _ h => reached_next hN hdest h)
  obtain ⟨vs, hroute, hlen, hchain⟩ := hreached u hu rfl
  exact ⟨vs, hroute, by omega, hchain⟩

/-- Every message arrives: from any user to any user, the sender included, after at
least one hop and at most `count + 2`, and no hop goes past the destination. -/
theorem simulator_routes (N u dest : Nat) (hN : 2 ≤ N) (hu : u < N) (hdest : dest < N) :
    ∃ vs, Route N dest u vs ∧ 1 ≤ vs.length ∧
      vs.length ≤ (DAEUser.init N u).count + 2 ∧ vs.getLast? = some dest ∧
      List.IsChain (OnTheWay N dest) (u :: vs) := by
  obtain ⟨vs, hroute, hlen, hchain⟩ := route_exists hN hu hdest
  refine ⟨vs, hroute, ?_, hlen, hroute.getLast, hchain⟩
  cases hroute with
  | last => exact Nat.le_refl 1
  | more => exact Nat.succ_le_succ (Nat.zero_le _)

/-- Eleven users, so that `count` is 3, and a message to the sender: by 4, 4, 2
and 1. -/
theorem simulator_routes_eleven :
    ∃ vs, Route 11 0 0 vs ∧ vs.length ≤ 5 := by
  obtain ⟨vs, hroute, _, hlen, _⟩ := simulator_routes 11 0 0 (by decide) (by decide) (by decide)
  exact ⟨vs, hroute, hlen⟩

/-! ## Runs of the simulator -/

/-- A message that has been sent `step` times is at most as far from `dest` as the
rest of its `count + 2` hops. -/
def InReach (N u step dest : Nat) : Prop :=
  ∃ vs, Route N dest u vs ∧ step + vs.length ≤ N.log2 + 2

/-- User `u`, with messages that are all in time: those to be sent, and those
received, which have been sent once more than they say. -/
structure EnRoute (N u : Nat) (user : DAEUser) : Prop where
  id : user.id = u
  count : user.count = N.log2
  neighbours : user.neighbours = (DAEUser.init N u).neighbours
  send : ∀ m ∈ user.sendQueue, InReach N u m.step m.dest
  recv : ∀ m ∈ user.recvMessages, InReach N u (m.step + 1) m.dest

variable {user : DAEUser} {m : DAEMsg}

theorem EnRoute.getIdx (h : EnRoute N u user) (dest : Nat) :
    user.getIdx N dest = (DAEUser.init N u).getIdx N dest := by
  have hsearch : ∀ k, user.searchIdx N dest k = (DAEUser.init N u).searchIdx N dest k := by
    intro k
    induction k with
    | zero =>
        rw [DAEUser.searchIdx, DAEUser.searchIdx, h.count]
        rfl
    | succ k ih => rw [DAEUser.searchIdx, DAEUser.searchIdx, h.neighbours, ih]
  rw [DAEUser.getIdx, DAEUser.getIdx, hsearch, h.count]
  rfl

theorem EnRoute.recvMessage (h : EnRoute N u user) (step : Nat)
    (hm : m.dest ≠ u → InReach N u (m.step + 1) m.dest) :
    EnRoute N u (user.recvMessage step m) := by
  rw [DAEUser.recvMessage]
  split
  · exact ⟨h.id, h.count, h.neighbours, h.send, h.recv⟩
  · next hne =>
      refine ⟨h.id, h.count, h.neighbours, h.send, fun m' hm' => ?_⟩
      rcases List.mem_append.mp hm' with hold | hnew
      · exact h.recv m' hold
      · rw [List.mem_singleton.mp hnew]
        exact hm (h.id ▸ hne)

theorem EnRoute.emitRealMessage (h : EnRoute N u user) (hN : 2 ≤ N) (hu : u < N)
    (step r : Nat) : EnRoute N u (user.emitRealMessage N step r) := by
  refine ⟨h.id, h.count, h.neighbours, fun m hm => ?_, nofun⟩
  rcases List.mem_append.mp hm with hold | hm
  · exact h.send m hold
  · rcases List.mem_cons.mp hm with rfl | hm
    · obtain ⟨vs, hroute, hlen, _⟩ :=
        route_exists hN hu (Nat.mod_lt r (show 0 < N by omega))
      exact ⟨vs, hroute, by rw [Nat.zero_add]; exact hlen⟩
    · obtain ⟨m', hm', rfl⟩ := List.mem_map.mp hm
      exact h.recv m' hm'

/-- The users of a simulator, all of them in time. -/
structure AllEnRoute (N : Nat) (s : DAESimulator) : Prop where
  numOfUsers : s.numOfUsers = N
  users : ∀ u < N, EnRoute N u (s.users u)

variable {s : DAESimulator}

theorem AllEnRoute.modify (h : AllEnRoute N s) {f : DAEUser → DAEUser}
    (hf : u < N → EnRoute N u (s.users u) → EnRoute N u (f (s.users u))) :
    AllEnRoute N (s.modify u f) := by
  refine ⟨h.numOfUsers, fun v hv => ?_⟩
  simp only [DAESimulator.modify]
  split
  · next heq =>
      subst heq
      exact hf hv (h.users v hv)
  · exact h.users v hv

/-- A message that is handed on: it has arrived, or it is one hop nearer. -/
theorem AllEnRoute.sendRealMessage (h : AllEnRoute N s) (hu : u < N) :
    AllEnRoute N (s.sendRealMessage u) := by
  have huser := h.users u hu
  rw [DAESimulator.sendRealMessage]
  split
  · exact h
  · next m rest hqueue =>
      have hnext : (s.users u).neighbours ((s.users u).getIdx s.numOfUsers m.dest) =
          nextUser N m.dest u := by
        rw [h.numOfUsers, huser.getIdx, huser.neighbours]
        rfl
      dsimp only
      rw [hnext]
      refine (h.modify fun hv hin => hin.recvMessage s.step fun hne => ?_).modify
        fun _ hin => ⟨hin.id, hin.count, hin.neighbours, ?_, hin.recv⟩
      · obtain ⟨vs, hroute, hlen⟩ :=
          huser.send m (hqueue ▸ List.mem_cons_self ..)
        cases hroute with
        | last hlast => exact absurd hlast.symm hne
        | more _ hroute =>
            rw [List.length_cons] at hlen
            exact ⟨_, hroute, by omega⟩
      · exact fun m' hm' => hin.send m' (List.mem_of_mem_tail hm')

theorem AllEnRoute.sendBatchMessages (h : AllEnRoute N s) (hu : u < N) :
    AllEnRoute N (s.sendBatchMessages u) :=
  List.foldlRecOn _ _ h fun _ hs _ _ => hs.sendRealMessage hu

theorem AllEnRoute.turn (h : AllEnRoute N s) (hN : 2 ≤ N) (r : Nat → Nat) (print : Bool) :
    AllEnRoute N (s.turn r print) := by
  have hemit : AllEnRoute N ((List.range s.numOfUsers).foldl
      (fun s i => s.modify i fun u => u.emitRealMessage s.numOfUsers s.step (r i)) s) := by
    refine List.foldlRecOn _ _ h fun s hs i hi => hs.modify fun hi hin => ?_
    rw [hs.numOfUsers]
    exact hin.emitRealMessage hN hi s.step (r i)
  have hsend : ∀ {t : DAESimulator}, AllEnRoute N t → AllEnRoute N
      ((List.range t.numOfUsers).foldl (fun s i =>
        let s := s.sendBatchMessages i
        if print ∧ i < 1024 then s.modify i DAEUser.printInfo else s) t) := by
    intro t ht
    refine List.foldlRecOn _ _ ht fun s hs i hi => ?_
    have hlt : i < N := ht.numOfUsers ▸ List.mem_range.mp hi
    have hbatch := hs.sendBatchMessages hlt
    dsimp only
    split
    · exact hbatch.modify fun _ hin =>
        ⟨hin.id, hin.count, hin.neighbours, hin.send, hin.recv⟩
    · exact hbatch
  exact ⟨(hsend hemit).numOfUsers, (hsend hemit).users⟩

theorem allEnRoute_start (N : Nat) : AllEnRoute N (.start N) :=
  ⟨rfl, fun _ _ => ⟨rfl, rfl, rfl, nofun, nofun⟩⟩

/-- In every run of the simulator, whatever the random numbers: a message that waits
at some user, to be sent or to be forwarded, is on its route, and no message is ever
sent more than `count + 2` times. -/
theorem simulator_in_time (hN : 2 ≤ N) (turns : List ((Nat → Nat) × Bool)) :
    AllEnRoute N (turns.foldl (fun s t => s.turn t.1 t.2) (.start N)) :=
  List.foldlRecOn _ _ (allEnRoute_start N) fun _ hs t _ => hs.turn hN t.1 t.2

end Daenet.Proofs
