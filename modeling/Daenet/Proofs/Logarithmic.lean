import Daenet.Proofs.Routing

/-!
# Exact tables route in logarithmically many hops

With exact finger tables a request is passed on at most `m` times. The
distance to the key need not halve at a hop: the key may lie just behind the
node it is passed to, and far behind every node before that one. What halves
is the distance to the last node before the key. Let `2 ^ e` be the highest
power of two not above it. Finger `e` has not passed that node, so the scan
stops at `e` or higher, and wherever it stops it has come `2 ^ e` places
nearer without passing.

The handlers see the key only through the scan, so the argument is made once
for lookups and dead-drop messages alike.
-/

namespace Daenet.Proofs

open Daenet.Lib Daenet.Ref Daenet.Spec

variable {ι : Type} {R : Roster ι} {i : ι} {n : DAENode} {k : Nat}

/-- Finger `t` of node `i` is the node responsible for the place `2 ^ t` on. -/
def Exact (R : Roster ι) (i : ι) (n : DAENode) : Prop :=
  ∀ t < R.m, ∃ j, R.IsSucc (R.start i t) j ∧ (n.fingerTable t).peer = R.peer j

theorem Exact.live (h : Exact R i n) : R.Live n := by
  intro t ht
  obtain ⟨j, _, hj⟩ := h t ht
  exact ⟨j, hj.symm⟩

/-- Node `p` is the last one strictly before the key `k`. -/
def IsLast (R : Roster ι) (k : Nat) (p : ι) : Prop :=
  ∀ l, span R.size (R.id p) k ≤ span R.size (R.id l) k

theorem exists_isLast [Nonempty ι] (R : Roster ι) (k : Nat) :
    ∃ p, IsLast R k p :=
  ⟨Function.argmin fun l => span R.size (R.id l) k,
    fun l => Function.argmin_le (fun l => span R.size (R.id l) k) l⟩

/-! ## The scan -/

/-- The scan stops at the highest finger before the key. -/
theorem closestFinger_highest {t : Nat} {f : ChordFinger}
    (h : n.closestFinger k t = some f) :
    ∃ u < t, f = n.fingerTable u ∧
      n.isInRange n.id k (n.fingerTable u).successor = true ∧
      ∀ v < t, n.isInRange n.id k (n.fingerTable v).successor = true →
        v ≤ u := by
  induction t with
  | zero => cases h
  | succ t ih =>
      rw [DAENode.closestFinger] at h
      split at h
      · next hin =>
          injection h with h
          exact ⟨t, Nat.lt_succ_self t, h.symm, hin,
            fun v hv _ => Nat.le_of_lt_succ hv⟩
      · next hout =>
          obtain ⟨u, hu, hf, hin, hmax⟩ := ih h
          refine ⟨u, Nat.lt_succ_of_lt hu, hf, hin, fun v hv hinv => ?_⟩
          rcases Nat.lt_succ_iff_lt_or_eq.mp hv with hlt | rfl
          · exact hmax v hlt hinv
          · exact absurd hinv hout

/-- One hop of exact tables: if the last node before the key is less than
`2 ^ e` places away, it is less than a smaller power of two away from the node
the scan answers. -/
theorem scan_halves (hown : R.Owns i n) (hexact : Exact R i n)
    (hk : k < R.size) {p : ι} (hp : IsLast R k p) {f : ChordFinger}
    (hscan : n.closestFinger k n.m = some f) {e : Nat}
    (hd : cw R.size (R.id i) (R.id p) < 2 ^ e) :
    ∃ j, f.peer = R.peer j ∧ ∃ e' < e, cw R.size (R.id j) (R.id p) < 2 ^ e' := by
  obtain ⟨u, hu, rfl, hin, hmax⟩ := closestFinger_highest hscan
  rw [hown.m] at hu
  obtain ⟨j, hj, hpeer⟩ := hexact u hu
  have hid : (n.fingerTable u).successor = R.id j := congrArg PeerPair.relayId hpeer
  rw [hid, inRange_iff hown hk (R.id_lt_size j)] at hin
  have hi := R.id_lt_size i
  have hpl := R.id_lt_size p
  have hjl := R.id_lt_size j
  -- The last node before the key is still ahead.
  have hpk := between_of_span_le hi hjl hk hpl (hp j) hin
  have hjp := cw_le_of_span_le hi hjl hk hpl (hp j) hin
  have hpos : cw R.size (R.id i) (R.id p) ≠ 0 := fun h0 =>
    hpk.1 ((cw_eq_zero hi).mp h0).symm
  have hlow := Nat.log2_self_le hpos
  have hhigh := @Nat.lt_log2_self (cw R.size (R.id i) (R.id p))
  generalize hlog : (cw R.size (R.id i) (R.id p)).log2 = g at hlow hhigh
  have hge : g < e := (Nat.pow_lt_pow_iff_right (by omega)).mp
    (Nat.lt_of_le_of_lt hlow hd)
  have hgm : g < R.m := (Nat.pow_lt_pow_iff_right (by omega)).mp
    (Nat.lt_of_le_of_lt hlow (cw_lt hi hpl))
  -- Finger `g` has not passed it, so the scan stopped at `g` or higher.
  obtain ⟨l, hl, hlpeer⟩ := hexact g hgm
  have hlid : (n.fingerTable g).successor = R.id l :=
    congrArg PeerPair.relayId hlpeer
  have hlp : cw R.size (R.id i) (R.id l) ≤ cw R.size (R.id i) (R.id p) :=
    cw_le_of_stop_le hi (R.start_lt i g) hpl
      (by rw [R.cw_start i hgm]; exact hlow) (hl p)
  have hli : R.id l ≠ R.id i := by
    refine ne_of_stop_le hi (R.start_lt i g) hpl ?_
      (by rw [R.cw_start i hgm]; exact hlow) (hl p)
    intro he
    have hcw := R.cw_start i hgm
    rw [he, cw_self] at hcw
    exact absurd hcw (Nat.two_pow_pos g).ne
  have hgu : g ≤ u := by
    refine hmax g (hown.m ▸ hgm) ?_
    rw [hlid, inRange_iff hown hk (R.id_lt_size l)]
    exact ⟨hli, Nat.lt_of_le_of_lt hlp hpk.2⟩
  -- Finger `u` is at least `2 ^ u` places on.
  have hfar : 2 ^ u ≤ cw R.size (R.id i) (R.id j) := by
    rw [← R.cw_start i hu]
    exact cw_le_of_stop hi (R.start_lt i u) hin.1 (hj i)
  have hpow : (2 : Nat) ^ g ≤ 2 ^ u := Nat.pow_le_pow_right (by omega) hgu
  have hsum := cw_add_cw hi hjl hpl hjp
  refine ⟨j, hpeer, g, hge, ?_⟩
  rw [Nat.pow_succ] at hhigh
  omega

/-! ## Following a request -/

/-- A request is passed on to the node the scan answers. -/
theorem scan_of_forwards {q : Request} {p : AnonymousPacket}
    (hp : packetOf (q.handledBy n) = some p) (hfwd : q.Forwards p) :
    ∃ f, n.closestFinger q.key n.m = some f ∧ p.dest = f.addr := by
  have hfound : n.findClosestPrecedingNode q.key ≠ n.id →
      p.dest = (n.findClosestPrecedingNodeIp q.key,
        n.findClosestPrecedingNodePort q.key) →
      ∃ f, n.closestFinger q.key n.m = some f ∧ p.dest = f.addr := by
    intro hne hdest
    cases hscan : n.closestFinger q.key n.m with
    | none =>
        refine absurd ?_ hne
        simp only [DAENode.findClosestPrecedingNode, hscan, Option.map_none,
          Option.getD_none]
    | some f =>
        obtain ⟨_, hip, hport⟩ := findClosest_of_scan hscan
        exact ⟨f, rfl, by rw [hdest, hip, hport]; rfl⟩
  cases q with
  | lookup ip port index k =>
      have hid := IsForward.id hfwd
      change packetOf (n.handleFindSuccessor ip port index k) = some p at hp
      unfold DAENode.handleFindSuccessor at hp
      split_ifs at hp with h1 h2 h3 <;> injection hp with hp <;> subst hp
      · cases hid
      · cases hid
      · cases hid
      · exact hfound h3 rfl
  | mail x =>
      have hd := hfwd.2
      change packetOf (n.handleExternalMessaging x) = some p at hp
      unfold DAENode.handleExternalMessaging at hp
      split_ifs at hp with h1 h2 h3 <;> injection hp with hp <;> subst hp
      · cases hd
      · cases hd
      · cases hd
      · exact hfound h3 rfl

/-- A request at a node less than `2 ^ e` places before the last node before
the key is finished after at most `e` hops. -/
theorem trace_halves {nodes : Nat → ι → DAENode}
    (howns : ∀ t i, R.Owns i (nodes t i))
    (hexact : ∀ t i, Exact R i (nodes t i)) (hk : k < R.size) {l : ι}
    (hl : IsLast R k l) :
    ∀ (e t : Nat) (i : ι) (q : Request), q.key = k → q.Stops → R.Owns i n →
      Exact R i n → cw R.size (R.id i) (R.id l) < 2 ^ e →
      ∃ ps p, Trace R nodes t (q.handledBy n) (ps ++ [p]) ∧ ps.length ≤ e ∧
        (∀ p' ∈ ps, q.Forwards p') ∧ q.Finishes p := by
  intro e
  induction e using Nat.strong_induction_on generalizing n with
  | _ e ih =>
      rintro t i q rfl hq hown hex hd
      obtain ⟨p, hp, hfin | ⟨hfwd, j, hdest, _⟩⟩ :=
        request_step hown hex.live q hk
      · exact ⟨[], p, .done hp (hfin.not_onTheWay hq), Nat.zero_le e,
          fun _ h => (by cases h), hfin⟩
      · obtain ⟨f, hscan, hf⟩ := scan_of_forwards hp hfwd
        obtain ⟨j', hpeer, e', he', hd'⟩ :=
          scan_halves hown hex hk hl hscan hd
        have hj : j = j' := by
          refine R.addr_inj (hdest.symm.trans (hf.trans ?_))
          exact Prod.ext (congrArg PeerPair.ip hpeer)
            (congrArg PeerPair.port hpeer)
        subst hj
        obtain ⟨ps, p', htr, hlen, hps, hend⟩ := ih e' he' (n := nodes t j)
          (t + 1) j (q.next p) (Request.next_key hfwd)
          (Request.next_stops hfwd hq) (howns t j) (hexact t j) hd'
        refine ⟨p :: ps, p', .hop hp (hfwd.onTheWay hq) hdest
          (Request.receive_next hfwd hq) htr, ?_, ?_,
          Request.next_finishes hfwd hend⟩
        · exact Nat.le_trans (Nat.succ_le_succ hlen) he'
        · intro p'' hp''
          rcases List.mem_cons.mp hp'' with rfl | hp''
          · exact hfwd
          · exact Request.next_forwards hfwd (hps p'' hp'')

/-- The tables determine the packets. -/
theorem trace_unique {nodes : Nat → ι → DAENode} {t : Nat} {e : Effect}
    {ps ps' : List AnonymousPacket} (htr : Trace R nodes t e ps)
    (htr' : Trace R nodes t e ps') : ps' = ps := by
  induction htr generalizing ps' with
  | done he h =>
      rcases htr'.head he with ⟨_, hps⟩ | ⟨hway, _⟩
      · exact hps
      · rw [h] at hway
        cases hway
  | hop he h hdest hrecv _ ih =>
      rcases htr'.head he with ⟨hway, _⟩ |
        ⟨_, j', e', ps'', rfl, hdest', hrecv', hrest'⟩
      · rw [h] at hway
        cases hway
      · have hj := R.addr_inj (hdest'.symm.trans hdest)
        subst hj
        rw [hrecv] at hrecv'
        injection hrecv' with _ he'
        injection he' with he' _
        subst he'
        rw [ih hrest']

/-- On exact finger tables every lookup and every dead-drop message, from every
node and for every key, is passed on at most `m` times, and then answered,
respectively sent on with `is_dest` set. -/
theorem logarithmic_routing (nodes : Nat → ι → DAENode)
    (howns : ∀ t i, R.Owns i (nodes t i))
    (hexact : ∀ t i, Exact R i (nodes t i)) (q : Request)
    (hk : q.key < 2 ^ R.m) (hq : q.Stops) (i : ι) :
    ∃ ps p, Trace R nodes 1 (q.handledBy (nodes 0 i)) (ps ++ [p]) ∧
      ps.length ≤ R.m ∧ (∀ p' ∈ ps, q.Forwards p') ∧ q.Finishes p ∧
      ∀ ps', Trace R nodes 1 (q.handledBy (nodes 0 i)) ps' →
        ps' = ps ++ [p] := by
  have : Nonempty ι := ⟨i⟩
  obtain ⟨l, hl⟩ := exists_isLast R q.key
  obtain ⟨ps, p, htr, hlen, hps, hend⟩ := trace_halves howns hexact hk hl R.m 1
    i q rfl hq (howns 0 i) (hexact 0 i)
    (cw_lt (R.id_lt_size i) (R.id_lt_size l))
  exact ⟨ps, p, htr, hlen, hps, hend, fun _ h => trace_unique htr h⟩

theorem pairNodes_exact (i : Fin 2) : Exact pairRoster i (pairNodes i) := by
  intro t ht
  have h0 : t = 0 := Nat.lt_one_iff.mp ht
  subst h0
  refine ⟨1 - i, ?_, rfl⟩
  unfold Roster.IsSucc
  revert i
  decide

theorem logarithmic_routing_pair :
    ∃ ps p, Trace pairRoster (fun _ => pairNodes) 1
        ((pairNodes 0).handleFindSuccessor "10.22.1.16" 3011 0 1) (ps ++ [p]) ∧
      ps.length ≤ 1 ∧ IsReply ("10.22.1.16", 3011) 0 p := by
  obtain ⟨ps, p, htr, hlen, _, hend, _⟩ := logarithmic_routing
    (fun _ => pairNodes) (fun _ => pairNodes_owns) (fun _ => pairNodes_exact)
    (.lookup "10.22.1.16" 3011 0 1) (by decide) trivial 0
  exact ⟨ps, p, htr, hlen, hend⟩

end Daenet.Proofs
