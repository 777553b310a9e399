import Daenet.Spec.Ring
import Mathlib.Data.List.Perm.Basic

/-!
# The pool keeps packets, and its traffic does not show them

Two things about the shuffle pool. It is a container: what a batch emits, the
dummies apart, is what its queues held, and nothing is lost or made twice —
`sendSlots_split`, which the end-to-end argument uses. And its traffic has a
fixed shape: with dummies on, a batch is one datagram per slot, the `i`-th one
to the address of finger `i`.

The second is not immediate, since a real packet leaves for the address in its
own header. It rests on `Filed`: a queue only ever holds packets for the
address of its slot. A packet is filed under the *first* finger with its
address, while fingers usually share addresses, so a slot may stay empty for
ever; but no packet is filed under an address that is not its own.
-/

namespace Daenet.Proofs

open Daenet.Ref Daenet.Spec

/-! ## The random queue -/

section Queue

variable {T : Type}

/-- Taking an element out and filling the hole with the last one. -/
theorem perm_fill_hole {l : List T} {idx : Nat} {last : T} (hlt : idx < l.length)
    (hlast : l.getLast? = some last) :
    (l[idx] :: (l.set idx last).dropLast).Perm l := by
  have hsplit : l.dropLast ++ [last] = l := List.dropLast_append_getLast? last hlast
  by_cases hin : idx < l.dropLast.length
  · have hset : (l.set idx last).dropLast = l.dropLast.set idx last := by
      nth_rewrite 1 [← hsplit]
      rw [List.set_append_left _ _ hin, List.dropLast_concat]
    rw [hset, ← List.getElem_dropLast hin]
    calc l.dropLast[idx] :: l.dropLast.set idx last
        _ |>.Perm (l.dropLast[idx] :: last :: l.dropLast.eraseIdx idx) :=
            (List.set_perm_cons_eraseIdx hin last).cons _
        _ |>.Perm (last :: l.dropLast[idx] :: l.dropLast.eraseIdx idx) :=
            List.Perm.swap _ _ _
        _ |>.Perm (last :: l.dropLast) :=
            (List.getElem_cons_eraseIdx_perm hin).cons last
        _ |>.Perm (l.dropLast ++ [last]) :=
            (List.perm_append_singleton last _).symm
        _ = l := hsplit
  · -- The hole is the last cell itself.
    rw [List.length_dropLast] at hin
    have hidx : idx = l.length - 1 := by omega
    subst hidx
    have hl : l[l.length - 1] = last := by
      rw [List.getLast?_eq_getElem?, List.getElem?_eq_getElem hlt] at hlast
      exact Option.some.inj hlast
    have hset : l.set (l.length - 1) last = l := by
      rw [← hl]
      exact List.set_getElem_self hlt
    rw [hset, hl]
    exact (List.perm_append_singleton last _).symm.trans (by rw [hsplit])

variable {q q' : ConcurrentRandomQueue T} {t : T}

theorem takeSlot_some {idx : Nat} (h : q.takeSlot idx = (some t, q')) :
    (t :: q'.arr).Perm q.arr := by
  unfold ConcurrentRandomQueue.takeSlot at h
  split at h
  · next u last hget hlast =>
      obtain ⟨hu, rfl⟩ := Prod.mk.inj h
      injection hu with hu
      subst hu
      obtain ⟨hlt, rfl⟩ := List.getElem?_eq_some_iff.mp hget
      exact perm_fill_hole hlt hlast
  · cases h

theorem takeSlot_none {idx : Nat} (h : q.takeSlot idx = (none, q')) : q' = q := by
  unfold ConcurrentRandomQueue.takeSlot at h
  split at h
  · cases h
  · exact (Prod.mk.inj h).2.symm

theorem popWithP_some {accept : Nat → Bool} {r idxS : Nat}
    (h : q.popWithP accept r idxS = (some t, q')) : (t :: q'.arr).Perm q.arr := by
  unfold ConcurrentRandomQueue.popWithP ConcurrentRandomQueue.popRandom at h
  rw [if_pos rfl] at h
  split_ifs at h
  · cases h
  · exact takeSlot_some h
  · cases h

theorem popWithP_none {accept : Nat → Bool} {r idxS : Nat}
    (h : q.popWithP accept r idxS = (none, q')) : q' = q := by
  unfold ConcurrentRandomQueue.popWithP ConcurrentRandomQueue.popRandom at h
  rw [if_pos rfl] at h
  split_ifs at h
  · exact (Prod.mk.inj h).2.symm
  · exact takeSlot_none h
  · exact (Prod.mk.inj h).2.symm

end Queue

/-! ## Filing -/

section Slots

variable {ft : Int → ChordFinger} {dest : String × Int}

theorem slotFor_some {i k j : Nat}
    (h : ShufflePool.slotFor ft dest i k = some j) :
    i ≤ j ∧ j < i + k ∧ dest = (ft j).addr := by
  induction k generalizing i with
  | zero => cases h
  | succ k ih =>
      rw [ShufflePool.slotFor] at h
      split at h
      · next heq =>
          injection h with h
          subst h
          exact ⟨Nat.le_refl _, by omega, heq⟩
      · obtain ⟨hle, hlt, heq⟩ := ih h
        exact ⟨by omega, by omega, heq⟩

/-- A slot is found for the address of any finger. -/
theorem slotFor_ne_none {i k j : Nat} (hle : i ≤ j) (hlt : j < i + k)
    (hdest : dest = (ft j).addr) : ShufflePool.slotFor ft dest i k ≠ none := by
  induction k generalizing i with
  | zero => omega
  | succ k ih =>
      rw [ShufflePool.slotFor]
      split
      · simp
      · next hne =>
          have hij : i ≠ j := by
            intro he
            rw [he] at hne
            exact hne hdest
          exact ih (by omega) (by omega)

end Slots

/-! ## Holding -/

/-- The packets a pool holds. -/
def held (pool : PackagePool) : List AnonymousPacket :=
  pool.flatMap ConcurrentRandomQueue.arr

theorem held_new (m : Nat) : held (ShufflePool.new m) = [] := by
  simp [held, ShufflePool.new]

section Held

variable {pool : PackagePool} {p : AnonymousPacket}

/-- Filing adds the packet to what is held. -/
theorem held_push {j : Nat} (hj : j < pool.length) :
    (held (pool.modify j fun q => q.push p)).Perm (p :: held pool) := by
  induction pool generalizing j with
  | nil => cases hj
  | cons q pool ih =>
      cases j with
      | zero =>
          show ((q.arr ++ [p]) ++ held pool).Perm (p :: (q.arr ++ held pool))
          rw [List.append_assoc]
          exact List.perm_middle
      | succ j =>
          have hrest := ih (Nat.lt_of_succ_lt_succ hj)
          show (q.arr ++ held (pool.modify j _)).Perm (p :: (q.arr ++ held pool))
          exact (hrest.append_left q.arr).trans List.perm_middle

theorem mem_held_push {j : Nat} {q : AnonymousPacket}
    (h : q ∈ held (pool.modify j fun a => a.push p)) : q = p ∨ q ∈ held pool := by
  by_cases hj : j < pool.length
  · exact List.mem_cons.mp ((held_push hj).subset h)
  · rw [List.modify_eq_self (Nat.le_of_not_lt hj)] at h
    exact .inr h

/-- A batch gives out dummies and packets that were held; the others are still
held. -/
theorem sendSlots_split (pool : PackagePool) (ft : Int → ChordFinger)
    (accept : Nat → Bool) (draws : Nat → ShufflePool.Draw) (sendDummy : Bool)
    (cur : Nat) (c : Counters) :
    let b := ShufflePool.sendSlots ft accept draws sendDummy cur pool c
    b.pool.length = pool.length ∧ ∃ ds released : List AnonymousPacket,
      (∀ d ∈ ds, sendDummy = true ∧ ∃ f, d = ShufflePool.dummy f) ∧
        b.out.Perm (ds ++ released) ∧
        (held pool).Perm (released ++ held b.pool) := by
  induction pool generalizing cur c with
  | nil =>
      exact ⟨rfl, [], [], fun d hd => (by cases hd), List.Perm.refl _,
        List.Perm.refl _⟩
  | cons queue rest ih =>
      -- A queue that is not popped stays in front of the rest.
      have hstay : ∀ {released : List AnonymousPacket} {rest' : PackagePool},
          (held rest).Perm (released ++ held rest') →
          (held (queue :: rest)).Perm (released ++ held (queue :: rest')) :=
        fun h => (h.append_left queue.arr).trans
          (List.perm_append_comm_assoc ..)
      rw [ShufflePool.sendSlots]
      cases hpop : queue.popWithP accept (draws cur).r (draws cur).idxS with
      | mk popped queue' =>
          cases popped with
          | none =>
              rw [popWithP_none hpop]
              cases sendDummy with
              | true =>
                  obtain ⟨hlen, ds, released, hds, hout, hheld⟩ := ih (cur + 1)
                    ({ c with dummyCnt := c.dummyCnt + 1 }.directSend
                      (ShufflePool.dummy (ft cur)))
                  refine ⟨congrArg (· + 1) hlen, ShufflePool.dummy (ft cur) :: ds,
                    released, ?_, hout.cons _, hstay hheld⟩
                  intro d hd
                  rcases List.mem_cons.mp hd with rfl | hd
                  · exact ⟨rfl, _, rfl⟩
                  · exact hds d hd
              | false =>
                  obtain ⟨hlen, ds, released, hds, hout, hheld⟩ := ih (cur + 1) c
                  exact ⟨congrArg (· + 1) hlen, ds, released, hds, hout,
                    hstay hheld⟩
          | some pkg =>
              obtain ⟨hlen, ds, released, hds, hout, hheld⟩ := ih (cur + 1)
                ({ c with appCnt := c.appCnt + 1 }.directSend pkg)
              refine ⟨congrArg (· + 1) hlen, ds, pkg :: released, hds,
                (hout.cons pkg).trans List.perm_middle.symm, ?_⟩
              calc queue.arr ++ held rest
                  _ |>.Perm ((pkg :: queue'.arr) ++ held rest) :=
                      (popWithP_some hpop).symm.append_right _
                  _ |>.Perm (pkg :: (queue'.arr ++ (released ++ held _))) :=
                      (hheld.append_left queue'.arr).cons pkg
                  _ |>.Perm (pkg :: (released ++ (queue'.arr ++ held _))) :=
                      (List.perm_append_comm_assoc ..).cons pkg

theorem sendBatch_split (pool : PackagePool) (ft : Int → ChordFinger)
    (accept : Nat → Bool) (draws : Nat → ShufflePool.Draw)
    (sendDummy debug due : Bool) (c : Counters) :
    let b := ShufflePool.sendBatch pool ft accept draws sendDummy debug due c
    b.pool.length = pool.length ∧ ∃ ds released : List AnonymousPacket,
      (∀ d ∈ ds, sendDummy = true ∧ ∃ f, d = ShufflePool.dummy f) ∧
        b.out.Perm (ds ++ released) ∧
        (held pool).Perm (released ++ held b.pool) := by
  unfold ShufflePool.sendBatch
  split <;> exact sendSlots_split pool ft accept draws sendDummy 0 c

end Held

/-- Every queue holds packets for the address of its own slot only. -/
def Filed (a : Nat → String × Int) (pool : PackagePool) : Prop :=
  ∀ i q, pool[i]? = some q → ∀ p ∈ q.arr, p.dest = a i

/-- The fingers of a table have the addresses `a`. -/
def HasAddrs (m : Nat) (a : Nat → String × Int) (ft : Int → ChordFinger) : Prop :=
  ∀ i < m, (ft i).addr = a i

section Traffic

variable {m : Nat} {a : Nat → String × Int} {pool : PackagePool}

theorem filed_new : Filed a (ShufflePool.new m) := by
  intro i q hq p hp
  rw [List.eq_of_mem_replicate (List.mem_of_getElem? hq)] at hp
  cases hp

/-- The addresses and the queues, one slot further on. -/
theorem filed_cons {q : ConcurrentRandomQueue AnonymousPacket} :
    Filed a (q :: pool) ↔
      (∀ p ∈ q.arr, p.dest = a 0) ∧ Filed (fun i => a (i + 1)) pool := by
  constructor
  · intro h
    exact ⟨h 0 q rfl, fun i q' hq' => h (i + 1) q' hq'⟩
  · rintro ⟨hhead, htail⟩ i q' hq'
    cases i with
    | zero =>
        injection hq' with hq'
        subst hq'
        exact hhead
    | succ i => exact htail i q' hq'

/-- `send` files a packet under its own address. -/
theorem filed_send {ft : Int → ChordFinger} (hft : HasAddrs m a ft)
    {host : String} {port : Int} {p : AnonymousPacket} {pool' : PackagePool}
    (hfiled : Filed a pool)
    (h : ShufflePool.send pool ft m host port p = .queued pool') :
    Filed a pool' ∧ pool'.length = pool.length := by
  unfold ShufflePool.send at h
  split at h
  · next j hslot =>
      obtain ⟨_, hj, hdest⟩ := slotFor_some hslot
      injection h with h
      subst h
      refine ⟨?_, List.length_modify _ _ _⟩
      intro i q hq p' hp'
      rw [List.getElem?_modify] at hq
      split at hq
      · next hij =>
          subst hij
          obtain ⟨q₀, hq₀, rfl⟩ := Option.map_eq_some_iff.mp hq
          rcases List.mem_append.mp hp' with hold | hnew
          · exact hfiled j q₀ hq₀ p' hold
          · rw [List.mem_singleton.mp hnew, hdest]
            exact hft j (by omega)
      · obtain ⟨q₀, hq₀, rfl⟩ := Option.map_eq_some_iff.mp hq
        exact hfiled i q₀ hq₀ p' hp'
  · split at h <;> cases h

/-- The loop of a batch: every slot emits one datagram to its own address,
and the queues stay filed. -/
theorem sendSlots_traffic {ft : Int → ChordFinger} (accept : Nat → Bool)
    (draws : Nat → ShufflePool.Draw) (cur : Nat) (c : Counters)
    (hft : ∀ i < pool.length, (ft ↑(cur + i)).addr = a (cur + i))
    (hfiled : Filed (fun i => a (cur + i)) pool) :
    let b := ShufflePool.sendSlots ft accept draws true cur pool c
    b.out.map AnonymousPacket.dest = (List.range' cur pool.length).map a ∧
      Filed (fun i => a (cur + i)) b.pool ∧ b.pool.length = pool.length := by
  induction pool generalizing cur c with
  | nil => exact ⟨rfl, hfiled, rfl⟩
  | cons queue rest ih =>
      obtain ⟨hhead, htail⟩ := filed_cons.mp hfiled
      have hshift : (fun i => a (cur + (i + 1))) = fun i => a (cur + 1 + i) := by
        funext i
        rw [show cur + (i + 1) = cur + 1 + i by omega]
      rw [hshift] at htail
      have hrest : ∀ i < rest.length,
          (ft ↑(cur + 1 + i)).addr = a (cur + 1 + i) := by
        intro i hi
        rw [show cur + 1 + i = cur + (i + 1) by omega]
        exact hft (i + 1) (by simpa using hi)
      have hout := fun c => (ih (cur + 1) c hrest htail).1
      have hf := fun c => (ih (cur + 1) c hrest htail).2.1
      have hlen := fun c => (ih (cur + 1) c hrest htail).2.2
      rw [ShufflePool.sendSlots]
      cases hpop : queue.popWithP accept (draws cur).r (draws cur).idxS with
      | mk popped queue' =>
          cases popped with
          | none =>
              have hdummy : (ShufflePool.dummy (ft cur)).dest = a cur := hft 0 (by simp)
              refine ⟨?_, ?_, ?_⟩
              · simp only [if_true, List.map_cons, hout, hdummy, List.length_cons,
                  List.range'_succ]
              · rw [popWithP_none hpop]
                exact filed_cons.mpr ⟨hhead, hshift ▸ hf _⟩
              · simp only [if_true, List.length_cons, hlen]
          | some p =>
              have hperm := popWithP_some hpop
              have hp : p.dest = a cur := hhead p (hperm.subset (by simp))
              refine ⟨?_, ?_, ?_⟩
              · simp only [List.map_cons, hout, hp, List.length_cons,
                  List.range'_succ]
              · refine filed_cons.mpr ⟨?_, hshift ▸ hf _⟩
                intro p' hp'
                exact hhead p' (hperm.subset (by simp [hp']))
              · simp only [List.length_cons, hlen]

/-- What is done to a pool, with the finger table of that moment. -/
inductive PoolCall where
  | send (fingerTable : Int → ChordFinger) (packet : AnonymousPacket)
  | sendBatch (fingerTable : Int → ChordFinger) (accept : Nat → Bool)
      (draws : Nat → ShufflePool.Draw) (debug due : Bool)

namespace PoolCall

def fingerTable : PoolCall → Int → ChordFinger
  | send ft _ => ft
  | sendBatch ft _ _ _ _ => ft

def isBatch : PoolCall → Bool
  | send _ _ => false
  | sendBatch _ _ _ _ _ => true

end PoolCall

/-- The datagrams of each `send_batch` in a run of calls, dummies on. -/
def batches (m : Nat) (host : String) (port : Int) :
    PackagePool → Counters → List PoolCall → List (List AnonymousPacket)
  | _, _, [] => []
  | pool, c, .send ft p :: calls =>
      match ShufflePool.send pool ft m host port p with
      | .queued pool' => batches m host port pool' c calls
      | .direct => batches m host port pool (c.directSend p) calls
      | .dropped => batches m host port pool c calls
  | pool, c, .sendBatch ft accept draws debug due :: calls =>
      let b := ShufflePool.sendBatch pool ft accept draws true debug due c
      b.out :: batches m host port b.pool b.counters calls

theorem sendBatch_traffic {ft : Int → ChordFinger} (hft : HasAddrs m a ft)
    (hfiled : Filed a pool) (hlen : pool.length = m) (accept : Nat → Bool)
    (draws : Nat → ShufflePool.Draw) (debug due : Bool) (c : Counters) :
    let b := ShufflePool.sendBatch pool ft accept draws true debug due c
    b.out.map AnonymousPacket.dest = (List.range m).map a ∧
      Filed a b.pool ∧ b.pool.length = m := by
  subst hlen
  have hslots := sendSlots_traffic (a := a) accept draws 0 c
    (fun i hi => by rw [Nat.zero_add]; exact hft i hi)
    (by simpa only [Nat.zero_add] using hfiled)
  simp only [Nat.zero_add, ← List.range_eq_range'] at hslots
  unfold ShufflePool.sendBatch
  split <;> exact hslots

/-- A run emits one list of destinations over and over. -/
theorem batches_traffic (host : String) (port : Int) (calls : List PoolCall)
    (hft : ∀ call ∈ calls, HasAddrs m a call.fingerTable)
    (hfiled : Filed a pool) (hlen : pool.length = m) (c : Counters) :
    (batches m host port pool c calls).map (List.map AnonymousPacket.dest) =
      List.replicate (calls.countP PoolCall.isBatch) ((List.range m).map a) := by
  induction calls generalizing pool c with
  | nil => rfl
  | cons call calls ih =>
      have hhead := hft call (by simp)
      have htail : ∀ call ∈ calls, HasAddrs m a call.fingerTable :=
        fun x hx => hft x (by simp [hx])
      cases call with
      | send ft p =>
          rw [List.countP_cons_of_neg (by simp [PoolCall.isBatch]), batches]
          split
          · next pool' hsend =>
              obtain ⟨hfiled', hlen'⟩ := filed_send hhead hfiled hsend
              exact ih htail hfiled' (hlen'.trans hlen) c
          · exact ih htail hfiled hlen _
          · exact ih htail hfiled hlen c
      | sendBatch ft accept draws debug due =>
          obtain ⟨hout, hfiled', hlen'⟩ := sendBatch_traffic
            (show HasAddrs m a ft from hhead) hfiled hlen accept draws debug due c
          rw [List.countP_cons_of_pos rfl, List.replicate_succ, batches,
            List.map_cons, hout, ih htail hfiled' hlen']

/-- Traffic does not depend on the packets. Over a table with fixed addresses
every batch is `m` datagrams, the `i`-th one to the address of finger `i`,
whatever was sent and drawn; two runs with equally many batches cannot be told
apart by the destinations. -/
theorem traffic_shape {host : String} {port : Int} (c : Counters)
    (calls : List PoolCall)
    (hft : ∀ call ∈ calls, HasAddrs m a call.fingerTable) :
    (∀ out ∈ batches m host port (ShufflePool.new m) c calls,
      out.length = m ∧ ∀ i < m, out[i]?.map AnonymousPacket.dest = some (a i)) ∧
    ∀ (c' : Counters) (calls' : List PoolCall),
      (∀ call ∈ calls', HasAddrs m a call.fingerTable) →
      calls'.countP PoolCall.isBatch = calls.countP PoolCall.isBatch →
      (batches m host port (ShufflePool.new m) c' calls').map
          (List.map AnonymousPacket.dest) =
        (batches m host port (ShufflePool.new m) c calls).map
          (List.map AnonymousPacket.dest) := by
  have hnew : (ShufflePool.new m).length = m := List.length_replicate
  have hrun := batches_traffic host port calls hft filed_new hnew c
  refine ⟨?_, ?_⟩
  · intro out hout
    have hdest : out.map AnonymousPacket.dest = (List.range m).map a := by
      have hmem := List.mem_map_of_mem (f := List.map AnonymousPacket.dest) hout
      rw [hrun] at hmem
      exact List.eq_of_mem_replicate hmem
    refine ⟨by simpa using congrArg List.length hdest, ?_⟩
    intro i hi
    rw [← List.getElem?_map, hdest, List.getElem?_map, List.getElem?_range hi]
    rfl
  · intro c' calls' hft' hcount
    rw [hrun, batches_traffic host port calls' hft' filed_new hnew c', hcount]

/-- A message for node 1 in the hands of node 0. -/
def pairMail : AnonymousPacket :=
  .external .externalDeaddropMessaging "10.22.1.16" 0 "10.22.1.16" 1 3011
    "10.22.1.16" 0 3011 "10.22.1.16" 1 3011 0 false [7] 1 true 1

theorem traffic_shape_pair :
    (batches 1 "10.22.1.16" 3010 (ShufflePool.new 1) {}
      [.send (pairNodes 0).fingerTable pairMail,
        .sendBatch (pairNodes 0).fingerTable (fun _ => false) (fun _ => ⟨0, 0⟩)
          false false]).map (List.map AnonymousPacket.dest) =
      (batches 1 "10.22.1.16" 3010 (ShufflePool.new 1) {}
        [.sendBatch (pairNodes 0).fingerTable (fun _ => true) (fun _ => ⟨5, 6⟩)
          false false]).map (List.map AnonymousPacket.dest) := by
  have htable : HasAddrs 1 (fun _ => pairRoster.addr 1) (pairNodes 0).fingerTable := by
    intro i hi
    rw [Nat.lt_one_iff.mp hi]
    rfl
  refine (traffic_shape (a := fun _ => pairRoster.addr 1) {} _ ?_).2 {} _ ?_ rfl
  · intro call hcall
    rw [List.mem_singleton.mp hcall]
    exact htable
  · intro call hcall
    rcases List.mem_cons.mp hcall with rfl | hcall
    · exact htable
    · rw [List.mem_singleton.mp hcall]
      exact htable

end Traffic

end Daenet.Proofs
