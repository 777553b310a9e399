import Daenet.Lib.Runs
import Daenet.Proofs.Pool

/-!
# The traffic report

`send_batch` reports dummies, application packets and, as a difference, internal
packets: `p2p_cnt - dummy_cnt`. The difference supposes that `p2p_cnt` counts the
dummies too, and `DAE_direct_send` leaves them out. So one dummy since the last
report makes the third number wrong, and below zero if fewer internal packets were
sent than dummies.

A `Ledger` counts the same packets without bounds. The counters are the ledger
modulo `2 ^ 64` (`Booked`) after every call.
-/

namespace Daenet.Proofs

open Daenet.Lib Daenet.Ref

/-- What was sent since the last report: the dummies of the pool, the application
packets and the internal ones that the pool released, and the internal packets
that are not dummies, whoever sent them. -/
structure Ledger where
  dummy : Nat := 0
  app : Nat := 0
  stray : Nat := 0
  p2p : Nat := 0
  deriving DecidableEq

namespace Ledger

/-- A packet is passed to `DAE_direct_send`. -/
def direct (l : Ledger) (p : AnonymousPacket) : Ledger :=
  if p.isInternalMsg ∧ p.header.id ≠ .dummyMessage then { l with p2p := l.p2p + 1 } else l

/-- The pool releases a packet. -/
def release (l : Ledger) (p : AnonymousPacket) : Ledger :=
  if p.isInternalMsg then { l with stray := l.stray + 1 } else { l with app := l.app + 1 }

/-- The turn of a slot, with what its queue gave. -/
def slot (sendDummy : Bool) (l : Ledger) : Option AnonymousPacket → Ledger
  | none => if sendDummy then { l with dummy := l.dummy + 1 } else l
  | some p => (l.release p).direct p

/-- The turns of all slots. -/
def slots (sendDummy : Bool) (l : Ledger) (popped : List (Option AnonymousPacket)) : Ledger :=
  popped.foldl (slot sendDummy) l

end Ledger

/-- What the queues give in a batch, slot by slot. -/
def pops (accept : Nat → Bool) (draws : Nat → ShufflePool.Draw) :
    Nat → PackagePool → List (Option AnonymousPacket)
  | _, [] => []
  | cur, queue :: rest =>
      (queue.popWithP accept (draws cur).r (draws cur).idxS).1 ::
        pops accept draws (cur + 1) rest

/-! ## Counters -/

variable {c : Counters} {l : Ledger}

/-- The counters are the ledger's numbers, as far as 64 bits hold them. -/
structure Booked (c : Counters) (l : Ledger) : Prop where
  dummy : c.dummyCnt = .ofNat l.dummy
  app : c.appCnt = .ofNat (l.app + l.stray)
  p2p : c.p2pCnt = .ofNat l.p2p

theorem ofNat_succ (n : Nat) : UInt64.ofNat n + 1 = .ofNat (n + 1) :=
  (UInt64.ofNat_add n 1).symm

theorem booked_init : Booked {} {} := ⟨rfl, rfl, rfl⟩

theorem Booked.direct (h : Booked c l) (p : AnonymousPacket) :
    Booked (c.directSend p) (l.direct p) := by
  rw [Counters.directSend, Ledger.direct]
  split
  · refine ⟨h.dummy, h.app, ?_⟩
    dsimp only
    rw [h.p2p, ofNat_succ]
  · exact h

theorem Booked.release (h : Booked c l) (p : AnonymousPacket) :
    Booked { c with appCnt := c.appCnt + 1 } (l.release p) := by
  rw [Ledger.release]
  split
  · refine ⟨h.dummy, ?_, h.p2p⟩
    dsimp only
    rw [h.app, ofNat_succ, Nat.add_assoc]
  · refine ⟨h.dummy, ?_, h.p2p⟩
    dsimp only
    rw [h.app, ofNat_succ, Nat.add_right_comm]

theorem Booked.dummy_sent (h : Booked c l) (f : ChordFinger) :
    Booked ({ c with dummyCnt := c.dummyCnt + 1 }.directSend (ShufflePool.dummy f))
      { l with dummy := l.dummy + 1 } := by
  rw [Counters.directSend, if_neg fun hne => hne.2 rfl]
  refine ⟨?_, h.app, h.p2p⟩
  dsimp only
  rw [h.dummy, ofNat_succ]

/-- The loop of a batch counts what its slots send. -/
theorem Booked.sendSlots (h : Booked c l) (fingerTable : Int → ChordFinger)
    (accept : Nat → Bool) (draws : Nat → ShufflePool.Draw) (sendDummy : Bool) (cur : Nat)
    (pool : PackagePool) :
    Booked (ShufflePool.sendSlots fingerTable accept draws sendDummy cur pool c).counters
      (l.slots sendDummy (pops accept draws cur pool)) := by
  induction pool generalizing cur c l with
  | nil => exact h
  | cons queue rest ih =>
      rw [ShufflePool.sendSlots, pops, Ledger.slots, List.foldl_cons]
      cases hpop : queue.popWithP accept (draws cur).r (draws cur).idxS with
      | mk popped queue' =>
          cases popped with
          | none =>
              cases sendDummy with
              | true => exact ih (h.dummy_sent _) (cur + 1)
              | false => exact ih h (cur + 1)
          | some p => exact ih ((h.release p).direct p) (cur + 1)

/-- Every number of the line is right, and the difference does not go below zero, if
and only if there was no dummy and the others fit. -/
theorem Booked.line_iff (h : Booked c l) :
    ((ShufflePool.reportLine c).1.toNat = l.dummy ∧
        (ShufflePool.reportLine c).2.1.toNat = l.app ∧
        (ShufflePool.reportLine c).2.2.toNat = l.p2p ∧ c.dummyCnt ≤ c.p2pCnt) ↔
      l.dummy = 0 ∧ l.stray % 2 ^ 64 = 0 ∧ l.app < 2 ^ 64 ∧ l.p2p < 2 ^ 64 := by
  rw [UInt64.le_iff_toNat_le, ShufflePool.reportLine, UInt64.toNat_sub, h.dummy, h.app, h.p2p,
    UInt64.toNat_ofNat', UInt64.toNat_ofNat', UInt64.toNat_ofNat']
  omega

/-! ## Calls -/

/-- What can be asked of a node's traffic: an internal message is sent, the pool is
given a packet, or it sends a batch, each with the finger table of the moment. -/
inductive TrafficCall where
  | direct (packet : AnonymousPacket)
  | send (fingerTable : Int → ChordFinger) (packet : AnonymousPacket)
  | sendBatch (fingerTable : Int → ChordFinger) (accept : Nat → Bool)
      (draws : Nat → ShufflePool.Draw) (due : Bool)

/-- What the constructor of the pool, and of its socket, are given. -/
structure PoolConfig where
  m : Nat
  host : String := ""
  port : Int := 0
  sendDummy : Bool
  debug : Bool

/-- The pool, the counters of its node, and the ledger since the last report. -/
structure Books where
  pool : PackagePool
  counters : Counters := {}
  ledger : Ledger := {}

namespace Books

variable (cfg : PoolConfig)

def new : Books where
  pool := ShufflePool.new cfg.m

/-- The batch that `send_batch` sends. -/
def batch (b : Books) (fingerTable : Int → ChordFinger) (accept : Nat → Bool)
    (draws : Nat → ShufflePool.Draw) (due : Bool) : ShufflePool.Batch :=
  ShufflePool.sendBatch b.pool fingerTable accept draws cfg.sendDummy cfg.debug due b.counters

/-- The ledger at the end of that batch, before the report. -/
def batchLedger (b : Books) (accept : Nat → Bool) (draws : Nat → ShufflePool.Draw) : Ledger :=
  b.ledger.slots cfg.sendDummy (pops accept draws 0 b.pool)

/-- One call. -/
def step (b : Books) : TrafficCall → Books
  | .direct p =>
      { b with counters := b.counters.directSend p, ledger := b.ledger.direct p }
  | .send fingerTable p =>
      match ShufflePool.send b.pool fingerTable cfg.m cfg.host cfg.port p with
      | .queued pool => { b with pool }
      | .direct => { b with counters := b.counters.directSend p, ledger := b.ledger.direct p }
      | .dropped => b
  | .sendBatch fingerTable accept draws due =>
      let batch := b.batch cfg fingerTable accept draws due
      { pool := batch.pool
        counters := batch.counters
        ledger := if batch.report.isSome then {} else b.batchLedger cfg accept draws }

/-- The report of this call, if it makes one, states what was sent since the one
before, and none of its numbers goes below zero. -/
def ReportRight (b : Books) : TrafficCall → Prop
  | .sendBatch fingerTable accept draws due =>
      let l := b.batchLedger cfg accept draws
      let c := (ShufflePool.sendSlots fingerTable accept draws cfg.sendDummy 0 b.pool
        b.counters).counters
      ∀ dummy app p2p,
        (b.batch cfg fingerTable accept draws due).report = some (dummy, app, p2p) →
        dummy.toNat = l.dummy ∧ app.toNat = l.app ∧ p2p.toNat = l.p2p ∧
          c.dummyCnt ≤ c.p2pCnt
  | _ => True

/-- The call makes no report, or there has been no dummy since the last one: none
before this batch, and none in it, since dummies are off or every queue gives a
packet. The pool has released application packets only, and the numbers fit. -/
def Undisturbed (b : Books) : TrafficCall → Prop
  | .sendBatch _ accept draws due =>
      let popped := pops accept draws 0 b.pool
      let l := b.batchLedger cfg accept draws
      cfg.debug = true → due = true →
        (b.ledger.dummy = 0 ∧ (cfg.sendDummy = false ∨ none ∉ popped)) ∧
          l.stray % 2 ^ 64 = 0 ∧ l.app < 2 ^ 64 ∧ l.p2p < 2 ^ 64
  | _ => True

end Books

/-! ## Runs -/

section

variable {cfg : PoolConfig} {b : Books}

/-- The dummies after a batch. -/
theorem slots_dummy_eq_zero (sendDummy : Bool) (l : Ledger)
    (popped : List (Option AnonymousPacket)) :
    (l.slots sendDummy popped).dummy = 0 ↔
      l.dummy = 0 ∧ (sendDummy = false ∨ none ∉ popped) := by
  induction popped generalizing l with
  | nil => simp [Ledger.slots]
  | cons o popped ih =>
      rw [Ledger.slots, List.foldl_cons, ← Ledger.slots, ih]
      cases o with
      | none => cases sendDummy <;> simp [Ledger.slot]
      | some p =>
          have hsame : (l.slot sendDummy (some p)).dummy = l.dummy := by
            simp only [Ledger.slot, Ledger.direct, Ledger.release]
            split <;> split <;> rfl
          rw [hsame]
          simp

theorem sendSlots_report (fingerTable : Int → ChordFinger) (accept : Nat → Bool)
    (draws : Nat → ShufflePool.Draw) (sendDummy : Bool) (cur : Nat) (pool : PackagePool)
    (c : Counters) :
    (ShufflePool.sendSlots fingerTable accept draws sendDummy cur pool c).report = none := by
  induction pool generalizing cur c with
  | nil => rfl
  | cons queue rest ih =>
      rw [ShufflePool.sendSlots]
      split
      · split
        · exact ih _ _
        · exact ih _ _
      · exact ih _ _

/-- A report is made when it is due, and printed. -/
theorem batch_report (fingerTable : Int → ChordFinger) (accept : Nat → Bool)
    (draws : Nat → ShufflePool.Draw) (due : Bool) :
    (b.batch cfg fingerTable accept draws due).report =
      if cfg.debug = true ∧ due = true then
        some (ShufflePool.reportLine (ShufflePool.sendSlots fingerTable accept draws
          cfg.sendDummy 0 b.pool b.counters).counters)
      else none := by
  rw [Books.batch, ShufflePool.sendBatch]
  cases due with
  | true => simp
  | false => simp [sendSlots_report]

/-- As long as reports are printed, the counters are those of the ledger. -/
def Kept (cfg : PoolConfig) (b : Books) : Prop := cfg.debug = true → Booked b.counters b.ledger

theorem Kept.step (h : Kept cfg b) (call : TrafficCall) : Kept cfg (b.step cfg call) := by
  intro hdebug
  have hb := h hdebug
  cases call with
  | direct p => exact hb.direct p
  | send fingerTable p =>
      rw [Books.step]
      split
      · exact hb
      · exact hb.direct p
      · exact hb
  | sendBatch fingerTable accept draws due =>
      simp only [Books.step, batch_report, hdebug, true_and]
      cases due with
      | true => exact booked_init
      | false => exact hb.sendSlots fingerTable accept draws cfg.sendDummy 0 b.pool

theorem reportRight_iff (h : Kept cfg b) (call : TrafficCall) :
    b.ReportRight cfg call ↔ b.Undisturbed cfg call := by
  cases call with
  | direct p => exact Iff.rfl
  | send fingerTable p => exact Iff.rfl
  | sendBatch fingerTable accept draws due =>
      simp only [Books.ReportRight, Books.Undisturbed, batch_report]
      by_cases hmade : cfg.debug = true ∧ due = true
      · have hline := ((h hmade.1).sendSlots fingerTable accept draws cfg.sendDummy 0
          b.pool).line_iff
        rw [slots_dummy_eq_zero] at hline
        simp only [hmade.1, hmade.2, forall_const]
        rw [Books.batchLedger, ← hline]
        constructor
        · exact fun hall => hall _ _ _ rfl
        · rintro hall dummy app p2p ⟨⟩
          exact hall
      · simp only [if_neg hmade]
        exact iff_of_true nofun fun hdebug hdue => absurd ⟨hdebug, hdue⟩ hmade

/-- The pool holds application packets, and has released no others. -/
def OnlyApps (b : Books) : Prop :=
  (∀ p ∈ held b.pool, p.isInternalMsg = false) ∧ b.ledger.stray = 0

/-- What a queue gives was held. -/
theorem mem_held_of_pops {accept : Nat → Bool} {draws : Nat → ShufflePool.Draw} {cur : Nat}
    {pool : PackagePool} {p : AnonymousPacket} (h : some p ∈ pops accept draws cur pool) :
    p ∈ held pool := by
  induction pool generalizing cur with
  | nil => cases h
  | cons queue rest ih =>
      refine List.mem_append.mpr ?_
      rcases List.mem_cons.mp h with heq | h
      · have hpop : queue.popWithP accept (draws cur).r (draws cur).idxS =
            (some p, (queue.popWithP accept (draws cur).r (draws cur).idxS).2) :=
          Prod.ext heq.symm rfl
        exact .inl ((popWithP_some hpop).subset (List.mem_cons_self ..))
      · exact .inr (ih h)

theorem direct_stray (l : Ledger) (p : AnonymousPacket) : (l.direct p).stray = l.stray := by
  rw [Ledger.direct]
  split <;> rfl

theorem slots_stray (sendDummy : Bool) {popped : List (Option AnonymousPacket)}
    (h : ∀ p, some p ∈ popped → p.isInternalMsg = false) (l : Ledger) :
    (l.slots sendDummy popped).stray = l.stray := by
  induction popped generalizing l with
  | nil => rfl
  | cons o popped ih =>
      rw [Ledger.slots, List.foldl_cons, ← Ledger.slots,
        ih (fun p hp => h p (List.mem_cons_of_mem o hp))]
      cases o with
      | none => cases sendDummy <;> rfl
      | some p =>
          have hp := h p (List.mem_cons_self ..)
          rw [Ledger.slot, direct_stray, Ledger.release, hp]
          rfl

theorem OnlyApps.step (h : OnlyApps b) (call : TrafficCall)
    (hcall : ∀ fingerTable p, call = .send fingerTable p → p.isInternalMsg = false) :
    OnlyApps (b.step cfg call) := by
  cases call with
  | direct p => exact ⟨h.1, (direct_stray b.ledger p).trans h.2⟩
  | send fingerTable p =>
      have hp := hcall fingerTable p rfl
      rw [Books.step, ShufflePool.send]
      split
      · next pool hsent =>
          refine ⟨fun q hq => ?_, h.2⟩
          split at hsent
          · injection hsent with hpool
            subst hpool
            rcases mem_held_push hq with rfl | hold
            · exact hp
            · exact h.1 q hold
          · split at hsent <;> cases hsent
      · exact ⟨h.1, (direct_stray b.ledger p).trans h.2⟩
      · exact h
  | sendBatch fingerTable accept draws due =>
      obtain ⟨_, ds, released, _, _, hheld⟩ := sendBatch_split b.pool fingerTable accept draws
        cfg.sendDummy cfg.debug due b.counters
      refine ⟨fun q hq => h.1 q (hheld.symm.subset (List.mem_append_right released hq)), ?_⟩
      have hstray : (b.batchLedger cfg accept draws).stray = 0 :=
        (slots_stray _ (fun p hp => h.1 p (mem_held_of_pops hp)) _).trans h.2
      simp only [Books.step]
      split
      · rfl
      · exact hstray

/-- As long as `send` is given application packets only, which is how the relay uses
it, the pool never releases any other. -/
theorem pool_releases_applications (cfg : PoolConfig) {calls : List TrafficCall}
    (hcalls : ∀ fingerTable p, .send fingerTable p ∈ calls → p.isInternalMsg = false) :
    OnlyApps (calls.foldl (Books.step cfg) (.new cfg)) := by
  have hnew : OnlyApps (.new cfg) := by
    refine ⟨fun p hp => ?_, rfl⟩
    rw [Books.new, held_new] at hp
    cases hp
  refine List.foldlRecOn _ _ hnew fun b hb call hmem => hb.step call ?_
  rintro fingerTable p rfl
  exact hcalls fingerTable p hmem

end

/-- Whatever is sent, given to the pool and drawn, with dummies or without: every
report states what was sent since the one before, if and only if every report is
made with no dummy sent since the one before. -/
theorem reports_right_iff (cfg : PoolConfig) (calls : List TrafficCall) :
    Always (Books.step cfg) (Books.ReportRight cfg) (.new cfg) calls ↔
      Always (Books.step cfg) (Books.Undisturbed cfg) (.new cfg) calls := by
  refine always_iff_of_inv (I := Kept cfg) (W := fun _ _ => True) ?_ ?_ ?_
    (always_of_forall (fun _ _ => trivial) _ _)
  · exact fun b call hb _ _ => hb.step call
  · exact fun b call hb _ => reportRight_iff hb call
  · exact fun _ => booked_init

/-- One queue, and nothing in it: a dummy goes out, and the report is
`1 0 18446744073709551615`. -/
theorem report_underflows :
    let cfg : PoolConfig := { m := 1, sendDummy := true, debug := true }
    let call : TrafficCall :=
      .sendBatch (fun _ => ⟨0, 0, "10.0.0.1", 9000⟩) (fun _ => true) (fun _ => ⟨0, 0⟩) true
    ¬ Always (Books.step cfg) (Books.ReportRight cfg) (.new cfg) [call] := by
  rintro cfg call ⟨h, _⟩
  exact absurd (h 1 0 (0 - 1) rfl).2.2.1 (by decide)

end Daenet.Proofs
