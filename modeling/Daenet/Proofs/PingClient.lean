import Mathlib.Algebra.Group.Nat.Defs
import Daenet.Lib.Runs
import Daenet.Ref.PingPongServer

/-!
# The average of a batch

A batch ends when `i` has reached `n`, but the average divides by `ii`. A stale
reply raises `i` alone, and so does one that is not stale and carries a number that
was never sent. A stale reply does not end the batch itself: the client receives
again, and the next timeout ends it.

All of this is decided by what `recv` returns. The messages sent are numbered from
one on, with the next number after every timeout and every reply that is not
stale, so that the numbers on record at any time are those up to the last one. With
message `c` out, a reply is late if its number is below `c - 1`, and was never
asked for if it is above `c` or zero: `Astray`. The client divides by zero exactly
if all that comes in some batch is astray.
-/

namespace Daenet.Proofs

open Daenet.Lib Daenet.Ref

variable {n : Int} {c : Nat} {p : PingClient} {r : RecvCall}

/-! ## One call of `recv` -/

/-- The reply is not stale, and the time it was asked for is on record. -/
def Counts (p : PingClient) (r : RecvCall) : Prop :=
  0 < r.len ∧ p.idx - 1 ≤ r.idx.toUInt64 ∧ (p.timestamp r.idx.toInt32).isSome = true

instance : Decidable (Counts p r) := inferInstanceAs (Decidable (_ ∧ _))

/-- The call takes `ping` to the average. -/
def Averages (n : Int) (p : PingClient) (r : RecvCall) : Prop :=
  (p.receive r).2 = true ∧ n ≤ (p.receive r).1.i ∧ (p.receive r).1.running = true

instance : Decidable (Averages n p r) := inferInstanceAs (Decidable (_ ∧ _))

/-- All that a turn of the loop that receives can come to. -/
inductive RecvTurn (p : PingClient) (r : RecvCall) : PingClient × Bool → Prop
  | timeout : r.len = 0 → RecvTurn p r ({ p with idx := p.idx + 1 }, true)
  | error : r.len < 0 → RecvTurn p r ({ p with running := false }, true)
  | stale : 0 < r.len → ¬ p.idx - 1 ≤ r.idx.toUInt64 →
      RecvTurn p r ({ p with i := p.i + 1 }, false)
  | measured (t : Int) : 0 < r.len → p.idx - 1 ≤ r.idx.toUInt64 →
      p.timestamp r.idx.toInt32 = some t →
      RecvTurn p r ({ p with idx := p.idx + 1, i := p.i + 1, ii := p.ii + 1
                             totalTimeMs := p.totalTimeMs +
                               PingClient.milliseconds (r.now - t) }, true)
  | unmeasured : 0 < r.len → p.idx - 1 ≤ r.idx.toUInt64 →
      p.timestamp r.idx.toInt32 = none →
      RecvTurn p r ({ p with idx := p.idx + 1, i := p.i + 1 }, true)

theorem receive_turn (p : PingClient) (r : RecvCall) : RecvTurn p r (p.receive r) := by
  rw [PingClient.receive]
  split
  · next hzero => exact .timeout hzero
  · split
    · next hneg => exact .error hneg
    · have hpos : 0 < r.len := by omega
      split
      · next hidx =>
          dsimp only
          split
          · next t ht => exact .measured t hpos hidx ht
          · next ht => exact .unmeasured hpos hidx ht
      · next hidx => exact .stale hpos hidx

/-- `ii` counts what `Counts` says. -/
theorem receive_ii (p : PingClient) (r : RecvCall) :
    (p.receive r).1.ii = p.ii + if Counts p r then 1 else 0 := by
  have hturn := receive_turn p r
  generalize p.receive r = out at hturn ⊢
  cases hturn with
  | timeout hzero =>
      rw [if_neg fun hc => absurd hc.1 (by omega)]
      rfl
  | error hneg =>
      rw [if_neg fun hc => absurd hc.1 (by omega)]
      rfl
  | stale _ hidx =>
      rw [if_neg fun hc => hidx hc.2.1]
      rfl
  | measured t hpos hidx ht => rw [if_pos ⟨hpos, hidx, by rw [ht]; rfl⟩]
  | unmeasured _ _ ht =>
      have hnot : ¬ Counts p r := by simp [Counts, ht]
      rw [if_neg hnot]
      rfl

/-! ## Runs -/

/-- `ping`, with what it has received since the last average. -/
structure Batched where
  state : Pinging
  batch : List (PingClient × RecvCall) := []

/-- One call of `recv`, added to the batch or, after an average, to none. -/
def Batched.step (n : Int) (b : Batched) (r : RecvCall) : Batched where
  state := (b.state.step n r).1
  batch :=
    match b.state with
    | .receiving p => if Averages n p r then [] else b.batch ++ [(p, r)]
    | _ => b.batch

/-- If `ping` comes to the average, some reply of the batch has been counted, so
that `ii` is not zero. -/
def AverageCounts (n : Int) (b : Batched) (r : RecvCall) : Prop :=
  match b.state with
  | .receiving p => Averages n p r →
      (∃ x ∈ b.batch ++ [(p, r)], Counts x.1 x.2) ∧ (p.receive r).1.ii ≠ 0
  | _ => True

/-- The same about `ii` alone. -/
def Divides (n : Int) (state : Pinging) (r : RecvCall) : Prop :=
  match state with
  | .receiving p => Averages n p r → (p.receive r).1.ii ≠ 0
  | _ => True

/-- `ii` is zero exactly until a reply of the batch is counted. -/
def Tallied (b : Batched) : Prop :=
  match b.state with
  | .receiving p => p.ii ≠ 0 ↔ ∃ x ∈ b.batch, Counts x.1 x.2
  | _ => True

theorem tallied_receive {b : Batched} (h : Tallied b) (hp : b.state = .receiving p)
    (r : RecvCall) :
    (p.receive r).1.ii ≠ 0 ↔ ∃ x ∈ b.batch ++ [(p, r)], Counts x.1 x.2 := by
  simp only [Tallied, hp] at h
  simp only [List.mem_append, List.mem_singleton, or_and_right, exists_or, exists_eq_left]
  rw [← h, receive_ii]
  split
  · next hc => exact iff_of_true (by omega) (.inr hc)
  · next hc => simp only [Nat.add_zero, hc, or_false]

/-- Where a call leads that comes to the average. -/
theorem step_of_averages (h : Averages n p r) :
    ((Pinging.receiving p).step n r).1 = .fault ∨
      ∃ p', ((Pinging.receiving p).step n r).1 = .receiving p' ∧ p'.ii = 0 := by
  obtain ⟨hleft, hi, hrun⟩ := h
  have hpair : p.receive r = ((p.receive r).1, true) := Prod.ext rfl hleft
  rw [Pinging.step, hpair]
  simp only [if_neg (Int.not_lt.mpr hi), hrun, Bool.true_eq_false, if_false]
  split
  · exact .inl rfl
  · exact .inr ⟨_, rfl, rfl⟩

/-- Where a call leads that does not. -/
theorem step_of_not_averages (h : ¬ Averages n p r) :
    ((Pinging.receiving p).step n r).1 = .closed ∨
      ∃ p', ((Pinging.receiving p).step n r).1 = .receiving p' ∧
        p'.ii = (p.receive r).1.ii := by
  cases hleft : (p.receive r).2 with
  | false =>
      have hpair : p.receive r = ((p.receive r).1, false) := Prod.ext rfl hleft
      rw [Pinging.step, hpair]
      exact .inr ⟨_, rfl, rfl⟩
  | true =>
      have hpair : p.receive r = ((p.receive r).1, true) := Prod.ext rfl hleft
      rw [Pinging.step, hpair]
      by_cases hi : ((p.receive r).1.i : Int) < n
      · simp only [if_pos hi]
        exact .inr ⟨_, rfl, rfl⟩
      · have hrun : (p.receive r).1.running = false :=
          Bool.eq_false_iff.mpr fun hrun => h ⟨hleft, Int.not_lt.mp hi, hrun⟩
        simp [hi, hrun]

theorem Tallied.step {b : Batched} (h : Tallied b) (r : RecvCall) :
    Tallied (b.step n r) := by
  cases hp : b.state with
  | receiving p =>
      have hcount := tallied_receive h hp r
      simp only [Tallied, Batched.step, hp]
      by_cases havg : Averages n p r
      · rcases step_of_averages havg with hstep | ⟨p', hstep, hii⟩
        · rw [hstep]
          trivial
        · rw [hstep, if_pos havg]
          exact iff_of_false (fun hne => hne hii) (by simp)
      · rcases step_of_not_averages havg with hstep | ⟨p', hstep, hii⟩
        · rw [hstep]
          trivial
        · rw [hstep, if_neg havg]
          rw [← hii] at hcount
          exact hcount
  | closed => simp only [Tallied, Batched.step, hp, Pinging.step]
  | fault => simp only [Tallied, Batched.step, hp, Pinging.step]

theorem averageCounts_iff {b : Batched} (h : Tallied b) (r : RecvCall) :
    AverageCounts n b r ↔ Divides n b.state r := by
  cases hp : b.state with
  | receiving p =>
      simp only [AverageCounts, Divides, hp, ← tallied_receive h hp r, and_self]
  | closed => simp only [AverageCounts, Divides, hp]
  | fault => simp only [AverageCounts, Divides, hp]

/-- What is said of the state alone is said without the batch. -/
theorem always_state {P : Pinging → RecvCall → Prop} (b : Batched) (rs : List RecvCall) :
    Always (Batched.step n) (fun b => P b.state) b rs ↔
      Always (fun state r => (state.step n r).1) P b.state rs := by
  induction rs generalizing b with
  | nil => exact Iff.rfl
  | cons r rs ih => exact and_congr_right fun _ => ih (b.step n r)

/-! ## What `recv` returned -/

/-- A packet that is not stale with message `c` out. -/
def NotStale (c : Nat) (r : RecvCall) : Prop :=
  0 < r.len ∧ (c - 1) % 2 ^ 64 ≤ r.idx.toNat

instance : Decidable (NotStale c r) := inferInstanceAs (Decidable (_ ∧ _))

/-- The message that is out after `recv` has returned. -/
def nextOut (c : Nat) (r : RecvCall) : Nat :=
  if r.len = 0 ∨ NotStale c r then c + 1 else c

/-- What `recv` returned, with the message that was out. -/
def numbered : Nat → List RecvCall → List (Nat × RecvCall)
  | _, [] => []
  | c, r :: rs => (c, r) :: numbered (nextOut c r) rs

/-- No packet, or none that was asked for: late, or under a number that has not
been sent. All numbers of 32 bits have been from message `2 ^ 32` on. -/
def Astray (x : Nat × RecvCall) : Prop :=
  x.2.len = 0 ∨ x.2.idx.toNat < (x.1 - 1) % 2 ^ 64 ∨
    x.1 < 2 ^ 32 ∧ (x.2.idx.toNat = 0 ∨ x.1 < x.2.idx.toNat)

instance : DecidablePred Astray := fun _ => inferInstanceAs (Decidable (_ ∨ _))

/-- The completed batches: one ends with the first timeout or packet that is not stale at
which it has `n` packets. After an error none is completed. -/
def completed (n : Int) (batch : List (Nat × RecvCall)) :
    List (Nat × RecvCall) → List (List (Nat × RecvCall))
  | [] => []
  | x :: xs =>
      if x.2.len < 0 then []
      else if (x.2.len = 0 ∨ NotStale x.1 x.2) ∧
          n ≤ (batch ++ [x]).countP (fun y => 0 < y.2.len) then
        (batch ++ [x]) :: completed n [] xs
      else completed n (batch ++ [x]) xs

/-- The numbers on record when those up to `c` have been sent. -/
def Recorded (c : Nat) (f : UInt32) : Prop :=
  2 ^ 32 ≤ c ∨ 0 < f.toNat ∧ f.toNat ≤ c

/-- The variables of `ping`, read off what `recv` has returned: `c` is the message
to be waited for, `d` the last one sent. -/
structure Follows (p : PingClient) (c d : Nat) (batch : List (Nat × RecvCall)) :
    Prop where
  pos : 0 < d
  running : p.running = true
  idx : p.idx = .ofNat c
  i : p.i = batch.countP (fun y => 0 < y.2.len)
  ii : p.ii ≠ 0 ↔ ∃ x ∈ batch, ¬ Astray x
  timestamp : ∀ f : UInt32, (p.timestamp f.toInt32).isSome = true ↔ Recorded d f

variable {d : Nat} {batch : List (Nat × RecvCall)}

theorem toInt32_eq_iff {f g : UInt32} : f.toInt32 = g.toInt32 ↔ f = g :=
  ⟨fun h => congrArg Int32.toUInt32 h, congrArg _⟩

/-- A message sent is on record under its number. -/
theorem send_recorded (p : PingClient) (now : Int) (f : UInt32) :
    ((p.send now).1.timestamp f.toInt32).isSome = true ↔
      f.toNat = p.idx.toNat % 2 ^ 32 ∨ (p.timestamp f.toInt32).isSome = true := by
  have hkey : f.toInt32 = p.idx.toUInt32.toInt32 ↔ f.toNat = p.idx.toNat % 2 ^ 32 := by
    rw [toInt32_eq_iff, ← UInt32.toNat_inj, UInt64.toNat_toUInt32]
  simp only [PingClient.send]
  split
  · next heq => exact iff_of_true rfl (.inl (hkey.mp heq))
  · next hne => exact ⟨.inr, fun hor => hor.resolve_left fun heq => hne (hkey.mpr heq)⟩

theorem follows_new (s : String) (now : Int) :
    Follows (PingClient.send { s } now).1 1 1 [] := by
  refine ⟨Nat.one_pos, rfl, rfl, rfl, iff_of_false (fun h => h rfl) (by simp), ?_⟩
  intro f
  have hlt := f.toNat_lt
  refine (send_recorded _ now f).trans ?_
  simp only [Recorded, Option.isSome_none, Bool.false_eq_true, or_false]
  show f.toNat = 1 ↔ _
  omega

theorem Follows.idx_le (h : Follows p c c batch) (f : UInt32) :
    p.idx - 1 ≤ f.toUInt64 ↔ (c - 1) % 2 ^ 64 ≤ f.toNat := by
  have hpos := h.pos
  have hsub : p.idx - 1 = .ofNat (c - 1) := by
    rw [h.idx, UInt64.ofNat_sub hpos]
    rfl
  rw [hsub, UInt64.le_iff_toNat_le]
  simp

theorem recorded_succ (hd : 0 < d) (f : UInt32) :
    Recorded (d + 1) f ↔ f.toNat = (d + 1) % 2 ^ 32 ∨ Recorded d f := by
  have hlt := f.toNat_lt
  unfold Recorded
  omega

/-- What is not astray is what is counted. -/
theorem Follows.counts (h : Follows p c c batch) (hr : 0 ≤ r.len) :
    Counts p r ↔ ¬ Astray (c, r) := by
  have hrec := h.timestamp r.idx
  have hidx := h.idx_le r.idx
  have hlt := r.idx.toNat_lt
  simp only [Counts, Astray, hrec, hidx, Recorded]
  omega

theorem Follows.receive (h : Follows p c c batch) (hr : 0 ≤ r.len) :
    Follows (p.receive r).1 (nextOut c r) c (batch ++ [(c, r)]) ∧
      ((p.receive r).2 = true ↔ r.len = 0 ∨ NotStale c r) := by
  have hidx := h.idx_le r.idx
  have hii := receive_ii p r
  have hcount := h.counts hr
  have hturn := receive_turn p r
  generalize p.receive r = out at hturn hii ⊢
  have hmeasured : out.1.ii ≠ 0 ↔ ∃ x ∈ batch ++ [(c, r)], ¬ Astray x := by
    simp only [List.mem_append, List.mem_singleton, or_and_right, exists_or, exists_eq_left,
      ← h.ii, ← hcount, hii]
    split
    · next hc => exact iff_of_true (by omega) (.inr hc)
    · next hc => simp only [Nat.add_zero, hc, or_false]
  have hsucc : p.idx + 1 = .ofNat (c + 1) := by
    rw [h.idx, UInt64.ofNat_add]
    rfl
  have hfresh : NotStale c r ↔ 0 < r.len ∧ p.idx - 1 ≤ r.idx.toUInt64 :=
    and_congr_right fun _ => hidx.symm
  unfold nextOut
  cases hturn with
  | timeout hzero =>
      rw [if_pos (.inl hzero)]
      exact ⟨⟨h.pos, h.running, hsucc, by simp [h.i, hzero], hmeasured, h.timestamp⟩,
        by simp [hzero]⟩
  | error hneg => omega
  | stale hpos hstale =>
      have hnot : ¬ (r.len = 0 ∨ NotStale c r) := by
        rintro (hzero | ht)
        · omega
        · exact hstale (hfresh.mp ht).2
      rw [if_neg hnot]
      exact ⟨⟨h.pos, h.running, h.idx, by simp [h.i, hpos], hmeasured, h.timestamp⟩,
        iff_of_false (by simp) hnot⟩
  | measured t hpos hge _ =>
      have ht : r.len = 0 ∨ NotStale c r := .inr (hfresh.mpr ⟨hpos, hge⟩)
      rw [if_pos ht]
      exact ⟨⟨h.pos, h.running, hsucc, by simp [h.i, hpos], hmeasured, h.timestamp⟩,
        iff_of_true rfl ht⟩
  | unmeasured hpos hge _ =>
      have ht : r.len = 0 ∨ NotStale c r := .inr (hfresh.mpr ⟨hpos, hge⟩)
      rw [if_pos ht]
      exact ⟨⟨h.pos, h.running, hsucc, by simp [h.i, hpos], hmeasured, h.timestamp⟩,
        iff_of_true rfl ht⟩

theorem Follows.send (h : Follows p c d batch) (hc : c = d ∨ c = d + 1) (now : Int) :
    Follows (p.send now).1 c c batch := by
  refine ⟨by have := h.pos; omega, h.running, h.idx, h.i, h.ii, ?_⟩
  intro f
  have hsent := send_recorded p now f
  rw [h.idx, UInt64.toNat_ofNat', Nat.mod_mod_of_dvd c (by decide), h.timestamp f] at hsent
  refine hsent.trans ?_
  have hlt := f.toNat_lt
  rcases hc with rfl | rfl
  · unfold Recorded
    have := h.pos
    omega
  · exact (recorded_succ h.pos f).symm

/-- The next batch. -/
theorem Follows.reset (h : Follows p c d batch) :
    Follows { p with totalTimeMs := 0, i := 0, ii := 0 } c d [] :=
  ⟨h.pos, h.running, h.idx, rfl, iff_of_false (fun h => h rfl) (by simp), h.timestamp⟩

/-- `running` is false, or `ping` has returned. -/
def Halted : Pinging → Prop
  | .receiving p => p.running = false
  | _ => True

theorem step_halted (h : (p.receive r).1.running = false) :
    Halted ((Pinging.receiving p).step n r).1 := by
  rw [Pinging.step]
  generalize p.receive r = out at h ⊢
  obtain ⟨p', _ | _⟩ := out
  · exact h
  · simp only [if_pos (show p'.running = false from h)]
    split
    · exact h
    · trivial

/-- No average is reached once `running` is false. -/
theorem always_divides {state : Pinging} (h : Halted state) (rs : List RecvCall) :
    Always (fun state r => (state.step n r).1) (Divides n) state rs := by
  have hrun : ∀ (p : PingClient) (r : RecvCall), p.running = false →
      (p.receive r).1.running = false := by
    intro p r hp
    have hturn := receive_turn p r
    generalize p.receive r = out at hturn ⊢
    cases hturn <;> first | exact hp | rfl
  refine Always.of_inv (I := Halted) (Q := fun _ _ => True) ?_ ?_ h
    (always_of_forall (fun _ _ => trivial) _ rs)
  · rintro (p | _ | _) r hp _
    · exact step_halted (hrun p r hp)
    · trivial
    · trivial
  · rintro (p | _ | _) r hp _
    · exact fun havg => absurd (hrun p r hp) (by simp [havg.2.2])
    · trivial
    · trivial

theorem divides_iff (h : Follows p c c batch) (rs : List RecvCall) :
    Always (fun state r => (state.step n r).1) (Divides n) (.receiving p) rs ↔
      ∀ b ∈ completed n batch (numbered c rs), ∃ x ∈ b, ¬ Astray x := by
  induction rs generalizing p c batch with
  | nil => simp [numbered, completed, Always]
  | cons r rs ih =>
      rw [numbered, completed]
      by_cases hneg : r.len < 0
      · -- The flag is false from here on, and no batch is completed.
        rw [if_pos hneg]
        have hrun : (p.receive r).1.running = false := by
          have hturn := receive_turn p r
          generalize p.receive r = out at hturn ⊢
          cases hturn <;> first | rfl | omega
        refine iff_of_true ⟨?_, always_divides (step_halted hrun) rs⟩ (by simp)
        exact fun havg => absurd hrun (by simp [havg.2.2])
      · rw [if_neg hneg]
        obtain ⟨hf, hleft⟩ := h.receive (Int.not_lt.mp hneg)
        by_cases hout : r.len = 0 ∨ NotStale c r
        · have hnext : nextOut c r = c + 1 := if_pos hout
          rw [hnext] at hf ⊢
          have hpair : p.receive r = ((p.receive r).1, true) :=
            Prod.ext rfl (hleft.mpr hout)
          by_cases hi : ((p.receive r).1.i : Int) < n
          · -- Another message of the same batch.
            rw [if_neg (by rw [← hf.i]; omega)]
            refine (and_iff_right ?_).trans ?_
            · exact fun havg => absurd havg.2.1 (by omega)
            · show Always _ _ ((Pinging.receiving p).step n r).1 rs ↔ _
              rw [Pinging.step, hpair]
              simp only [if_pos hi]
              exact ih (hf.send (.inr rfl) r.sent)
          · -- The average.
            have havg : Averages n p r := ⟨hleft.mpr hout, by omega, hf.running⟩
            rw [if_pos ⟨hout, by rw [← hf.i]; omega⟩, List.forall_mem_cons, ← hf.ii]
            by_cases hii : (p.receive r).1.ii = 0
            · refine iff_of_false (fun hall => hall.1 havg hii) (fun hall => hall.1 hii)
            · refine and_congr (iff_of_true (fun _ => hii) hii) ?_
              show Always _ _ ((Pinging.receiving p).step n r).1 rs ↔ _
              rw [Pinging.step, hpair]
              have hrun : ¬ (p.receive r).1.running = false := by simp [hf.running]
              simp only [if_neg hi, if_neg hrun, PingClient.average, if_neg hii]
              exact ih (hf.reset.send (.inr rfl) r.sent)
        · have hnext : nextOut c r = c := if_neg hout
          rw [hnext] at hf ⊢
          have hpair : p.receive r = ((p.receive r).1, false) :=
            Prod.ext rfl (Bool.eq_false_iff.mpr fun hl => hout (hleft.mp hl))
          rw [if_neg fun hand => hout hand.1]
          refine (and_iff_right ?_).trans ?_
          · exact fun havg => absurd (hleft.mp havg.1) hout
          · show Always _ _ ((Pinging.receiving p).step n r).1 rs ↔ _
            rw [Pinging.step, hpair]
            exact ih hf

/-- `ping`, from its first message on. -/
def Batched.start (s : String) (now : Int) : Batched where
  state := (Pinging.start s now).1

/-- Whatever `recv` returns: whenever `ping` comes to the average, a reply with its
time on record has been counted in the batch, if and only if no batch that is
completed consists of timeouts and packets astray. -/
theorem average_counts_iff (n : Int) (s : String) (now : Int) (rs : List RecvCall) :
    Always (Batched.step n) (AverageCounts n) (.start s now) rs ↔
      ∀ batch ∈ completed n [] (numbered 1 rs), ∃ x ∈ batch, ¬ Astray x := by
  have hstart : Tallied (.start s now) := iff_of_false (fun h => h rfl) (by simp [Batched.start])
  have hdivides : Always (Batched.step n) (AverageCounts n) (.start s now) rs ↔
      Always (Batched.step n) (fun b => Divides n b.state) (.start s now) rs :=
    always_iff_of_inv (I := Tallied) (W := fun _ _ => True)
    (fun b r hb _ _ => hb.step r) (fun b r hb _ => averageCounts_iff hb r) hstart
    (always_of_forall (fun _ _ => trivial) _ rs)
  rw [hdivides, always_state]
  exact divides_iff (follows_new s now) rs

/-- Batches of one. Two timeouts, then the reply to the first message, which is
stale by now, and another timeout: the client divides by zero. -/
theorem average_of_stale_reply :
    let rs : List RecvCall := [⟨0, 0, 0, 0⟩, ⟨0, 0, 0, 0⟩, ⟨132, 1, 0, 0⟩, ⟨0, 0, 0, 0⟩]
    ¬ Always (Batched.step 1) (AverageCounts 1) (.start "1" 0) rs ∧
      (rs.foldl (Batched.step 1) (.start "1" 0)).state = .fault := by
  refine ⟨?_, rfl⟩
  rintro ⟨_, _, _, h, _⟩
  exact (h (by decide)).2 rfl

end Daenet.Proofs
