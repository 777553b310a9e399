import Mathlib.Data.List.DropRight
import Mathlib.Data.List.Range
import Mathlib.Data.List.Perm.Basic

/-!
# Collecting answers along a chain

A question is handed along a chain of `n` members. Every member answers to
whoever asked first and hands the question on, the last one only answers. All
messages are in flight at once and may arrive in any order; what is fixed is
that the questions arrive one after the other (`Plays.inv`).

The one who asked keeps the answers in a list that every answer cuts to its own
bound: it is appended, and the list loses its first entries until it is as long
as the bound. The bound of the `k`-th member is `k`. Then the answers come out
as they were sent if they arrive so (`pushAll_inOrder`), and in any case the
first one is still there in the end exactly when none of those that came after
it cut it off (`head_pushAll`).
-/

namespace Daenet.Lib

/-! ## A list that its entries cut -/

section Push

variable {α : Type} {l : List α} {x : α} {ys : List (α × Nat)}

/-- An entry is appended, and the list is cut to its bound. -/
def push (l : List α) (p : α × Nat) : List α := (l ++ [p.1]).rtake p.2

/-- Entries, one after the other. -/
def pushAll (l : List α) (ps : List (α × Nat)) : List α := ps.foldl push l

theorem push_succ (l : List α) (x : α) (b : Nat) :
    push l (x, b + 1) = l.rtake b ++ [x] := List.rtake_concat_succ ..

theorem rtake_of_length_le {b : Nat} (h : l.length ≤ b) : l.rtake b = l := by
  rw [List.rtake, Nat.sub_eq_zero_of_le h, List.drop_zero]

theorem pushAll_append (l : List α) (ps qs : List (α × Nat)) :
    pushAll l (ps ++ qs) = pushAll (pushAll l ps) qs := List.foldl_append ..

/-- Entries whose bounds count up from one are all that is left. -/
theorem pushAll_inOrder (l : List α) (f : Nat → α) (n : Nat) :
    pushAll l ((List.range' 1 (n + 1)).map fun k => (f k, k)) =
      (List.range' 1 (n + 1)).map f := by
  induction n with
  | zero =>
      show push l (f 1, 0 + 1) = [f 1]
      rw [push_succ, List.rtake_zero, List.nil_append]
  | succ n ih =>
      rw [List.range'_1_concat, List.map_append, pushAll_append, ih,
        List.map_append, Nat.add_comm 1 (n + 1)]
      show push _ (f (n + 1 + 1), n + 1 + 1) = _
      rw [push_succ, rtake_of_length_le (by simp)]
      rfl

/-- What is not in the list and does not come does not appear. -/
theorem not_mem_pushAll (hl : x ∉ l) (hys : ∀ p ∈ ys, p.1 ≠ x) :
    x ∉ pushAll l ys := by
  induction ys generalizing l with
  | nil => exact hl
  | cons p ys ih =>
      refine ih (fun hmem => ?_) fun q hq => hys q (List.mem_cons_of_mem _ hq)
      rcases List.mem_append.mp (List.mem_of_mem_drop hmem) with hx | hx
      · exact hl hx
      · exact hys p (by simp) (List.mem_singleton.mp hx).symm

/-- A relation between neighbours survives an entry that is related to the one
before it, if that one stays. -/
theorem isChain_push {r : α → α → Prop} {b : Nat} (hl : l.IsChain r)
    (hx : 2 ≤ b → ∀ y ∈ l.getLast?, r y x) : (push l (x, b)).IsChain r := by
  match b, hx with
  | 0, _ =>
      rw [push, List.rtake_zero]
      exact List.isChain_nil
  | 1, _ =>
      rw [push_succ, List.rtake_zero]
      exact List.isChain_singleton x
  | b + 2, hx =>
      refine List.IsChain.drop (List.isChain_append.mpr
        ⟨hl, List.isChain_singleton x, fun y hy z hz => ?_⟩) _
      cases hz
      exact hx (Nat.le_add_left 2 b) y hy

/-- The head stays exactly when every entry has room for those before it. -/
theorem head_pushAll (hl : x ∉ l) (hys : ∀ p ∈ ys, p.1 ≠ x)
    (hpos : ∀ p ∈ ys, 0 < p.2) :
    (pushAll (x :: l) ys).head? = some x ↔
      ∀ r p, ys[r]? = some p → l.length + r + 2 ≤ p.2 := by
  induction ys generalizing l with
  | nil =>
      refine iff_of_true rfl fun r p h => ?_
      rw [List.getElem?_nil] at h
      cases h
  | cons p ys ih =>
      obtain ⟨y, b⟩ := p
      have hy : y ≠ x := hys (y, b) (by simp)
      have hrest : ∀ q ∈ ys, q.1 ≠ x := fun q hq => hys q (List.mem_cons_of_mem _ hq)
      obtain ⟨b, rfl⟩ : ∃ c, b = c + 1 := by
        have : 0 < b := hpos (y, b) (by simp)
        exact ⟨b - 1, by omega⟩
      show (pushAll (push (x :: l) (y, b + 1)) ys).head? = some x ↔ _
      rw [push_succ]
      by_cases hroom : (x :: l).length ≤ b
      · -- Nothing is cut off.
        rw [rtake_of_length_le hroom, List.cons_append, ih
          (by simp [hl, Ne.symm hy]) hrest
          fun q hq => hpos q (List.mem_cons_of_mem _ hq)]
        rw [List.length_cons] at hroom
        rw [List.length_append, List.length_singleton]
        constructor
        · intro h r p hr
          cases r with
          | zero =>
              rw [List.getElem?_cons_zero] at hr
              cases hr
              show _ ≤ b + 1
              omega
          | succ r =>
              rw [List.getElem?_cons_succ] at hr
              have := h r p hr
              omega
        · intro h r p hr
          have := h (r + 1) p (by rw [List.getElem?_cons_succ]; exact hr)
          omega
      · -- The head is, and does not come again.
        have hgone : x ∉ (x :: l).rtake b ++ [y] := by
          rw [List.mem_append, List.mem_singleton, List.rtake]
          rw [List.length_cons] at hroom ⊢
          rw [show l.length + 1 - b = (l.length - b) + 1 by omega,
            List.drop_succ_cons]
          rintro (hx | hx)
          · exact hl (List.mem_of_mem_drop hx)
          · exact hy hx.symm
        refine iff_of_false (fun hhead => ?_) fun h => ?_
        · exact not_mem_pushAll hgone hrest (List.mem_of_mem_head? hhead)
        · have := h 0 (y, b + 1) rfl
          rw [List.length_cons] at hroom
          simp only at this
          omega

end Push

/-! ## The messages of a chain -/

/-- The question on its way to member `k`, or the answer of member `k` on its
way home. -/
inductive Letter where
  | ask (k : Nat)
  | answer (k : Nat)
  deriving DecidableEq, Repr

namespace Letter

/-- Whom a question is for. -/
def asks : Letter → Option Nat
  | .ask k => some k
  | .answer _ => none

/-- Whose answer it is. -/
def answers : Letter → Option Nat
  | .ask _ => none
  | .answer k => some k

/-- What a message brings about in a chain of `n`. -/
def brings (n : Nat) : Letter → List Letter
  | .ask k => .answer k :: if k < n then [.ask (k + 1)] else []
  | .answer _ => []

end Letter

/-- The questions among some messages, and the answers. -/
def asksOf (es : List Letter) : List Nat := es.filterMap Letter.asks

def answersOf (es : List Letter) : List Nat := es.filterMap Letter.answers

/-- Messages arriving one at a time: what is in flight before and after, and what
arrived. A message may be next if `allowed` says so of it and of those sent
before it that are still in flight. -/
inductive Plays (n : Nat) (allowed : Letter → List Letter → Prop) :
    List Letter → List Letter → List Letter → Prop where
  | done (flight : List Letter) : Plays n allowed flight [] flight
  | next {before after log last : List Letter} {e : Letter}
      (hok : allowed e before)
      (h : Plays n allowed (before ++ after ++ e.brings n) log last) :
      Plays n allowed (before ++ e :: after) (e :: log) last

/-- An answer is allowed only when no earlier one is still in flight. -/
def Fifo (allowed : Letter → List Letter → Prop) : Prop :=
  ∀ k before, allowed (.answer k) before → answersOf before = []

/-- Between two arrivals: the questions come in order, one at a time, until all
have been asked; and whoever was asked has answered, once. -/
structure Midway (n : Nat) (allowed : Letter → List Letter → Prop)
    (log flight : List Letter) : Prop where
  asked : ∃ q ≤ n, asksOf log ++ asksOf flight = List.range' 1 q ∧
    (asksOf flight = [] → q = n)
  single : (asksOf flight).length ≤ 1
  answered : (answersOf log ++ answersOf flight).Perm (asksOf log)
  ordered : Fifo allowed → answersOf log ++ answersOf flight = asksOf log

section Chain

variable {n : Nat} {allowed : Letter → List Letter → Prop}
  {log log' flight last before after : List Letter} {e : Letter}

theorem asksOf_append (es fs : List Letter) :
    asksOf (es ++ fs) = asksOf es ++ asksOf fs := List.filterMap_append ..

theorem answersOf_append (es fs : List Letter) :
    answersOf (es ++ fs) = answersOf es ++ answersOf fs := List.filterMap_append ..

theorem asksOf_brings (k : Nat) :
    asksOf (Letter.brings n (.ask k)) = if k < n then [k + 1] else [] := by
  by_cases hlt : k < n
  · rw [Letter.brings, if_pos hlt, if_pos hlt]
    rfl
  · rw [Letter.brings, if_neg hlt, if_neg hlt]
    rfl

theorem answersOf_brings (k : Nat) : answersOf (Letter.brings n (.ask k)) = [k] := by
  by_cases hlt : k < n
  · rw [Letter.brings, if_pos hlt]
    rfl
  · rw [Letter.brings, if_neg hlt]
    rfl

theorem midway_start (hn : 0 < n) : Midway n allowed [] [.ask 1] :=
  ⟨⟨1, hn, rfl, fun h => (by cases h)⟩, Nat.le_refl _, .nil, fun _ => rfl⟩

/-- The question arrives at the next member. -/
theorem Midway.ask {k : Nat} (h : Midway n allowed log (before ++ .ask k :: after)) :
    Midway n allowed (log ++ [.ask k])
      (before ++ after ++ Letter.brings n (.ask k)) := by
  obtain ⟨⟨q, hq, hasked, _⟩, hsingle, hperm, hord⟩ := h
  have hsplit : asksOf (before ++ .ask k :: after) =
      asksOf before ++ k :: asksOf after := asksOf_append ..
  have hanswers : answersOf (before ++ .ask k :: after) =
      answersOf before ++ answersOf after := answersOf_append ..
  rw [hsplit, List.length_append, List.length_cons] at hsingle
  have hbefore : asksOf before = [] := List.eq_nil_of_length_eq_zero (by omega)
  have hafter : asksOf after = [] := List.eq_nil_of_length_eq_zero (by omega)
  rw [hsplit, hbefore, hafter, List.nil_append] at hasked
  rw [hanswers] at hperm hord
  have hlog : asksOf (log ++ [.ask k]) = asksOf log ++ [k] := asksOf_append ..
  have hlog' : answersOf (log ++ [.ask k]) = answersOf log := by
    rw [answersOf_append]
    exact List.append_nil _
  have hflight : asksOf (before ++ after ++ Letter.brings n (.ask k)) =
      if k < n then [k + 1] else [] := by
    rw [asksOf_append, asksOf_append, hbefore, hafter, asksOf_brings,
      List.nil_append, List.nil_append]
  have hflight' : answersOf (before ++ after ++ Letter.brings n (.ask k)) =
      answersOf before ++ answersOf after ++ [k] := by
    rw [answersOf_append, answersOf_append, answersOf_brings]
  -- The question that arrived is the last one that was sent.
  have hk : k = q := by
    have hlen := congrArg List.length hasked
    rw [List.length_append, List.length_singleton, List.length_range'] at hlen
    obtain ⟨q, rfl⟩ : ∃ p, q = p + 1 := ⟨q - 1, by omega⟩
    rw [List.range'_1_concat] at hasked
    have := (List.append_inj' hasked rfl).2
    simp only [List.cons.injEq, and_true] at this
    omega
  subst hk
  refine ⟨?_, ?_, ?_, ?_⟩
  · rw [hlog, hflight, hasked]
    by_cases hlt : k < n
    · rw [if_pos hlt]
      refine ⟨k + 1, hlt, ?_, fun h => (by cases h)⟩
      rw [List.range'_1_concat, Nat.add_comm 1 k]
    · rw [if_neg hlt]
      exact ⟨k, hq, List.append_nil _, fun _ => by omega⟩
  · rw [hflight]
    split
    · exact Nat.le_refl _
    · exact Nat.zero_le _
  · rw [hlog, hlog', hflight', ← List.append_assoc]
    exact hperm.append_right [k]
  · intro hfifo
    rw [hlog, hlog', hflight', ← List.append_assoc, hord hfifo]

/-- An answer arrives. -/
theorem Midway.answer {k : Nat} (hok : allowed (.answer k) before)
    (h : Midway n allowed log (before ++ .answer k :: after)) :
    Midway n allowed (log ++ [.answer k])
      (before ++ after ++ Letter.brings n (.answer k)) := by
  obtain ⟨hasked, hsingle, hperm, hord⟩ := h
  have hasks : asksOf (before ++ .answer k :: after) =
      asksOf (before ++ after ++ Letter.brings n (.answer k)) := by
    rw [show Letter.brings n (.answer k) = [] from rfl, List.append_nil,
      asksOf_append, asksOf_append]
    rfl
  have hanswers : answersOf (before ++ .answer k :: after) =
      answersOf before ++ k :: answersOf after := answersOf_append ..
  have hflight : answersOf (before ++ after ++ Letter.brings n (.answer k)) =
      answersOf before ++ answersOf after := by
    rw [show Letter.brings n (.answer k) = [] from rfl, List.append_nil,
      answersOf_append]
  have hlog : asksOf (log ++ [.answer k]) = asksOf log := by
    rw [asksOf_append]
    exact List.append_nil _
  have hlog' : answersOf (log ++ [.answer k]) = answersOf log ++ [k] :=
    answersOf_append ..
  rw [hasks] at hasked hsingle
  rw [hanswers] at hperm hord
  refine ⟨by rw [hlog]; exact hasked, hsingle, ?_, ?_⟩
  · rw [hlog, hlog', hflight, List.append_assoc, List.singleton_append]
    exact (List.perm_middle.symm.append_left _).trans hperm
  · intro hfifo
    have hnone := hfifo k before hok
    rw [hnone, List.nil_append] at hord
    rw [hlog, hlog', hflight, hnone, List.nil_append, List.append_assoc]
    exact hord hfifo

/-- The invariant, along any arrivals. -/
theorem Plays.inv (h : Plays n allowed flight log' last)
    (hmid : Midway n allowed log flight) : Midway n allowed (log ++ log') last := by
  induction h generalizing log with
  | done flight =>
      rw [List.append_nil]
      exact hmid
  | @next before after log' last e hok _ ih =>
      rw [List.append_cons]
      cases e with
      | ask k => exact ih hmid.ask
      | answer k => exact ih (hmid.answer hok)

/-- When nothing is left in flight: all members were asked, one after the other,
and each has answered once; in the order they were asked, if answers may not
overtake each other. -/
theorem plays_complete (hn : 0 < n) (h : Plays n allowed [.ask 1] log []) :
    asksOf log = List.range' 1 n ∧ (answersOf log).Perm (List.range' 1 n) ∧
      (Fifo allowed → answersOf log = List.range' 1 n) := by
  obtain ⟨⟨q, _, hasked, hall⟩, _, hperm, hord⟩ := h.inv (midway_start hn)
  have hq : q = n := hall rfl
  rw [List.nil_append] at hasked hperm hord
  rw [show asksOf [] = [] from rfl, List.append_nil, hq] at hasked
  rw [show answersOf [] = [] from rfl, List.append_nil] at hperm hord
  rw [hasked] at hperm hord
  exact ⟨hasked, hperm, hord⟩

/-- Everything can arrive. -/
theorem plays_exists (hn : 0 < n) (hok : ∀ e, allowed e []) :
    ∃ log, Plays n allowed [.ask 1] log [] := by
  have hfrom : ∀ d k, k + d = n → ∃ log, Plays n allowed [.ask k] log [] := by
    intro d
    induction d with
    | zero =>
        intro k hk
        have hbrings : Letter.brings n (.ask k) = [.answer k] := by
          rw [Letter.brings, if_neg (by omega)]
        refine ⟨[.ask k, .answer k], @Plays.next n allowed [] [] _ _ _ (hok _) ?_⟩
        rw [hbrings]
        exact @Plays.next n allowed [] [] _ _ _ (hok _) (.done [])
    | succ d ih =>
        intro k hk
        obtain ⟨log, hlog⟩ := ih (k + 1) (by omega)
        have hbrings : Letter.brings n (.ask k) = [.answer k, .ask (k + 1)] := by
          rw [Letter.brings, if_pos (by omega)]
        refine ⟨.ask k :: .answer k :: log,
          @Plays.next n allowed [] [] _ _ _ (hok _) ?_⟩
        rw [hbrings]
        exact @Plays.next n allowed [] [.ask (k + 1)] _ _ _ (hok _) hlog
  exact hfrom (n - 1) 1 (by omega)

end Chain

end Daenet.Lib
