import Daenet.Proofs.Frames
import Daenet.Ref.TcpSocket

/-!
# Reassembling frames from any cut of the stream

`TcpSocket::recv` looks at the length word after every chunk, also when only
one, two or three of its bytes have arrived; the others are what the buffer
held before: the front of the previous frame, or of the uninitialised buffer.
Two bytes are enough, since a frame is shorter than `2 ^ 16` and what they read
as is at least its length. One byte is not: if the low byte of the length is 0
or 1 and the old bytes are zero, the loop takes it for the whole length and
stops. Over an uninitialised buffer the old bytes can also make the length huge,
and with it the next request, which then may overrun the buffer. And what is
left when a frame is returned may be longer than that frame, so that moving it
to the front copies between ranges that overlap.

`readFrame_outcome` follows the loop over one frame and `recv_outcome` the call;
`recvAll_iff` carries it over the frames. The condition is about the cut: where
chunks end, and how long the frames are.
-/

namespace Daenet.Proofs

open Daenet.Lib Daenet.Ref

/-! ## The buffer while a frame is being read -/

/-- The first `t` bytes of `stream` are in the buffer, and behind them, as far
as the length word reaches, what was left of the old one. -/
structure Holding (old stream mem : List UInt8) (t : Nat) : Prop where
  length : mem.length = 2 * maxMtu
  le : t ≤ stream.length
  front : slice mem 0 t = some (stream.take t)
  stale : t < sizeofWord → slice mem t (sizeofWord - t) = some (old.drop t)

/-- A length as the sockets send them: with a nonce and a tag, and at most
`MAX_MTU`. -/
def FrameLength (n : Nat) : Prop :=
  sizeofWord + (npubBytes + aBytes) ≤ n ∧ n ≤ maxMtu

/-- The same of a buffer of any size. -/
structure Front (old stream mem : List UInt8) (t : Nat) : Prop where
  le : t ≤ stream.length
  front : slice mem 0 t = some (stream.take t)
  stale : t < sizeofWord → slice mem t (sizeofWord - t) = some (old.drop t)

theorem Holding.toFront {old stream mem : List UInt8} {t : Nat}
    (h : Holding old stream mem t) : Front old stream mem t :=
  ⟨h.le, h.front, h.stale⟩

section

variable {old mem more body : List UInt8} {t : Nat}

theorem frameOf_take (h : t ≤ sizeofWord) :
    (frameOf body).take t = leBytes t (frameOf body).length := by
  rw [frameOf_length, frameOf, List.take_append_of_le_length
    (by rw [leBytes_length]; exact h), leBytes_take h]

/-- The length word once it has arrived. -/
theorem Front.word_complete (hmax : (frameOf body).length ≤ maxMtu)
    (h : Front old (frameOf body ++ more) mem t) (ht : sizeofWord ≤ t) :
    lengthWord mem = (frameOf body).length := by
  have hmin : sizeofWord ≤ (frameOf body).length := by
    rw [frameOf_length]
    omega
  have hfront := h.front
  rw [show t = sizeofWord + (t - sizeofWord) by omega] at hfront
  have hword := (slice_add hfront).1
  rw [List.take_take, Nat.min_eq_left (by omega),
    List.take_append_of_le_length hmin, frameOf_take (Nat.le_refl _)] at hword
  rw [lengthWord_of_slice hword, leNat_leBytes]
  refine Nat.mod_eq_of_lt ?_
  unfold maxMtu sizeofWord at *
  omega

/-- The length word while only `t` bytes of it have arrived. -/
theorem Front.word_incomplete (h : Front old (frameOf body ++ more) mem t)
    (ht : t < sizeofWord) :
    lengthWord mem =
      (frameOf body).length % 256 ^ t + 256 ^ t * leNat (old.drop t) := by
  have hfront := h.front
  rw [List.take_append_of_le_length (by rw [frameOf_length]; omega),
    frameOf_take (Nat.le_of_lt ht)] at hfront
  have hstale := h.stale ht
  have hword := slice_append hfront (by rw [Nat.zero_add]; exact hstale)
  rw [show t + (sizeofWord - t) = sizeofWord by omega] at hword
  rw [lengthWord_of_slice hword, leNat_append, leNat_leBytes, leBytes_length]

/-- A chunk arrives. -/
theorem Front.chunk {stream chunk mem' rest : List UInt8}
    (h : Front old stream mem t) (hnext : stream.drop t = chunk ++ rest)
    (hne : chunk ≠ []) (hblit : blit mem t chunk = some mem') :
    Front old stream mem' (t + chunk.length) := by
  have hw := Wrote.of_blit hblit
  have hle := h.le
  have hlen := congrArg List.length hnext
  rw [List.length_drop, List.length_append] at hlen
  have hpos := List.length_pos_of_ne_nil hne
  refine ⟨by omega, ?_, ?_⟩
  · have htake : stream.take (t + chunk.length) = stream.take t ++ chunk := by
      rw [List.take_add, hnext, List.take_left]
    rw [htake]
    refine slice_append ?_ (by rw [Nat.zero_add]; exact hw.here)
    rw [hw.before 0 t (by omega)]
    exact h.front
  · intro hlt
    have hstale := h.stale (by omega)
    rw [show sizeofWord - t = chunk.length + (sizeofWord - (t + chunk.length)) by
      omega] at hstale
    have hrest := (slice_add hstale).2
    rw [List.drop_drop] at hrest
    rw [hw.after _ _ (Nat.le_refl _)]
    exact hrest

theorem word_complete (hlen : FrameLength (frameOf body).length)
    (h : Holding old (frameOf body ++ more) mem t) (ht : sizeofWord ≤ t) :
    lengthWord mem = (frameOf body).length :=
  h.toFront.word_complete hlen.2 ht

theorem Holding.chunk {stream chunk mem' rest : List UInt8}
    (h : Holding old stream mem t) (hnext : stream.drop t = chunk ++ rest)
    (hne : chunk ≠ []) (hblit : blit mem t chunk = some mem') :
    Holding old stream mem' (t + chunk.length) := by
  obtain ⟨hle, hfront, hstale⟩ := h.toFront.chunk hnext hne hblit
  exact ⟨(Wrote.of_blit hblit).length.trans h.length, hle, hfront, hstale⟩

end

/-! ## Where chunks end -/

/-- Behind `t` bytes that are there already, some number of `chunks` end at `q`. -/
def EndsAt (t : Nat) (chunks : List (List UInt8)) (q : Nat) : Prop :=
  ∃ pre post, chunks = pre ++ post ∧ q = t + pre.flatten.length

section

variable {t q k : Nat} {chunk : List UInt8} {chunks done rest : List (List UInt8)}

theorem EndsAt.le (h : EndsAt t chunks q) : t ≤ q := by
  obtain ⟨pre, post, _, rfl⟩ := h
  omega

theorem endsAt_cons :
    EndsAt t (chunk :: chunks) q ↔ q = t ∨ EndsAt (t + chunk.length) chunks q := by
  constructor
  · rintro ⟨pre, post, hsplit, rfl⟩
    cases pre with
    | nil => exact .inl rfl
    | cons c pre =>
        injection hsplit with hc hsplit
        subst hc
        refine .inr ⟨pre, post, hsplit, ?_⟩
        rw [List.flatten_cons, List.length_append, Nat.add_assoc]
  · rintro (rfl | ⟨pre, post, hsplit, rfl⟩)
    · exact ⟨[], chunk :: chunks, rfl, rfl⟩
    · refine ⟨chunk :: pre, post, by rw [hsplit]; rfl, ?_⟩
      rw [List.flatten_cons, List.length_append, Nat.add_assoc]

/-- The first chunks to bring `k` bytes together are `done`: from `k` on, chunks
end where they do behind what `done` brought beyond `k`. -/
theorem endsAt_shift (henough : k ≤ t + done.flatten.length)
    (hbefore : ∀ pre post, done = pre ++ post → post ≠ [] →
      t + pre.flatten.length < k) :
    EndsAt t (done ++ rest) (k + q) ↔
      EndsAt (t + done.flatten.length - k) rest q := by
  constructor
  · rintro ⟨pre, post, hsplit, hq⟩
    obtain ⟨more, rfl, hrest⟩ | ⟨more, hdone, hpost⟩ :=
      List.append_eq_append_iff.mp hsplit
    · refine ⟨more, post, hrest, ?_⟩
      rw [List.flatten_append, List.length_append] at hq
      omega
    · -- Only all of `done` reaches `k`.
      by_cases hmore : more = []
      · subst hmore
        rw [List.append_nil] at hdone
        refine ⟨[], rest, rfl, ?_⟩
        rw [hdone, List.flatten_nil, List.length_nil]
        omega
      · have := hbefore pre more hdone hmore
        omega
  · rintro ⟨pre, post, rfl, rfl⟩
    refine ⟨done ++ pre, post, by rw [List.append_assoc], ?_⟩
    rw [List.flatten_append, List.length_append]
    omega

end

/-! ## One frame -/

/-- One byte of the length `n` over the old bytes reads as 0 or 1. -/
def Garbled (old : List UInt8) (n : Nat) : Prop :=
  n % 256 ≤ 1 ∧ leNat (old.drop 1) = 0

/-- No chunk that comes while one to three bytes are there overruns the buffer. -/
def Roomy (t : Nat) (chunks : List (List UInt8)) : Prop :=
  ∀ pre chunk post, chunks = pre ++ chunk :: post → 1 ≤ t + pre.flatten.length →
    t + pre.flatten.length ≤ 3 →
    t + pre.flatten.length + chunk.length ≤ 2 * maxMtu

/-- The old bytes are the length word of a frame. -/
def Ordinary (old : List UInt8) : Prop :=
  ∃ n ≤ maxMtu, old = leBytes sizeofWord n

/-- `done` is what the loop reads of `chunks` to have `k` bytes together. -/
structure Reads (k t : Nat) (chunks done rest : List (List UInt8)) : Prop where
  split : chunks = done ++ rest
  enough : k ≤ t + done.flatten.length
  before : ∀ pre post, done = pre ++ post → post ≠ [] → t + pre.flatten.length < k

/-- How the loop ends for a frame `f`: with the whole frame; at one byte that it
took for the length; or outside the buffer. -/
inductive Outcome (old f more : List UInt8) (t : Nat)
    (chunks : List (List UInt8)) : Except Stop Read → Prop where
  | whole {done rest : List (List UInt8)} {mem : List UInt8}
      (hreads : Reads f.length t chunks done rest)
      (hold : Holding old (f ++ more) mem (t + done.flatten.length))
      (hclear : EndsAt t chunks 1 → ¬ Garbled old f.length)
      (hroomy : Roomy t chunks) :
      Outcome old f more t chunks
        (.ok (.frame mem (t + done.flatten.length) f.length rest))
  | short {mem : List UInt8} {e : Nat} {rest : List (List UInt8)} (he : e ≤ 1)
      (hmem : mem.length = 2 * maxMtu) (hend : EndsAt t chunks 1)
      (hgarbled : Garbled old f.length) :
      Outcome old f more t chunks (.ok (.frame mem 1 e rest))
  | overrun (hroomy : ¬ Roomy t chunks) (hold : ¬ Ordinary old) :
      Outcome old f more t chunks (.error .fault)

section

variable {old f more : List UInt8} {t : Nat} {chunk : List UInt8}
  {chunks done rest : List (List UInt8)} {n : Nat}

theorem roomy_cons (hfirst : 1 ≤ t → t ≤ 3 → t + chunk.length ≤ 2 * maxMtu) :
    Roomy t (chunk :: chunks) ↔ Roomy (t + chunk.length) chunks := by
  constructor
  · intro h pre c post hsplit hlow hhigh
    have := h (chunk :: pre) c post (by rw [hsplit]; rfl)
    rw [List.flatten_cons, List.length_append, ← Nat.add_assoc] at this
    exact this hlow hhigh
  · intro h pre c post hsplit hlow hhigh
    cases pre with
    | nil =>
        injection hsplit with hc _
        subst hc
        exact hfirst hlow hhigh
    | cons d pre =>
        injection hsplit with hd hsplit
        subst hd
        have := h pre c post hsplit
        rw [List.flatten_cons, List.length_append, ← Nat.add_assoc] at hlow hhigh ⊢
        exact this hlow hhigh

theorem Reads.cons (hlt : t < n) (h : Reads n (t + chunk.length) chunks done rest) :
    Reads n t (chunk :: chunks) (chunk :: done) rest := by
  refine ⟨by rw [h.split]; rfl, ?_, ?_⟩
  · have := h.enough
    rw [List.flatten_cons, List.length_append]
    omega
  · intro pre post hdone hpost
    cases pre with
    | nil => simpa using hlt
    | cons c pre =>
        injection hdone with hc hdone
        subst hc
        rw [List.flatten_cons, List.length_append, ← Nat.add_assoc]
        exact h.before pre post hdone hpost

/-- A chunk that was neither stopped at nor overran the buffer. -/
theorem Outcome.cons {r : Except Stop Read} (hlt : t < f.length)
    (hclear : t = 1 → ¬ Garbled old f.length)
    (hroomy : 1 ≤ t → t ≤ 3 → t + chunk.length ≤ 2 * maxMtu)
    (h : Outcome old f more (t + chunk.length) chunks r) :
    Outcome old f more t (chunk :: chunks) r := by
  cases h with
  | @whole done rest mem hreads hold hc hr =>
      have hadd : t + (chunk :: done).flatten.length =
          t + chunk.length + done.flatten.length := by
        rw [List.flatten_cons, List.length_append, Nat.add_assoc]
      rw [← hadd] at hold ⊢
      refine .whole (hreads.cons hlt) hold ?_ ((roomy_cons hroomy).mpr hr)
      intro hend
      rcases endsAt_cons.mp hend with hone | hend
      · exact hclear hone.symm
      · exact hc hend
  | short he hmem hend hg => exact .short he hmem (endsAt_cons.mpr (.inr hend)) hg
  | overrun hr hold => exact .overrun ((roomy_cons hroomy).not.mpr hr) hold

/-- Without a byte of it garbled, one byte of the length word reads as more than
one. -/
theorem word_one {body : List UInt8} {mem : List UInt8}
    (h : Front old (frameOf body ++ more) mem 1) :
    lengthWord mem ≤ 1 ↔ Garbled old (frameOf body).length := by
  rw [h.word_incomplete (by decide), pow_one]
  unfold Garbled
  omega

/-- Two or three bytes of the length word read as at least the length. -/
theorem word_two_three {body : List UInt8} {mem : List UInt8}
    (hmax : (frameOf body).length ≤ maxMtu)
    (h : Front old (frameOf body ++ more) mem t) (ht : 2 ≤ t)
    (hlt : t < sizeofWord) : (frameOf body).length ≤ lengthWord mem := by
  rw [h.word_incomplete hlt]
  have hpow : 256 ^ 2 ≤ 256 ^ t := Nat.pow_le_pow_right (by decide) ht
  rw [Nat.mod_eq_of_lt (by unfold maxMtu at hmax; omega)]
  exact Nat.le_add_right _ _

/-- Over the length word of a frame, the bytes that have arrived never read as
much. -/
theorem word_ordinary {body : List UInt8} {mem : List UInt8}
    (hlen : FrameLength (frameOf body).length) (hold : Ordinary old)
    (h : Holding old (frameOf body ++ more) mem t) (ht : 1 ≤ t)
    (hlt : t < sizeofWord) : lengthWord mem ≤ 1279 := by
  obtain ⟨k, hk, rfl⟩ := hold
  have hmax := hlen.2
  rw [h.toFront.word_incomplete hlt, leBytes_drop (Nat.le_of_lt hlt), leNat_leBytes]
  unfold sizeofWord maxMtu at *
  obtain rfl | rfl | rfl : t = 1 ∨ t = 2 ∨ t = 3 := by omega
  all_goals omega

/-- When the loop stops without asking for more: the frame is there, or its
first byte read as the whole length. -/
theorem exit_outcome {body mem : List UInt8} {expected : Nat}
    (hlen : FrameLength (frameOf body).length)
    (h : Holding old (frameOf body ++ more) mem t)
    (hexp : expected = (if t = 0 then maxMtu else lengthWord mem))
    (hstop : ¬ t < expected) :
    Outcome old (frameOf body) more t chunks
      (.ok (.frame mem t expected chunks)) := by
  have hmin := hlen.1
  rcases Nat.lt_or_ge t sizeofWord with hlt | hge
  · have ht : t ≠ 0 := by
      intro ht
      rw [if_pos ht] at hexp
      unfold maxMtu at hexp
      omega
    rw [if_neg ht] at hexp
    have hone : t = 1 := by
      by_contra hne
      have := word_two_three hlen.2 h.toFront (by omega) hlt
      omega
    subst hone
    have hword : expected ≤ 1 := by omega
    exact .short hword h.length ⟨[], chunks, rfl, rfl⟩
      ((word_one h.toFront).mp (hexp ▸ hword))
  · have hpos : 4 ≤ t := hge
    rw [if_neg (by omega), word_complete hlen h hge] at hexp
    subst hexp
    have hreads : Reads (frameOf body).length t chunks [] chunks := by
      refine ⟨rfl, by simpa using hstop, ?_⟩
      intro pre post hsplit hpost
      exact absurd (List.append_eq_nil_iff.mp hsplit.symm).2 hpost
    refine .whole hreads h ?_ ?_
    · intro hend
      have := hend.le
      omega
    · intro pre c post hsplit
      omega

/-- The loop asks for more only while the frame is not there. -/
theorem ask_before {body mem : List UInt8} {expected : Nat}
    (hlen : FrameLength (frameOf body).length)
    (h : Holding old (frameOf body ++ more) mem t)
    (hexp : expected = (if t = 0 then maxMtu else lengthWord mem))
    (hlt : t < expected) :
    t < (frameOf body).length ∧ (t = 1 → ¬ Garbled old (frameOf body).length) := by
  have hmin := hlen.1
  refine ⟨?_, ?_⟩
  · rcases Nat.lt_or_ge t sizeofWord with hword | hword
    · omega
    · have hpos : 4 ≤ t := hword
      rw [if_neg (by omega), word_complete hlen h hword] at hexp
      omega
  · rintro rfl
    rw [if_neg (by omega)] at hexp
    rw [← word_one h.toFront]
    omega

/-- What the loop asks for fits behind what is there, except while one to three
bytes of the length word are read over bytes that are no length word. -/
theorem request_fits {body mem : List UInt8} {expected : Nat}
    (hlen : FrameLength (frameOf body).length)
    (h : Holding old (frameOf body ++ more) mem t)
    (hexp : expected = (if t = 0 then maxMtu else lengthWord mem))
    (hlt : t < expected) (hover : 2 * maxMtu < t + expected) :
    1 ≤ t ∧ t ≤ 3 ∧ ¬ Ordinary old := by
  have hmax := hlen.2
  have hpos : t ≠ 0 := by
    intro ht
    rw [if_pos ht] at hexp
    omega
  rw [if_neg hpos] at hexp
  have hthree : t < sizeofWord := by
    by_contra hge
    rw [word_complete hlen h (by omega)] at hexp
    omega
  refine ⟨by omega, by unfold sizeofWord at hthree; omega, fun hord => ?_⟩
  have := word_ordinary hlen hord h (by omega) hthree
  unfold sizeofWord maxMtu at *
  omega

/-- The loop over one frame. -/
theorem readFrame_outcome {body : List UInt8}
    (hlen : FrameLength (frameOf body).length) :
    ∀ (chunks : List (List UInt8)) (mem : List UInt8) (t expected : Nat),
      (∀ c ∈ chunks, c ≠ []) → Holding old (frameOf body ++ more) mem t →
      chunks.flatten = (frameOf body ++ more).drop t →
      expected = (if t = 0 then maxMtu else lengthWord mem) →
      readFrame chunks mem t expected ≠ .error .tooLong →
      Outcome old (frameOf body) more t chunks
        (readFrame chunks mem t expected) := by
  intro chunks
  induction chunks with
  | nil =>
      intro mem t expected _ h hflat hexp _
      -- The stream is at its end, so the frame is there.
      have hall := congrArg List.length hflat
      rw [List.length_drop, List.length_append, List.flatten_nil,
        List.length_nil] at hall
      have hstop : ¬ t < expected := by
        intro hlt
        have := (ask_before hlen h hexp hlt).1
        omega
      rw [readFrame, if_neg hstop]
      exact exit_outcome hlen h hexp hstop
  | cons chunk rest ih =>
      intro mem t expected hne h hflat hexp hadm
      by_cases hlt : t < expected
      · have hchunk := hne chunk (by simp)
        rw [readFrame, if_pos hlt] at hadm ⊢
        by_cases hlong : expected < chunk.length
        · rw [if_pos hlong] at hadm
          exact absurd rfl hadm
        rw [if_neg hlong, if_neg hchunk] at hadm ⊢
        obtain ⟨hbefore, hclear⟩ := ask_before hlen h hexp hlt
        by_cases hfit : t + chunk.length ≤ mem.length
        · obtain ⟨mem', hblit, _⟩ := blit_spec _ _ _ hfit
          rw [hblit] at hadm ⊢
          rw [List.flatten_cons] at hflat
          have h' := h.chunk hflat.symm hchunk hblit
          have hpos := List.length_pos_of_ne_nil hchunk
          refine Outcome.cons hbefore hclear ?_ (ih mem' (t + chunk.length) _
            (fun c hc => hne c (by simp [hc])) h' ?_ ?_ hadm)
          · intro _ _
            rw [← h.length]
            exact hfit
          · rw [← List.drop_drop, ← hflat, List.drop_left]
          · rw [if_neg (by omega)]
        · rw [blit, if_neg hfit]
          have hmem := h.length
          obtain ⟨hlow, hhigh, hord⟩ := request_fits hlen h hexp hlt (by omega)
          refine .overrun (fun hroomy => hfit ?_) hord
          have := hroomy [] chunk rest rfl
          rw [List.flatten_nil, List.length_nil, Nat.add_zero] at this
          rw [hmem]
          exact this hlow hhigh
      · rw [readFrame, if_neg hlt]
        exact exit_outcome hlen h hexp hlt

end

/-! ## One call -/

/-- Where the ranges do not overlap, the bytes move as they are meant to. -/
theorem shift_of_keep {mem mem' : List UInt8} {expected used : Nat}
    (h : keep mem expected used = some mem') : shift mem expected used = some mem' := by
  unfold keep at h
  unfold shift
  split at h
  · next hzero =>
      rw [if_pos hzero]
      exact h
  · next hpos =>
      rw [if_neg hpos]
      split at h
      · cases h
      · exact h

/-- What is in the buffer when a frame has been taken out of it. -/
theorem Front.next {old body more mem mem' : List UInt8} {t : Nat}
    (h : Front old (frameOf body ++ more) mem t)
    (hthere : (frameOf body).length ≤ t)
    (hkeep : shift mem (frameOf body).length (t - (frameOf body).length) =
      some mem') :
    mem'.length = mem.length ∧
      Front (leBytes sizeofWord (frameOf body).length) more mem'
        (t - (frameOf body).length) := by
  obtain ⟨used, rfl⟩ := Nat.exists_eq_add_of_le hthere
  rw [Nat.add_sub_cancel_left] at hkeep ⊢
  obtain ⟨hframe, hmore⟩ := slice_add h.front
  rw [List.take_take, Nat.min_eq_left (by omega), List.take_left] at hframe
  rw [Nat.zero_add, List.drop_take, Nat.add_sub_cancel_left, List.drop_left] at hmore
  -- The length word of the frame stands until something is moved over it.
  have hword : slice mem 0 sizeofWord =
      some (leBytes sizeofWord (frameOf body).length) := by
    have hsplit : (frameOf body).length =
        sizeofWord + ((frameOf body).length - sizeofWord) := by
      rw [frameOf_length]
      omega
    rw [hsplit] at hframe
    rw [(slice_add hframe).1, frameOf_take (Nat.le_refl _)]
  have hle := h.le
  rw [List.length_append] at hle
  unfold shift at hkeep
  by_cases hzero : used = 0
  · rw [if_pos hzero] at hkeep
    injection hkeep with hkeep
    subst hzero hkeep
    refine ⟨rfl, by omega, ?_, ?_⟩
    · exact slice_zero (Nat.zero_le _)
    · intro _
      exact hword
  · rw [if_neg hzero, hmore, Option.bind_some] at hkeep
    have hw := Wrote.of_blit hkeep
    have hused : (more.take used).length = used := (slice_bound hmore).2
    refine ⟨hw.length, by omega, ?_, ?_⟩
    · have := hw.here
      rw [hused] at this
      exact this
    · intro hlt
      rw [hw.after _ _ (by omega)]
      rw [show sizeofWord = used + (sizeofWord - used) by omega] at hword
      have := (slice_add hword).2
      rw [Nat.zero_add, Nat.add_sub_of_le (by omega)] at this
      exact this

theorem Holding.next {old body more mem mem' : List UInt8} {t : Nat}
    (h : Holding old (frameOf body ++ more) mem t)
    (hthere : (frameOf body).length ≤ t)
    (hkeep : keep mem (frameOf body).length (t - (frameOf body).length) =
      some mem') :
    Holding (leBytes sizeofWord (frameOf body).length) more mem'
      (t - (frameOf body).length) := by
  obtain ⟨hlen, hle, hfront, hstale⟩ := h.toFront.next hthere (shift_of_keep hkeep)
  exact ⟨hlen.trans h.length, hle, hfront, hstale⟩

/-- Moving the rest to the front is defined when it is no longer than the
frame. -/
theorem keep_defined (mem : List UInt8) (expected used : Nat)
    (hmem : expected + used ≤ mem.length) :
    (∃ mem', keep mem expected used = some mem') ↔ used ≤ expected := by
  unfold keep
  by_cases hzero : used = 0
  · simp [hzero]
  · rw [if_neg hzero]
    split
    · next hlt => simp; omega
    · next hge =>
        rw [slice_eq_some hmem, Option.bind_some]
        obtain ⟨mem', hblit, _⟩ := blit_spec mem 0 ((mem.drop expected).take used)
          (by rw [List.length_take, List.length_drop]; omega)
        rw [hblit]
        simp
        omega

/-- How a call ends for a frame `f` that carries `m`. -/
inductive Call (old f m more : List UInt8) (t : Nat)
    (chunks : List (List UInt8)) :
    Except Stop (Received × TcpSocket × List (List UInt8)) → Prop where
  | returned {done rest : List (List UInt8)} {mem : List UInt8}
      (hreads : Reads f.length t chunks done rest)
      (hclear : EndsAt t chunks 1 → ¬ Garbled old f.length)
      (hroomy : Roomy t chunks) (hsnug : t + done.flatten.length ≤ 2 * f.length)
      (hold : Holding (leBytes sizeofWord f.length) more mem
        (t + done.flatten.length - f.length)) :
      Call old f m more t chunks
        (.ok (.data m, ⟨mem, t + done.flatten.length - f.length⟩, rest))
  | garbled (hend : EndsAt t chunks 1) (hgarbled : Garbled old f.length) :
      Call old f m more t chunks (.error .fault)
  | overrun (hroomy : ¬ Roomy t chunks) (hold : ¬ Ordinary old) :
      Call old f m more t chunks (.error .fault)
  | overlap {done rest : List (List UInt8)}
      (hreads : Reads f.length t chunks done rest)
      (hlong : 2 * f.length < t + done.flatten.length) :
      Call old f m more t chunks (.error .fault)

section

variable {A : Aead} {key old f m more mem : List UInt8} {nonce : Nonce} {t : Nat}
  {chunks done rest : List (List UInt8)}

theorem send_frame (hA : A.Lawful key)
    (hsend : TcpSocket.send A key nonce m = some f) :
    f = frameOf (A.seal key nonce m) ∧ FrameLength f.length ∧ m.length ≤ maxMtu := by
  simp only [TcpSocket.send] at hsend
  split at hsend
  · next hfit =>
      injection hsend with hsend
      subst hsend
      have hlen : (frameOf (A.seal key nonce m)).length =
          m.length + (npubBytes + aBytes) + sizeofWord := by
        rw [frameOf_length, seal_length hA]
      exact ⟨rfl, ⟨by omega, hfit⟩, by omega⟩
  · cases hsend

/-- A length of 0 or 1 wraps around, and decryption runs out of the buffer. -/
theorem slice_bodySize_short {e : Nat} (he : e ≤ 1) (hmem : mem.length = 2 * maxMtu) :
    ¬ bodySize e < npubBytes + aBytes ∧ slice mem sizeofWord (bodySize e) = none := by
  have hsize : 2 ^ 32 - 4 ≤ bodySize e := by
    unfold bodySize sizeofWord
    omega
  refine ⟨by unfold npubBytes aBytes; omega, ?_⟩
  rw [slice, if_neg]
  rw [hmem]
  unfold maxMtu
  omega

theorem recv_outcome (hA : A.Lawful key)
    (hsend : TcpSocket.send A key nonce m = some f) (hne : ∀ c ∈ chunks, c ≠ [])
    (h : Holding old (f ++ more) mem t)
    (hflat : chunks.flatten = (f ++ more).drop t)
    (hadm : TcpSocket.recv A key ⟨mem, t⟩ maxMtu chunks ≠ .error .tooLong) :
    Call old f m more t chunks (TcpSocket.recv A key ⟨mem, t⟩ maxMtu chunks) := by
  obtain ⟨rfl, hlen, hm⟩ := send_frame hA hsend
  have hread : readFrame chunks mem t (if t = 0 then maxMtu else lengthWord mem) ≠
      .error .tooLong := by
    intro hr
    refine hadm ?_
    unfold TcpSocket.recv
    simp only [hr]
  have hout := readFrame_outcome hlen chunks mem t _ hne h hflat rfl hread
  unfold TcpSocket.recv
  simp only
  generalize readFrame chunks mem t (if t = 0 then maxMtu else lengthWord mem) = r
    at hout
  cases hout with
  | @whole done rest mem hreads hold hclear hroomy =>
      have hthere := hreads.enough
      have hframe : slice mem 0 (frameOf (A.seal key nonce m)).length =
          some (frameOf (A.seal key nonce m)) := by
        have hfront := hold.front
        rw [← Nat.add_sub_of_le hthere] at hfront
        have := (slice_add hfront).1
        rw [List.take_take, Nat.min_eq_left (by omega), List.take_left] at this
        exact this
      have hin := (slice_bound hold.front).1
      simp only [bodySize_frame hlen.2]
      rw [if_neg (by rw [seal_length hA]; omega), (frame_in_buffer hlen.2 hframe).2]
      simp only [unseal_seal hA, if_neg (Nat.not_lt.mpr hm)]
      have hdef := keep_defined mem (frameOf (A.seal key nonce m)).length
        (t + done.flatten.length - (frameOf (A.seal key nonce m)).length)
        (by omega)
      cases hkeep : keep mem (frameOf (A.seal key nonce m)).length
          (t + done.flatten.length - (frameOf (A.seal key nonce m)).length) with
      | none =>
          refine .overlap hreads ?_
          rw [hkeep] at hdef
          simp only [reduceCtorEq, exists_false, false_iff] at hdef
          omega
      | some mem' =>
          refine .returned hreads hclear hroomy ?_ (hold.next hthere hkeep)
          have := hdef.mp ⟨mem', hkeep⟩
          omega
  | short he hmem hend hgarbled =>
      obtain ⟨hsize, hslice⟩ := slice_bodySize_short he hmem
      simp only [if_neg hsize, hslice]
      exact .garbled hend hgarbled
  | overrun hroomy hold => exact .overrun hroomy hold

end

/-! ## The whole stream -/

/-- What the place of the length word holds when `frames` have been read. -/
def staleWord (old : List UInt8) : List (List UInt8) → List UInt8
  | [] => old
  | f :: frames => staleWord (leBytes sizeofWord f.length) frames

/-- Behind `t` bytes that are there already, the chunks are cut such that every
frame can be told and put away: none ends behind a first byte that reads as the
whole length, and some chunk ends between the end of a frame and as much
further as the frame is long. -/
structure Survives (old : List UInt8) (frames : List (List UInt8)) (t : Nat)
    (chunks : List (List UInt8)) : Prop where
  clear : ∀ fs f gs, frames = fs ++ f :: gs →
    EndsAt t chunks (fs.flatten.length + 1) → ¬ Garbled (staleWord old fs) f.length
  snug : ∀ fs f gs, frames = fs ++ f :: gs → ∃ q, EndsAt t chunks q ∧
    fs.flatten.length + f.length ≤ q ∧ q ≤ fs.flatten.length + 2 * f.length

/-- The first half of it alone. -/
def Legible (old : List UInt8) (frames : List (List UInt8)) (t : Nat)
    (chunks : List (List UInt8)) : Prop :=
  ∀ fs f gs, frames = fs ++ f :: gs → EndsAt t chunks (fs.flatten.length + 1) →
    ¬ Garbled (staleWord old fs) f.length

/-- A statement about every place in a list, at its head and in its tail. -/
theorem forall_split_cons {α : Type} {P : List α → α → Prop} {x : α} {xs : List α} :
    (∀ ys y zs, x :: xs = ys ++ y :: zs → P ys y) ↔
      P [] x ∧ ∀ ys y zs, xs = ys ++ y :: zs → P (x :: ys) y := by
  constructor
  · intro h
    exact ⟨h [] x xs rfl, fun ys y zs hxs => h (x :: ys) y zs (by rw [hxs]; rfl)⟩
  · rintro ⟨hhead, htail⟩ ys y zs hsplit
    cases ys with
    | nil =>
        injection hsplit with hx _
        exact hx ▸ hhead
    | cons z ys =>
        injection hsplit with hz hsplit
        exact hz ▸ htail ys y zs hsplit

section

variable {A : Aead} {key old f m more mem : List UInt8} {nonce : Nonce} {t : Nat}
  {chunks done rest frames : List (List UInt8)} {sent : List (Nonce × List UInt8)}

theorem Reads.endsAt_iff {k q : Nat} (h : Reads k t chunks done rest) :
    EndsAt t chunks (k + q) ↔ EndsAt (t + done.flatten.length - k) rest q := by
  rw [h.split]
  exact endsAt_shift h.enough h.before

theorem flatten_cons_add (f : List UInt8) (fs : List (List UInt8)) (k : Nat) :
    (f :: fs).flatten.length + k = f.length + (fs.flatten.length + k) := by
  rw [List.flatten_cons, List.length_append, Nat.add_assoc]

theorem legible_cons (h : Reads f.length t chunks done rest) :
    Legible old (f :: frames) t chunks ↔
      (EndsAt t chunks 1 → ¬ Garbled old f.length) ∧
      Legible (leBytes sizeofWord f.length) frames
        (t + done.flatten.length - f.length) rest := by
  unfold Legible
  rw [forall_split_cons]
  refine and_congr (by simp [staleWord]) ?_
  refine forall_congr' fun fs => forall_congr' fun g => forall_congr' fun gs =>
    imp_congr_right fun _ => imp_congr ?_ Iff.rfl
  rw [flatten_cons_add, h.endsAt_iff]

/-- The condition, over a first frame and the others. -/
theorem survives_cons (h : Reads f.length t chunks done rest) :
    Survives old (f :: frames) t chunks ↔
      (EndsAt t chunks 1 → ¬ Garbled old f.length) ∧
      t + done.flatten.length ≤ 2 * f.length ∧
      Survives (leBytes sizeofWord f.length) frames
        (t + done.flatten.length - f.length) rest := by
  have hfirst : (∃ q, EndsAt t chunks q ∧ f.length ≤ q ∧ q ≤ 2 * f.length) ↔
      t + done.flatten.length ≤ 2 * f.length := by
    constructor
    · rintro ⟨q, hend, hge, hle⟩
      rw [← Nat.add_sub_of_le hge, h.endsAt_iff] at hend
      have := hend.le
      omega
    · intro hle
      exact ⟨_, ⟨done, rest, h.split, rfl⟩, h.enough, hle⟩
  constructor
  · rintro ⟨hclear, hsnug⟩
    obtain ⟨hhead, hclear⟩ := (legible_cons h).mp hclear
    rw [forall_split_cons] at hsnug
    refine ⟨hhead, hfirst.mp (by simpa using hsnug.1), hclear, ?_⟩
    intro fs g gs hsplit
    obtain ⟨q, hend, hge, hle⟩ := hsnug.2 fs g gs hsplit
    rw [flatten_cons_add] at hge hle
    obtain ⟨q, rfl⟩ : ∃ r, q = f.length + r := Nat.exists_eq_add_of_le (by omega)
    exact ⟨q, h.endsAt_iff.mp hend, by omega, by omega⟩
  · rintro ⟨hhead, hlen, hclear, hsnug⟩
    refine ⟨(legible_cons h).mpr ⟨hhead, hclear⟩,
      forall_split_cons.mpr ⟨by simpa using hfirst.mpr hlen, ?_⟩⟩
    intro fs g gs hsplit
    obtain ⟨q, hend, hge, hle⟩ := hsnug fs g gs hsplit
    refine ⟨f.length + q, h.endsAt_iff.mpr hend, ?_, ?_⟩
    · rw [flatten_cons_add]
      omega
    · rw [flatten_cons_add]
      omega

/-- What is left of the stream behind the chunks that were read. -/
theorem Reads.rest_flatten (h : Reads f.length t chunks done rest)
    (hflat : chunks.flatten = (f ++ more).drop t) :
    rest.flatten = more.drop (t + done.flatten.length - f.length) := by
  have hthere := h.enough
  have hdrop := congrArg (List.drop done.flatten.length) hflat
  rw [h.split, List.flatten_append, List.drop_left, List.drop_drop] at hdrop
  rw [hdrop, List.drop_append, List.drop_eq_nil_of_le hthere, List.nil_append]

theorem recvAll_iff (hA : A.Lawful key)
    (hsent : List.Forall₂ (fun p f => TcpSocket.send A key p.1 p.2 = some f)
      sent frames) :
    ∀ (old mem : List UInt8) (t : Nat) (chunks : List (List UInt8)),
      (∀ c ∈ chunks, c ≠ []) → Holding old frames.flatten mem t →
      chunks.flatten = frames.flatten.drop t →
      TcpSocket.recvAll A key sent.length ⟨mem, t⟩ chunks ≠ .error .tooLong →
      (TcpSocket.recvAll A key sent.length ⟨mem, t⟩ chunks =
          .ok (sent.map fun p => .data p.2) ↔
        Survives old frames t chunks ∧ (Ordinary old ∨ Roomy t chunks)) := by
  induction hsent with
  | nil =>
      intro old mem t chunks hne h hflat _
      have hnil : chunks = [] := by
        cases chunks with
        | nil => rfl
        | cons c cs =>
            rw [List.flatten_nil, List.drop_nil] at hflat
            exact absurd (List.append_eq_nil_iff.mp hflat).1 (hne c (by simp))
      refine iff_of_true rfl ⟨⟨?_, ?_⟩, .inr ?_⟩
      · intro fs f gs hsplit
        simp at hsplit
      · intro fs f gs hsplit
        simp at hsplit
      · intro pre c post hsplit
        simp [hnil] at hsplit
  | @cons p f sent frames hsend hrest ih =>
      intro old mem t chunks hne h hflat hadm
      rw [List.length_cons, TcpSocket.recvAll] at hadm ⊢
      have hcall := recv_outcome hA hsend hne h hflat (by
        intro hr
        rw [hr] at hadm
        exact hadm rfl)
      generalize TcpSocket.recv A key ⟨mem, t⟩ maxMtu chunks = r at hcall hadm
      cases hcall with
      | @returned done rest mem hreads hclear hroomy hsnug hold =>
          simp only at hadm ⊢
          have hnext := ih (leBytes sizeofWord f.length) mem _ rest
            (fun c hc => hne c (by rw [hreads.split]; simp [hc])) hold
            (hreads.rest_flatten hflat) (by
              intro hr
              rw [hr] at hadm
              exact hadm rfl)
          have hord : Ordinary (leBytes sizeofWord f.length) :=
            ⟨_, (send_frame hA hsend).2.1.2, rfl⟩
          rw [survives_cons hreads, List.map_cons]
          cases hr : TcpSocket.recvAll A key sent.length
              ⟨mem, t + done.flatten.length - f.length⟩ rest with
          | error stop =>
              rw [hr] at hnext
              simp only [reduceCtorEq, false_iff] at hnext
              refine iff_of_false (by simp [Except.map]) ?_
              rintro ⟨⟨_, _, hsurv⟩, _⟩
              exact hnext ⟨hsurv, .inl hord⟩
          | ok payloads =>
              rw [hr] at hnext
              simp only [Except.map, Except.ok.injEq, List.cons.injEq,
                true_and] at hnext ⊢
              rw [hnext]
              constructor
              · rintro ⟨hsurv, _⟩
                exact ⟨⟨hclear, hsnug, hsurv⟩, .inr hroomy⟩
              · rintro ⟨⟨_, _, hsurv⟩, _⟩
                exact ⟨hsurv, .inl hord⟩
      | garbled hend hgarbled =>
          refine iff_of_false (by simp) ?_
          rintro ⟨hsurv, _⟩
          exact hsurv.clear [] f frames rfl (by simpa using hend) hgarbled
      | overrun hroomy hold =>
          refine iff_of_false (by simp) ?_
          rintro ⟨_, hord | hr⟩
          · exact hold hord
          · exact hroomy hr
      | overlap hreads hlong =>
          refine iff_of_false (by simp) ?_
          rintro ⟨hsurv, _⟩
          have := ((survives_cons hreads).mp hsurv).2.1
          omega

/-- A buffer before anything has been read. -/
theorem holding_start (stream : List UInt8) (h : mem.length = 2 * maxMtu) :
    Holding (mem.take sizeofWord) stream mem 0 := by
  refine ⟨h, Nat.zero_le _, slice_zero (Nat.zero_le _), fun _ => ?_⟩
  rw [slice_eq_some (by rw [h]; decide)]
  rfl

/-- A stream that was read has not overrun the buffer. -/
theorem recvAll_roomy (hA : A.Lawful key)
    (hsent : List.Forall₂ (fun p f => TcpSocket.send A key p.1 p.2 = some f)
      sent frames) (hne : ∀ c ∈ chunks, c ≠ [])
    (h : Holding old frames.flatten mem t)
    (hflat : chunks.flatten = frames.flatten.drop t) {r : List Received}
    (hok : TcpSocket.recvAll A key sent.length ⟨mem, t⟩ chunks = .ok r) :
    Roomy t chunks := by
  cases hsent with
  | nil =>
      intro pre c post hsplit
      rw [hsplit, List.flatten_nil, List.drop_nil, List.flatten_append,
        List.flatten_cons] at hflat
      have hc := (List.append_eq_nil_iff.mp (List.append_eq_nil_iff.mp hflat).2).1
      exact absurd hc (hne c (by simp [hsplit]))
  | @cons p f sent frames hsend hrest =>
      rw [List.length_cons, TcpSocket.recvAll] at hok
      have hcall := recv_outcome hA hsend hne h hflat (by
        intro hr
        rw [hr] at hok
        cases hok)
      generalize TcpSocket.recv A key ⟨mem, t⟩ maxMtu chunks = r at hcall hok
      cases hcall with
      | returned _ _ hroomy _ _ => exact hroomy
      | garbled _ _ => cases hok
      | overrun _ _ => cases hok
      | overlap _ _ => cases hok

end

/-- Over any cut of the stream into chunks no longer than what was asked for,
and from any buffer, successive calls of `recv` return the payloads that were
sent exactly when every frame can be told and put away, and no chunk that comes
while the first length word is incomplete overruns the buffer. -/
theorem recv_returns_payloads_iff (A : Aead) (key : List UInt8) (hA : A.Lawful key)
    (sent : List (Nonce × List UInt8)) (frames chunks : List (List UInt8))
    (buffer : List UInt8)
    (hsent : List.Forall₂ (fun p f => TcpSocket.send A key p.1 p.2 = some f)
      sent frames)
    (hcut : chunks.flatten = frames.flatten) (hne : ∀ c ∈ chunks, c ≠ [])
    (hbuffer : buffer.length = 2 * maxMtu)
    (hasked : TcpSocket.recvAll A key sent.length ⟨buffer, 0⟩ chunks ≠
      .error .tooLong) :
    TcpSocket.recvAll A key sent.length ⟨buffer, 0⟩ chunks =
        .ok (sent.map fun p => .data p.2) ↔
      Survives (buffer.take sizeofWord) frames 0 chunks ∧ Roomy 0 chunks := by
  have hstart := holding_start frames.flatten hbuffer
  have hflat : chunks.flatten = frames.flatten.drop 0 := hcut
  have hiff := recvAll_iff hA hsent _ buffer 0 chunks hne hstart hflat hasked
  constructor
  · intro hok
    exact ⟨(hiff.mp hok).1, recvAll_roomy hA hsent hne hstart hflat hok⟩
  · rintro ⟨hsurv, hroomy⟩
    exact hiff.mpr ⟨hsurv, .inr hroomy⟩

/-- Two payloads and the frames `send` makes of them, under the zero nonce. -/
def sentTwo (payload : List UInt8) : List (Nonce × List UInt8) :=
  [(zeroNonce, []), (zeroNonce, payload)]

def frameTagged (payload : List UInt8) : List UInt8 :=
  frameOf (taggedAead.seal [] zeroNonce payload)

/-- The second frame's length word is cut behind its second byte. -/
theorem recv_returns_payloads_iff_cut :
    Survives (List.replicate sizeofWord 255) [frameTagged [], frameTagged [7]] 0
        [frameTagged [] ++ (frameTagged [7]).take 2, (frameTagged [7]).drop 2] ∧
      Roomy 0
        [frameTagged [] ++ (frameTagged [7]).take 2, (frameTagged [7]).drop 2] :=
  (recv_returns_payloads_iff taggedAead [] (taggedAead_lawful []) (sentTwo [7])
    [frameTagged [], frameTagged [7]]
    [frameTagged [] ++ (frameTagged [7]).take 2, (frameTagged [7]).drop 2]
    (List.replicate (2 * maxMtu) 255)
    (.cons (by decide +kernel) (.cons (by decide +kernel) .nil))
    (by decide +kernel) (by decide +kernel) List.length_replicate
    (by decide +kernel)).mp (by decide +kernel)

/-- A frame of 32 bytes and one of 256, whose low byte is 0, arriving as the
first frame with that byte, and the rest. -/
theorem recv_loses_frame_cut_in_length :
    ¬ ∀ (A : Aead) (key : List UInt8), A.Lawful key →
      ∀ (sent : List (Nonce × List UInt8)) (frames chunks : List (List UInt8))
        (buffer : List UInt8),
        List.Forall₂ (fun p f => TcpSocket.send A key p.1 p.2 = some f) sent frames →
        chunks.flatten = frames.flatten → (∀ c ∈ chunks, c ≠ []) →
        buffer.length = 2 * maxMtu →
        TcpSocket.recvAll A key sent.length ⟨buffer, 0⟩ chunks ≠ .error .tooLong →
        TcpSocket.recvAll A key sent.length ⟨buffer, 0⟩ chunks =
          .ok (sent.map fun p => .data p.2) := by
  intro h
  have hlost := h taggedAead [] (taggedAead_lawful [])
    (sentTwo (List.replicate 224 0))
    [frameTagged [], frameTagged (List.replicate 224 0)]
    [frameTagged [] ++ (frameTagged (List.replicate 224 0)).take 1,
      (frameTagged (List.replicate 224 0)).drop 1]
    (List.replicate (2 * maxMtu) 255)
    (.cons (by decide +kernel) (.cons (by decide +kernel) .nil))
    (by decide +kernel) (by decide +kernel) List.length_replicate
    (by decide +kernel)
  exact absurd hlost (by decide +kernel)

end Daenet.Proofs
