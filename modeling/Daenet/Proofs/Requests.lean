import Daenet.Proofs.BadFrame
import Daenet.Proofs.Onion

/-!
# What the onion sockets ask the network for

`recv_with_header_size` reads at the end of what it has and asks for the whole
length of the frame, not for what is missing of it. With `t` bytes of a frame
there, the request fits the buffer of `MAX_MTU` bytes when `t` and the length
do together; the first request, at an empty buffer, always does. While one to
three bytes of the length word are there, what is asked for is the number made
of these and of the old bytes behind them.

The loop is run here together with a log of its requests, for the three loops
that call it: the one of the application, and the two of a relay. What was read
beyond a frame moves to the front as it is meant to (`shift`), also where it is
longer than the frame and `memcpy` promises nothing; as long as `memcpy` is
defined these are the loops of the sockets (`Caller.call_of_keep`).
`ReadRequest` says which requests a cut of the stream brings about, and
`tor_requests_fit_iff` that the logged ones fit exactly when these do.
-/

namespace Daenet.Proofs

open Daenet.Lib Daenet.Ref

/-! ## The loop and its requests -/

/-- `readFrame`, with the requests it makes: an offset and a number of bytes. -/
def readFrameLogged : List (List UInt8) → List UInt8 → Nat → Nat →
    List (Nat × Nat) × Except Stop Read
  | [], mem, total, expected =>
      if total < expected then ([(total, expected)], .ok (.reset mem []))
      else ([], .ok (.frame mem total expected []))
  | chunk :: rest, mem, total, expected =>
      if total < expected then
        if expected < chunk.length then ([(total, expected)], .error .tooLong)
        else if chunk = [] then ([(total, expected)], .ok (.reset mem rest))
        else match blit mem total chunk with
          | none => ([(total, expected)], .error .fault)
          | some mem' =>
              let r := readFrameLogged rest mem' (total + chunk.length)
                (lengthWord mem')
              ((total, expected) :: r.1, r.2)
      else ([], .ok (.frame mem total expected (chunk :: rest)))

/-- The log changes nothing. -/
theorem readFrameLogged_snd (chunks : List (List UInt8)) (mem : List UInt8)
    (t e : Nat) : (readFrameLogged chunks mem t e).2 = readFrame chunks mem t e := by
  induction chunks generalizing mem t e with
  | nil =>
      rw [readFrameLogged, readFrame]
      split <;> rfl
  | cons chunk rest ih =>
      rw [readFrameLogged, readFrame]
      by_cases hlt : t < e
      · rw [if_pos hlt, if_pos hlt]
        by_cases hlong : e < chunk.length
        · rw [if_pos hlong, if_pos hlong]
        · rw [if_neg hlong, if_neg hlong]
          by_cases hnil : chunk = []
          · rw [if_pos hnil, if_pos hnil]
          · rw [if_neg hnil, if_neg hnil]
            cases blit mem t chunk with
            | none => rfl
            | some mem' => exact ih mem' _ _
      · rw [if_neg hlt, if_neg hlt]

/-- The log of a call of `recv_with_header_size(.., MAX_MTU, ..)`. -/
def callLog (s : SharedBuffer) (chunks : List (List UInt8)) : List (Nat × Nat) :=
  (readFrameLogged chunks s.bytes s.used
    (if s.used = 0 then maxMtu else lengthWord s.bytes)).1

/-- A request that stays inside `shared_buffer`. -/
def Fits (r : Nat × Nat) : Prop := r.1 + r.2 ≤ maxMtu

/-- What is asked for when `t` bytes of a frame of length `n` are there, over a
length word that was `old`. -/
def asked (old : List UInt8) (n t : Nat) : Nat :=
  if t = 0 then maxMtu
  else if t < sizeofWord then n % 256 ^ t + 256 ^ t * leNat (old.drop t)
  else n

/-! ## One frame -/

/-- How the loop ends for a frame `f`, with its log: with the whole frame; at one
byte that it took for the length; or after a request that does not fit. -/
inductive LoggedOutcome (old f more : List UInt8) (t : Nat)
    (chunks : List (List UInt8)) :
    List (Nat × Nat) × Except Stop Read → Prop where
  | whole {done rest : List (List UInt8)} {mem : List UInt8}
      {log : List (Nat × Nat)} (hreads : Reads f.length t chunks done rest)
      (hmem : mem.length = maxMtu)
      (hfront : Front old (f ++ more) mem (t + done.flatten.length))
      (hclear : EndsAt t chunks 1 → ¬ Garbled old f.length)
      (hfits : ∀ r ∈ log, Fits r)
      (hasked : ∀ pre c post, chunks = pre ++ c :: post →
        t + pre.flatten.length < f.length →
        Fits (t + pre.flatten.length,
          asked old f.length (t + pre.flatten.length))) :
      LoggedOutcome old f more t chunks
        (log, .ok (.frame mem (t + done.flatten.length) f.length rest))
  | short {mem : List UInt8} {e : Nat} {rest : List (List UInt8)}
      {log : List (Nat × Nat)} (he : e ≤ 1) (hmem : mem.length = maxMtu)
      (hend : EndsAt t chunks 1) (hgarbled : Garbled old f.length)
      (hfits : ∀ r ∈ log, Fits r) :
      LoggedOutcome old f more t chunks (log, .ok (.frame mem 1 e rest))
  | outside {log : List (Nat × Nat)} {result : Except Stop Read}
      (hlog : ∃ r ∈ log, ¬ Fits r)
      (hasked : ∃ pre c post, chunks = pre ++ c :: post ∧
        t + pre.flatten.length < f.length ∧
        (EndsAt t pre 1 → ¬ Garbled old f.length) ∧
        ¬ Fits (t + pre.flatten.length,
          asked old f.length (t + pre.flatten.length))) :
      LoggedOutcome old f more t chunks (log, result)

section

variable {old body more mem : List UInt8} {t : Nat} {chunk : List UInt8}
  {chunks : List (List UInt8)}

theorem expected_eq (hmax : (frameOf body).length ≤ maxMtu)
    (h : Front old (frameOf body ++ more) mem t) :
    (if t = 0 then maxMtu else lengthWord mem) =
      asked old (frameOf body).length t := by
  unfold asked
  by_cases hzero : t = 0
  · rw [if_pos hzero, if_pos hzero]
  · rw [if_neg hzero, if_neg hzero]
    by_cases hlt : t < sizeofWord
    · rw [if_pos hlt, h.word_incomplete hlt]
    · rw [if_neg hlt, h.word_complete hmax (by omega)]

/-- The loop goes on exactly while the frame is not there, unless one byte reads
as the whole length. -/
theorem lt_asked_iff (hmax : (frameOf body).length ≤ maxMtu)
    (h : Front old (frameOf body ++ more) mem t) :
    t < asked old (frameOf body).length t ↔
      t < (frameOf body).length ∧ (t = 1 → ¬ Garbled old (frameOf body).length) := by
  have hmin : sizeofWord ≤ (frameOf body).length := by
    rw [frameOf_length]
    omega
  rw [← expected_eq hmax h]
  by_cases hzero : t = 0
  · rw [if_pos hzero]
    have hpos : 0 < maxMtu := by decide
    have hfour : 0 < sizeofWord := by decide
    exact iff_of_true (by omega) ⟨by omega, by omega⟩
  · rw [if_neg hzero]
    rcases Nat.lt_or_ge t sizeofWord with hlt | hge
    · by_cases hone : t = 1
      · subst hone
        rw [← word_one h]
        constructor
        · intro hw
          exact ⟨by omega, fun _ => by omega⟩
        · rintro ⟨_, hw⟩
          have := hw rfl
          omega
      · have hword := word_two_three hmax h (by omega) hlt
        exact iff_of_true (by omega) ⟨by omega, fun h1 => absurd h1 hone⟩
    · rw [h.word_complete hmax hge]
      have hfour : 1 < sizeofWord := by decide
      constructor
      · intro hw
        exact ⟨hw, by omega⟩
      · rintro ⟨hw, _⟩
        exact hw

theorem endsAt_nil {q : Nat} : EndsAt t [] q ↔ q = t := by
  constructor
  · rintro ⟨pre, post, hsplit, rfl⟩
    rw [(List.append_eq_nil_iff.mp hsplit.symm).1]
    rfl
  · rintro rfl
    exact ⟨[], [], rfl, rfl⟩

/-- A chunk that the loop asked for, and the rest of the loop. -/
theorem LoggedOutcome.cons {f : List UInt8} {r : List (Nat × Nat) × Except Stop Read}
    (hlt : t < f.length) (hclear : t = 1 → ¬ Garbled old f.length)
    (hfit : Fits (t, asked old f.length t))
    (h : LoggedOutcome old f more (t + chunk.length) chunks r) :
    LoggedOutcome old f more t (chunk :: chunks)
      ((t, asked old f.length t) :: r.1, r.2) := by
  have hends : ∀ pre : List (List UInt8),
      (EndsAt (t + chunk.length) pre 1 → ¬ Garbled old f.length) →
      EndsAt t (chunk :: pre) 1 → ¬ Garbled old f.length := by
    intro pre hrest hend
    rcases endsAt_cons.mp hend with hone | hend
    · exact hclear hone.symm
    · exact hrest hend
  have hadd : ∀ pre : List (List UInt8), t + (chunk :: pre).flatten.length =
      t + chunk.length + pre.flatten.length := by
    intro pre
    rw [List.flatten_cons, List.length_append, Nat.add_assoc]
  cases h with
  | @whole done rest mem log hreads hmem hfront hc hfits hasked =>
      rw [← hadd] at hfront ⊢
      refine .whole (hreads.cons hlt) hmem hfront (hends _ hc) ?_ ?_
      · intro r hr
        rcases List.mem_cons.mp hr with rfl | hr
        · exact hfit
        · exact hfits r hr
      · intro pre c post hsplit hpre
        cases pre with
        | nil => exact hfit
        | cons d pre =>
            injection hsplit with hd hsplit
            subst hd
            rw [hadd] at hpre ⊢
            exact hasked pre c post hsplit hpre
  | short he hmem hend hgarbled hfits =>
      refine .short he hmem (endsAt_cons.mpr (.inr hend)) hgarbled ?_
      intro r hr
      rcases List.mem_cons.mp hr with rfl | hr
      · exact hfit
      · exact hfits r hr
  | outside hlog hasked =>
      obtain ⟨r, hr, hnot⟩ := hlog
      obtain ⟨pre, c, post, hsplit, hpre, hguard, hover⟩ := hasked
      refine .outside ⟨r, List.mem_cons_of_mem _ hr, hnot⟩
        ⟨chunk :: pre, c, post, by rw [hsplit]; rfl, ?_, hends _ hguard, ?_⟩
      · rw [hadd]
        exact hpre
      · rw [hadd]
        exact hover

/-- When the loop stops without asking. -/
theorem asks_exit (hmax : (frameOf body).length ≤ maxMtu)
    (hmem : mem.length = maxMtu) (h : Front old (frameOf body ++ more) mem t)
    (hstop : ¬ t < asked old (frameOf body).length t) :
    LoggedOutcome old (frameOf body) more t chunks
      ([], .ok (.frame mem t (asked old (frameOf body).length t) chunks)) := by
  have hmin : sizeofWord ≤ (frameOf body).length := by
    rw [frameOf_length]
    omega
  have hnot := mt (lt_asked_iff hmax h).mpr hstop
  by_cases hlt : t < (frameOf body).length
  · -- One byte is there, and it reads as 0 or 1.
    rw [not_and, Classical.not_imp, not_not] at hnot
    obtain ⟨rfl, hgarbled⟩ := hnot hlt
    exact .short (by omega) hmem ⟨[], chunks, rfl, rfl⟩ hgarbled (by simp)
  · have hfour : sizeofWord ≤ t := by omega
    have hasked : asked old (frameOf body).length t = (frameOf body).length := by
      unfold asked
      rw [if_neg (by unfold sizeofWord at hfour; omega), if_neg (by omega)]
    have hreads : Reads (frameOf body).length t chunks [] chunks := by
      refine ⟨rfl, by simpa using hlt, ?_⟩
      intro pre post hsplit hpost
      exact absurd (List.append_eq_nil_iff.mp hsplit.symm).2 hpost
    rw [hasked]
    refine .whole hreads hmem h ?_ (by simp) ?_
    · intro hend
      have := hend.le
      unfold sizeofWord at hfour
      omega
    · intro pre c post _ hpre
      omega

/-- The loop over one frame. -/
theorem readFrameLogged_asks (hmax : (frameOf body).length ≤ maxMtu) :
    ∀ (chunks : List (List UInt8)) (mem : List UInt8) (t : Nat),
      (∀ c ∈ chunks, c ≠ []) → mem.length = maxMtu →
      Front old (frameOf body ++ more) mem t →
      chunks.flatten = (frameOf body ++ more).drop t →
      (∀ pre c post, chunks = pre ++ c :: post →
        t + pre.flatten.length < (frameOf body).length →
        (EndsAt t pre 1 → ¬ Garbled old (frameOf body).length) →
        c.length ≤ asked old (frameOf body).length (t + pre.flatten.length)) →
      LoggedOutcome old (frameOf body) more t chunks
        (readFrameLogged chunks mem t
          (if t = 0 then maxMtu else lengthWord mem)) := by
  intro chunks
  induction chunks with
  | nil =>
      intro mem t _ hmem h hflat _
      rw [expected_eq hmax h, readFrameLogged]
      -- The stream is at its end, so the frame is there.
      have hall := congrArg List.length hflat
      rw [List.length_drop, List.length_append, List.flatten_nil,
        List.length_nil] at hall
      have hstop : ¬ t < asked old (frameOf body).length t := by
        rw [lt_asked_iff hmax h]
        omega
      rw [if_neg hstop]
      exact asks_exit hmax hmem h hstop
  | cons chunk rest ih =>
      intro mem t hne hmem h hflat hlong
      rw [expected_eq hmax h, readFrameLogged]
      by_cases hlt : t < asked old (frameOf body).length t
      · obtain ⟨hbefore, hclear⟩ := (lt_asked_iff hmax h).mp hlt
        have hguard : EndsAt t [] 1 → ¬ Garbled old (frameOf body).length := by
          intro hend
          exact hclear (endsAt_nil.mp hend).symm
        have hchunk := hne chunk (by simp)
        have hle := hlong [] chunk rest rfl (by simpa using hbefore) hguard
        rw [List.flatten_nil, List.length_nil, Nat.add_zero] at hle
        rw [if_pos hlt, if_neg (by omega), if_neg hchunk]
        by_cases hfit : Fits (t, asked old (frameOf body).length t)
        · have hroom : t + chunk.length ≤ mem.length := by
            unfold Fits at hfit
            simp only at hfit
            omega
          obtain ⟨mem', hblit, hwrote⟩ := blit_spec _ _ _ hroom
          rw [hblit]
          rw [List.flatten_cons] at hflat
          have h' := h.chunk hflat.symm hchunk hblit
          have hpos := List.length_pos_of_ne_nil hchunk
          have hrest := ih mem' (t + chunk.length)
            (fun c hc => hne c (List.mem_cons_of_mem _ hc))
            (hwrote.length.trans hmem) h'
            (by rw [← List.drop_drop, ← hflat, List.drop_left])
            (by
              intro pre c post hsplit hpre hends
              have hadd : t + (chunk :: pre).flatten.length =
                  t + chunk.length + pre.flatten.length := by
                rw [List.flatten_cons, List.length_append, Nat.add_assoc]
              have := hlong (chunk :: pre) c post (by rw [hsplit]; rfl)
              rw [hadd] at this
              refine this hpre fun hend => ?_
              rcases endsAt_cons.mp hend with hone | hend
              · exact hclear hone.symm
              · exact hends hend)
          rw [if_neg (by omega)] at hrest
          exact hrest.cons hbefore hclear hfit
        · -- The request itself does not fit.
          have hover : ∃ pre c post, chunk :: rest = pre ++ c :: post ∧
              t + pre.flatten.length < (frameOf body).length ∧
              (EndsAt t pre 1 → ¬ Garbled old (frameOf body).length) ∧
              ¬ Fits (t + pre.flatten.length, asked old (frameOf body).length
                (t + pre.flatten.length)) :=
            ⟨[], chunk, rest, rfl, by simpa using hbefore, hguard,
              by simpa using hfit⟩
          cases blit mem t chunk with
          | none => exact .outside ⟨_, List.mem_cons_self .., hfit⟩ hover
          | some mem' => exact .outside ⟨_, List.mem_cons_self .., hfit⟩ hover
      · rw [if_neg hlt]
        exact asks_exit hmax hmem h hlt

end

/-! ## The three callers -/

/-- The loops that read frames: the application's on a socket, and the two of a
relay, which take a layer off or put one on. -/
inductive Caller where
  | socket (t : TorSocket)
  | relay (key : List UInt8) (encrypt : Bool)

/-- The local arrays of a call, and the nonce it draws. -/
structure Locals where
  nonce : Nonce
  buffer : Scratch
  buf : List UInt8

/-- One turn of a loop. A relay stops at an answer of `-1`, an application may
call again. -/
def Caller.call (copy : List UInt8 → Nat → Nat → Option (List UInt8)) (A : Aead)
    (x : Locals) (s : SharedBuffer) (chunks : List (List UInt8)) :
    Caller → Except Stop (Option (SharedBuffer × List (List UInt8)))
  | .socket t => do
      let (_, _, s', rest) ← recvDecryptOnionWith copy A t.rawKey
        (if t.isSender then t.numLayers else 0) x.buffer.val x.buf s chunks
      .ok (some (s', rest))
  | .relay key encrypt => do
      let (out, s', rest) ← recvCryptoSendWith copy A key encrypt x.nonce s chunks
      match out with
      | none => .ok none
      | some _ => .ok (some (s', rest))

/-- The requests of a loop, one turn for each of `xs`. -/
def requests (A : Aead) (c : Caller) :
    List Locals → SharedBuffer → List (List UInt8) → List (Nat × Nat)
  | [], _, _ => []
  | x :: xs, s, chunks => callLog s chunks ++
      match c.call shift A x s chunks with
      | .ok (some (s', rest)) => requests A c xs s' rest
      | _ => []

section

variable {A : Aead} {c : Caller} {x : Locals} {s s' : SharedBuffer}
  {chunks rest rest' : List (List UInt8)} {mem : List UInt8}
  {total expected : Nat}

/-- The end of a relay's turn. -/
theorem sent_on {e used : Nat} {out : List UInt8}
    (h : ((do
        let mem' ← checked (shift mem e used)
        .ok (some out, (⟨mem', used⟩ : SharedBuffer), rest) :
          Except Stop (Option (List UInt8) × SharedBuffer × List (List UInt8)))
        >>= fun r => match r.1 with
          | none => .ok none
          | some _ => .ok (some (r.2.1, r.2.2))) = .ok (some (s', rest'))) :
    shift mem e used = some s'.bytes ∧ s'.used = used ∧ rest' = rest := by
  cases hkeep : shift mem e used with
  | none =>
      rw [hkeep] at h
      cases h
  | some mem' =>
      rw [hkeep] at h
      cases h
      exact ⟨rfl, rfl, rfl⟩

/-- A turn that read a frame and goes on has moved what was read beyond it to
the front. -/
theorem call_frame (hread : recvWithHeaderSize s maxMtu chunks =
      .ok (.frame mem total expected rest))
    (h : c.call shift A x s chunks = .ok (some (s', rest'))) :
    (∃ body, slice mem sizeofWord (bodySize expected) = some body) ∧
      shift mem (bodySize expected + sizeofWord) (total - expected) =
        some s'.bytes ∧
      s'.used = total - expected ∧ rest' = rest := by
  cases c with
  | socket t =>
      rw [Caller.call, recvDecryptOnionWith, hread, ok_bind] at h
      simp only at h
      cases hbody : slice mem sizeofWord (bodySize expected) with
      | none =>
          rw [hbody] at h
          cases h
      | some body =>
          rw [hbody, checked_some, ok_bind] at h
          cases hblit : blit x.buffer.val 0 body with
          | none =>
              rw [hblit] at h
              cases h
          | some buffer =>
              rw [hblit, checked_some, ok_bind] at h
              cases hkeep : shift mem (bodySize expected + sizeofWord)
                  (total - expected) with
              | none =>
                  rw [hkeep] at h
                  cases h
              | some mem' =>
                  rw [hkeep, checked_some, ok_bind] at h
                  cases hlayers : decryptLayers A t.rawKey
                      ((if t.isSender then t.numLayers else 0) + 1) buffer x.buf
                      (bodySize expected) with
                  | error stop =>
                      rw [hlayers] at h
                      cases h
                  | ok r =>
                      rw [hlayers] at h
                      cases h
                      exact ⟨⟨body, rfl⟩, rfl, rfl, rfl⟩
  | relay key encrypt =>
      rw [Caller.call, recvCryptoSendWith, hread, ok_bind] at h
      simp only at h
      cases encrypt with
      | true =>
          rw [if_pos rfl] at h
          cases hbody : slice mem sizeofWord (bodySize expected) with
          | none =>
              rw [hbody] at h
              cases h
          | some body =>
              rw [hbody, checked_some, ok_bind] at h
              refine ⟨⟨body, rfl⟩, ?_⟩
              split at h
              · cases h
              · exact sent_on h
      | false =>
          rw [if_neg (by decide)] at h
          split at h
          · cases h
          · cases hbody : slice mem sizeofWord (bodySize expected) with
            | none =>
                rw [hbody] at h
                cases h
            | some body =>
                rw [hbody, checked_some, ok_bind] at h
                refine ⟨⟨body, rfl⟩, ?_⟩
                cases hopen : A.unseal key body with
                | none =>
                    rw [hopen] at h
                    cases h
                | some out =>
                    simp only [hopen] at h
                    split at h
                    · cases h
                    · exact sent_on h

/-- A copy that is defined moves the bytes as they are meant to. -/
theorem checked_shift {β : Type} {e used : Nat} {f : List UInt8 → Except Stop β} {r : β}
    (h : (checked (keep mem e used) >>= f) = .ok r) :
    (checked (shift mem e used) >>= f) = .ok r := by
  cases hkeep : keep mem e used with
  | none =>
      rw [hkeep] at h
      cases h
  | some mem' =>
      rw [shift_of_keep hkeep]
      rw [hkeep] at h
      exact h

theorem recvDecryptOnion_shift {key : List UInt8} {layer : Nat} {buffer buf : List UInt8}
    {r : Option Nat × List UInt8 × SharedBuffer × List (List UInt8)}
    (h : recvDecryptOnion A key layer buffer buf s chunks = .ok r) :
    recvDecryptOnionWith shift A key layer buffer buf s chunks = .ok r := by
  rw [recvDecryptOnion, recvDecryptOnionWith] at h
  rw [recvDecryptOnionWith]
  cases hread : recvWithHeaderSize s maxMtu chunks with
  | error stop =>
      rw [hread] at h
      cases h
  | ok read =>
      rw [hread, ok_bind] at h
      rw [ok_bind]
      cases read with
      | reset mem rest => exact h
      | frame mem total expected rest =>
          simp only at h ⊢
          cases hbody : slice mem sizeofWord (bodySize expected) with
          | none =>
              rw [hbody] at h
              cases h
          | some body =>
              rw [hbody, checked_some, ok_bind] at h
              rw [checked_some, ok_bind]
              cases hblit : blit buffer 0 body with
              | none =>
                  rw [hblit] at h
                  cases h
              | some buffer' =>
                  rw [hblit, checked_some, ok_bind] at h
                  rw [checked_some, ok_bind]
                  exact checked_shift h

theorem recvCryptoSend_shift {key : List UInt8} {encrypt : Bool} {nonce : Nonce}
    {r : Option (List UInt8) × SharedBuffer × List (List UInt8)}
    (h : recvCryptoSend A key encrypt nonce s chunks = .ok r) :
    recvCryptoSendWith shift A key encrypt nonce s chunks = .ok r := by
  rw [recvCryptoSend, recvCryptoSendWith] at h
  rw [recvCryptoSendWith]
  cases hread : recvWithHeaderSize s maxMtu chunks with
  | error stop =>
      rw [hread] at h
      cases h
  | ok read =>
      rw [hread, ok_bind] at h
      rw [ok_bind]
      cases read with
      | reset mem rest => exact h
      | frame mem total expected rest =>
          simp only at h ⊢
          split at h
          · next henc =>
              rw [if_pos henc]
              cases hbody : slice mem sizeofWord (bodySize expected) with
              | none =>
                  rw [hbody] at h
                  cases h
              | some body =>
                  rw [hbody, checked_some, ok_bind] at h
                  rw [checked_some, ok_bind]
                  split at h
                  · cases h
                  · next hfit =>
                      rw [if_neg hfit]
                      exact checked_shift h
          · next henc =>
              rw [if_neg henc]
              split at h
              · next hshort =>
                  rw [if_pos hshort]
                  exact h
              · next hlong =>
                  rw [if_neg hlong]
                  cases hbody : slice mem sizeofWord (bodySize expected) with
                  | none =>
                      rw [hbody] at h
                      cases h
                  | some body =>
                      rw [hbody, checked_some, ok_bind] at h
                      rw [checked_some, ok_bind]
                      cases hopen : A.unseal key body with
                      | none =>
                          rw [hopen] at h
                          exact h
                      | some out =>
                          simp only [hopen] at h ⊢
                          split at h
                          · cases h
                          · next hfit =>
                              rw [if_neg hfit]
                              exact checked_shift h

/-- As long as `memcpy` is defined, a turn is one of the sockets' own. -/
theorem Caller.call_of_keep {r : Option (SharedBuffer × List (List UInt8))}
    (h : c.call keep A x s chunks = .ok r) : c.call shift A x s chunks = .ok r := by
  cases c with
  | socket t =>
      rw [Caller.call] at h ⊢
      cases hrecv : t.recv A x.buffer.val x.buf s chunks with
      | error stop =>
          rw [show recvDecryptOnionWith keep A t.rawKey _ x.buffer.val x.buf s chunks = _
            from hrecv] at h
          cases h
      | ok out =>
          rw [show recvDecryptOnionWith keep A t.rawKey _ x.buffer.val x.buf s chunks = _
            from hrecv] at h
          rw [recvDecryptOnion_shift hrecv]
          exact h
  | relay key encrypt =>
      rw [Caller.call] at h ⊢
      cases hrecv : recvCryptoSend A key encrypt x.nonce s chunks with
      | error stop =>
          rw [show recvCryptoSendWith keep A key encrypt x.nonce s chunks = _
            from hrecv] at h
          cases h
      | ok out =>
          rw [show recvCryptoSendWith keep A key encrypt x.nonce s chunks = _
            from hrecv] at h
          rw [recvCryptoSend_shift hrecv]
          exact h

/-- Taking layers off stays inside the arrays. -/
theorem decryptLayers_ok {key : List UInt8} (hA : Authentic A key) (k : Nat)
    {buffer buf : List UInt8} {size : Nat} (hbuffer : buffer.length = maxMtu)
    (hbuf : buf.length = maxMtu) (hsize : size ≤ maxMtu) :
    ∃ r, decryptLayers A key k buffer buf size = .ok r := by
  induction k generalizing buffer buf size with
  | zero => exact ⟨_, rfl⟩
  | succ k ih =>
      rw [decryptLayers]
      by_cases hshort : size < npubBytes + aBytes
      · rw [if_pos hshort]
        exact ⟨_, rfl⟩
      · rw [if_neg hshort, slice_eq_some (by omega), checked_some, ok_bind]
        cases hopen : A.unseal key ((buffer.drop 0).take size) with
        | none => exact ⟨_, rfl⟩
        | some m =>
            have hlen := hA.body_length hopen
            rw [List.length_take] at hlen
            obtain ⟨buf', hb, hw⟩ := blit_spec buf 0 m (by omega)
            obtain ⟨buffer', hb', hw'⟩ := blit_spec buffer 0 m (by omega)
            simp only [hb, hb', checked_some, ok_bind]
            exact ih (hw'.length.trans hbuffer) (hw.length.trans hbuf) (by omega)

/-- What was read beyond a frame can be moved. -/
theorem shift_defined (mem : List UInt8) {expected used : Nat}
    (hmem : expected + used ≤ mem.length) :
    ∃ mem', shift mem expected used = some mem' := by
  unfold shift
  by_cases hzero : used = 0
  · exact ⟨mem, if_pos hzero⟩
  · rw [if_neg hzero, slice_eq_some hmem, Option.bind_some]
    obtain ⟨mem', hblit, _⟩ := blit_spec mem 0 ((mem.drop expected).take used)
      (by rw [List.length_take, List.length_drop]; omega)
    exact ⟨mem', hblit⟩

/-- An application's turn goes on. -/
theorem socket_call {t : TorSocket} (hA : Authentic A t.rawKey)
    (hbuf : x.buf.length = maxMtu)
    (hread : recvWithHeaderSize s maxMtu chunks =
      .ok (.frame mem total expected rest))
    (hmem : mem.length = maxMtu) (htotal : total ≤ mem.length)
    (hwhole : sizeofWord ≤ expected) (hle : expected ≤ total) :
    ∃ mem', shift mem expected (total - expected) = some mem' ∧
      (Caller.socket t).call shift A x s chunks =
        .ok (some (⟨mem', total - expected⟩, rest)) := by
  have hmtu : maxMtu < 2 ^ 32 := by decide
  have hbody : bodySize expected = expected - sizeofWord :=
    bodySize_eq hwhole (by omega)
  obtain ⟨mem', hkeep⟩ := shift_defined mem
    (show expected + (total - expected) ≤ mem.length by omega)
  refine ⟨mem', hkeep, ?_⟩
  have hfit : 0 + ((mem.take expected).drop sizeofWord).length ≤
      x.buffer.val.length := by
    rw [x.buffer.property, List.length_drop, List.length_take]
    omega
  obtain ⟨buffer, hb, hw⟩ := blit_spec x.buffer.val 0 _ hfit
  obtain ⟨r, hlayers⟩ := decryptLayers_ok (A := A) hA
    ((if t.isSender then t.numLayers else 0) + 1)
    (hw.length.trans x.buffer.property) hbuf
    (show bodySize expected ≤ maxMtu by omega)
  rw [Caller.call, recvDecryptOnionWith, hread, ok_bind]
  simp only [hbody, slice_body hwhole (show expected ≤ mem.length by omega),
    hb, checked_some, ok_bind, Nat.sub_add_cancel hwhole, hkeep]
  rw [hbody] at hlayers
  rw [hlayers]
  rfl

end

/-! ## A stream -/

/-- While `frames` are read from `chunks`, behind `t` bytes that are there
already, the chunk `c` answers a request of `n` bytes at `off`: `f` is the frame
being read, and the loop has not stopped at the first byte of `f` or of a frame
before it. -/
def ReadRequest (old : List UInt8) (frames : List (List UInt8)) (t : Nat)
    (chunks : List (List UInt8)) (off n : Nat) (c : List UInt8) : Prop :=
  ∃ fs f gs pre post, frames = fs ++ f :: gs ∧ chunks = pre ++ c :: post ∧
    fs.flatten.length ≤ t + pre.flatten.length ∧
    t + pre.flatten.length < fs.flatten.length + f.length ∧
    Legible old fs t chunks ∧
    (EndsAt t pre (fs.flatten.length + 1) →
      ¬ Garbled (staleWord old fs) f.length) ∧
    off = t + pre.flatten.length - fs.flatten.length ∧
    n = asked (staleWord old fs) f.length off

section

variable {old f : List UInt8} {frames chunks done rest pre post : List (List UInt8)}
  {t off n : Nat} {c : List UInt8}

theorem legible_nil : Legible old [] t chunks := by
  intro fs g gs hsplit
  simp at hsplit

/-- The requests for the first frame. -/
theorem request_head (hsplit : chunks = pre ++ c :: post)
    (hlt : t + pre.flatten.length < f.length)
    (hguard : EndsAt t pre 1 → ¬ Garbled old f.length) :
    ReadRequest old (f :: frames) t chunks (t + pre.flatten.length)
      (asked old f.length (t + pre.flatten.length)) c :=
  ⟨[], f, frames, pre, post, rfl, hsplit, by simp, by simpa using hlt,
    legible_nil, by simpa [staleWord] using hguard, by simp, rfl⟩

/-- The requests for the others. -/
theorem request_tail (hreads : Reads f.length t chunks done rest)
    (hclear : EndsAt t chunks 1 → ¬ Garbled old f.length)
    (h : ReadRequest (leBytes sizeofWord f.length) frames
      (t + done.flatten.length - f.length) rest off n c) :
    ReadRequest old (f :: frames) t chunks off n c := by
  obtain ⟨fs, g, gs, pre, post, hframes, hrest, hlow, hhigh, hsurv, hguard, hoff,
    hn⟩ := h
  have henough := hreads.enough
  have hlen : (f :: fs).flatten.length = f.length + fs.flatten.length := by
    rw [List.flatten_cons, List.length_append]
  have hpre : (done ++ pre).flatten.length =
      done.flatten.length + pre.flatten.length := by
    rw [List.flatten_append, List.length_append]
  refine ⟨f :: fs, g, gs, done ++ pre, post, by rw [hframes]; rfl, ?_, by omega,
    by omega, ?_, ?_, by omega, ?_⟩
  · rw [hreads.split, hrest, List.append_assoc]
  · exact (legible_cons hreads).mpr ⟨hclear, hsurv⟩
  · intro hend
    rw [hlen, Nat.add_assoc, endsAt_shift henough hreads.before] at hend
    exact hguard hend
  · rw [hn]
    rfl

/-- There are no others. -/
theorem request_cases (hreads : Reads f.length t chunks done rest)
    (h : ReadRequest old (f :: frames) t chunks off n c) :
    (∃ pre post, chunks = pre ++ c :: post ∧ t + pre.flatten.length < f.length ∧
      off = t + pre.flatten.length ∧ n = asked old f.length off) ∨
    ReadRequest (leBytes sizeofWord f.length) frames
      (t + done.flatten.length - f.length) rest off n c := by
  obtain ⟨fs, g, gs, pre, post, hframes, hchunks, hlow, hhigh, hsurv, hguard, hoff,
    hn⟩ := h
  have henough := hreads.enough
  cases fs with
  | nil =>
      injection hframes with hf _
      subst hf
      simp only [List.flatten_nil, List.length_nil, Nat.zero_add, Nat.sub_zero]
        at hhigh hoff
      exact .inl ⟨pre, post, hchunks, hhigh, hoff, hn⟩
  | cons f' fs =>
      injection hframes with hf hframes
      subst hf
      have hlen : (f :: fs).flatten.length = f.length + fs.flatten.length := by
        rw [List.flatten_cons, List.length_append]
      -- The frame was complete before this chunk came.
      obtain ⟨pre', rfl⟩ : ∃ pre', pre = done ++ pre' := by
        have hboth : done ++ rest = pre ++ c :: post := by
          rw [← hreads.split, hchunks]
        rcases List.append_eq_append_iff.mp hboth with
          ⟨pre', hpre, _⟩ | ⟨more, hdone, _⟩
        · exact ⟨pre', hpre⟩
        · by_cases hmore : more = []
          · exact ⟨[], by rw [hdone, hmore, List.append_nil, List.append_nil]⟩
          · have := hreads.before pre more hdone hmore
            omega
      have hpre : (done ++ pre').flatten.length =
          done.flatten.length + pre'.flatten.length := by
        rw [List.flatten_append, List.length_append]
      have hrest : rest = pre' ++ c :: post := by
        have hboth := hreads.split.symm.trans hchunks
        rw [List.append_assoc] at hboth
        exact List.append_cancel_left hboth
      obtain ⟨_, hsurv'⟩ := (legible_cons hreads).mp hsurv
      refine .inr ⟨fs, g, gs, pre', post, hframes, hrest, by omega, by omega,
        hsurv', ?_, by omega, hn⟩
      intro hend
      refine hguard ?_
      rw [hlen, Nat.add_assoc, endsAt_shift henough hreads.before]
      exact hend

variable {A : Aead} {mem : List UInt8} {bodies : List (List UInt8)}

/-- A request of a loop is one of its first turn, or one of the others. -/
theorem mem_requests_cons {caller : Caller} {x : Locals} {xs : List Locals}
    {s : SharedBuffer} {r : Nat × Nat} :
    r ∈ requests A caller (x :: xs) s chunks ↔ r ∈ callLog s chunks ∨
      ∃ s' rest', caller.call shift A x s chunks = .ok (some (s', rest')) ∧
        r ∈ requests A caller xs s' rest' := by
  rw [requests, List.mem_append]
  refine or_congr Iff.rfl ?_
  constructor
  · intro h
    split at h
    · next s' rest' hcall => exact ⟨s', rest', hcall, h⟩
    · cases h
  · rintro ⟨s', rest', hcall, h⟩
    rw [hcall]
    exact h

theorem recvWithHeaderSize_eq (s : SharedBuffer) (chunks : List (List UInt8)) :
    recvWithHeaderSize s maxMtu chunks = (readFrameLogged chunks s.bytes s.used
      (if s.used = 0 then maxMtu else lengthWord s.bytes)).2 :=
  (readFrameLogged_snd ..).symm

/-- A first byte that reads as the whole length ends the loop of the caller. -/
theorem call_short {caller : Caller} {x : Locals} {s s' : SharedBuffer}
    {rest' : List (List UInt8)} {e : Nat} (he : e ≤ 1) (hmem : mem.length = maxMtu)
    (hread : recvWithHeaderSize s maxMtu chunks = .ok (.frame mem 1 e rest)) :
    caller.call shift A x s chunks ≠ .ok (some (s', rest')) := by
  intro h
  obtain ⟨⟨body, hbody⟩, _⟩ := call_frame hread h
  have hin := (slice_bound hbody).1
  unfold bodySize sizeofWord maxMtu at *
  omega

/-- Behind the last frame only an empty buffer is read into. -/
theorem requests_end {caller : Caller} {s : SharedBuffer} (hused : s.used = 0)
    (xs : List Locals) : ∀ r ∈ requests A caller xs s [], Fits r := by
  induction xs generalizing s with
  | nil =>
      intro r hr
      cases hr
  | cons x xs ih =>
      have hlt : 0 < maxMtu := by decide
      have hread : recvWithHeaderSize s maxMtu [] = .ok (.reset s.bytes []) := by
        rw [recvWithHeaderSize, readFrame, hused, if_pos rfl, if_pos hlt]
      intro r hr
      rw [requests, callLog, readFrameLogged, hused, if_pos rfl, if_pos hlt] at hr
      rcases List.mem_append.mp hr with hr | hr
      · rw [List.mem_singleton.mp hr]
        exact Nat.le_of_eq (Nat.zero_add _)
      · cases caller with
        | socket t =>
            rw [Caller.call, recvDecryptOnionWith, hread] at hr
            exact ih hused r hr
        | relay key encrypt =>
            rw [Caller.call, recvCryptoSendWith, hread] at hr
            cases hr

/-- Requests that fit, as the cut brings them about, are logged ones that fit. -/
theorem requests_fit (caller : Caller)
    (hmax : ∀ b ∈ bodies, (frameOf b).length ≤ maxMtu) :
    ∀ (old mem : List UInt8) (t : Nat) (chunks : List (List UInt8))
      (xs : List Locals), (∀ c ∈ chunks, c ≠ []) → mem.length = maxMtu →
      Front old (bodies.map frameOf).flatten mem t →
      chunks.flatten = (bodies.map frameOf).flatten.drop t →
      (∀ off n c, ReadRequest old (bodies.map frameOf) t chunks off n c →
        c.length ≤ n ∧ Fits (off, n)) →
      ∀ r ∈ requests A caller xs ⟨mem, t⟩ chunks, Fits r := by
  induction bodies with
  | nil =>
      intro old mem t chunks xs hne _ h hflat _
      have hzero : t = 0 := Nat.le_zero.mp h.le
      have hnil : chunks = [] := by
        cases chunks with
        | nil => rfl
        | cons c cs =>
            rw [List.map_nil, List.flatten_nil, List.drop_nil] at hflat
            exact absurd (List.append_eq_nil_iff.mp hflat).1 (hne c (by simp))
      rw [hnil]
      exact requests_end hzero xs
  | cons body bodies ih =>
      intro old mem t chunks xs hne hmem h hflat hreq
      have hlen := hmax body (by simp)
      rw [List.map_cons] at h hflat hreq
      rw [List.flatten_cons] at h hflat
      cases xs with
      | nil =>
          intro r hr
          cases hr
      | cons x xs =>
          have hasks := readFrameLogged_asks hlen chunks mem t hne hmem h hflat
            fun pre c post hsplit hlt hguard =>
              (hreq _ _ c (request_head hsplit hlt hguard)).1
          have hread := recvWithHeaderSize_eq ⟨mem, t⟩ chunks
          intro r hr
          rw [mem_requests_cons, callLog] at hr
          simp only at hread hr
          generalize readFrameLogged chunks mem t
            (if t = 0 then maxMtu else lengthWord mem) = result at hasks hread hr
          cases hasks with
          | @whole done rest mem' log hreads hmem' hfront hclear hfits _ =>
              rcases hr with hlog | ⟨⟨bytes, used⟩, rest', hcall, hlater⟩
              · exact hfits r hlog
              · obtain ⟨_, hkeep, hused, hrest⟩ := call_frame hread hcall
                rw [bodySize_frame hlen, ← frameOf_length] at hkeep
                simp only at hkeep hused
                subst hused hrest
                have hin := (slice_bound hfront.front).1
                have henough := hreads.enough
                obtain ⟨hlen', hnext⟩ := hfront.next henough hkeep
                refine ih (fun b hb => hmax b (List.mem_cons_of_mem _ hb)) _
                  bytes _ rest' xs ?_ (hlen'.trans hmem') hnext
                  (hreads.rest_flatten hflat) ?_ r hlater
                · intro c hc
                  exact hne c (by rw [hreads.split]; simp [hc])
                · intro off n c hc
                  exact hreq off n c (request_tail hreads hclear hc)
          | short he hmem' _ _ hfits =>
              rcases hr with hlog | ⟨s', rest', hcall, _⟩
              · exact hfits r hlog
              · exact absurd hcall (call_short he hmem' hread)
          | outside _ hasked =>
              obtain ⟨pre, c, post, hsplit, hlt, hguard, hover⟩ := hasked
              exact absurd (hreq _ _ c (request_head hsplit hlt hguard)).2 hover

/-- Once a chunk has ended at `q`, the chunks up to any later place have. -/
theorem endsAt_pre {q : Nat} (hne : ∀ c ∈ chunks, c ≠ [])
    (hsplit : chunks = pre ++ post) (hle : q ≤ t + pre.flatten.length)
    (h : EndsAt t chunks q) : EndsAt t pre q := by
  obtain ⟨pre', post', hsplit', rfl⟩ := h
  rcases List.append_eq_append_iff.mp (hsplit.symm.trans hsplit') with
    ⟨more, hpre, _⟩ | ⟨more, hpre, _⟩
  · -- Nothing lies behind the place.
    cases more with
    | nil => exact ⟨pre', [], by rw [hpre]; simp, rfl⟩
    | cons d more =>
        have hd := List.length_pos_of_ne_nil (hne d (by rw [hsplit', hpre]; simp))
        rw [hpre, List.flatten_append, List.flatten_cons, List.length_append,
          List.length_append] at hle
        omega
  · exact ⟨pre', more, hpre, rfl⟩

/-- Of a frame whose first byte was taken for its length, only the request at the
empty buffer was made. -/
theorem fits_of_garbled (hne : ∀ c ∈ chunks, c ≠ []) (hend : EndsAt t chunks 1)
    (hgarbled : Garbled old f.length)
    (h : ReadRequest old (f :: frames) t chunks off n c) : Fits (off, n) := by
  obtain ⟨fs, g, gs, pre, post, hframes, hchunks, hlow, hhigh, hsurv, hguard, hoff,
    hn⟩ := h
  cases fs with
  | nil =>
      injection hframes with hf _
      subst hf
      simp only [List.flatten_nil, List.length_nil, Nat.sub_zero, Nat.zero_add]
        at hoff hguard
      have hzero : off = 0 := by
        by_contra hpos
        exact hguard (endsAt_pre hne hchunks (by omega) hend) hgarbled
      rw [hn, hzero]
      exact Nat.le_of_eq (Nat.zero_add _)
  | cons f' fs =>
      injection hframes with hf _
      subst hf
      exact absurd hgarbled (hsurv [] f fs rfl (by simpa using hend))

/-- The requests a cut brings about are made by an application that goes on
calling: if the logged ones fit, they do. -/
theorem fit_of_requests (tor : TorSocket) (hA : Authentic A tor.rawKey)
    (x : Locals) (hbuf : x.buf.length = maxMtu)
    (hmax : ∀ b ∈ bodies, (frameOf b).length ≤ maxMtu) :
    ∀ (old mem : List UInt8) (t : Nat) (chunks : List (List UInt8)),
      (∀ c ∈ chunks, c ≠ []) → mem.length = maxMtu →
      Front old (bodies.map frameOf).flatten mem t →
      chunks.flatten = (bodies.map frameOf).flatten.drop t →
      (∀ off n c, ReadRequest old (bodies.map frameOf) t chunks off n c →
        c.length ≤ n) →
      (∀ r ∈ requests A (.socket tor) (List.replicate bodies.length x) ⟨mem, t⟩
        chunks, Fits r) →
      ∀ off n c, ReadRequest old (bodies.map frameOf) t chunks off n c →
        Fits (off, n) := by
  induction bodies with
  | nil =>
      rintro old mem t chunks _ _ _ _ _ _ off n c ⟨fs, f, gs, _, _, hsplit, _⟩
      simp at hsplit
  | cons body bodies ih =>
      intro old mem t chunks hne hmem h hflat hlong hfit off n c hreq
      have hlen := hmax body (by simp)
      rw [List.map_cons] at h hflat hlong hreq
      rw [List.flatten_cons] at h hflat
      have hasks := readFrameLogged_asks hlen chunks mem t hne hmem h hflat
        fun pre c post hsplit hlt hguard =>
          hlong _ _ c (request_head hsplit hlt hguard)
      have hread := recvWithHeaderSize_eq ⟨mem, t⟩ chunks
      rw [List.length_cons, List.replicate_succ] at hfit
      simp only [mem_requests_cons, callLog] at hread hfit
      generalize readFrameLogged chunks mem t
        (if t = 0 then maxMtu else lengthWord mem) = result at hasks hread hfit
      cases hasks with
      | @whole done rest mem' log hreads hmem' hfront hclear _ hasked =>
          rcases request_cases hreads hreq with
            ⟨pre, post, hsplit, hlt, hoff, hn⟩ | hlater
          · rw [hn, hoff]
            exact hasked pre c post hsplit hlt
          · have hin := (slice_bound hfront.front).1
            obtain ⟨bytes, hkeep, hcall⟩ := socket_call (x := x) hA hbuf hread hmem'
              (by omega) (by rw [frameOf_length]; omega) hreads.enough
            obtain ⟨hlen', hnext⟩ := hfront.next hreads.enough hkeep
            refine ih (fun b hb => hmax b (List.mem_cons_of_mem _ hb)) _ bytes _ rest
              ?_ (hlen'.trans hmem') hnext (hreads.rest_flatten hflat) ?_ ?_ off n c
              hlater
            · intro c hc
              exact hne c (by rw [hreads.split]; simp [hc])
            · intro off n c hc
              exact hlong off n c (request_tail hreads hclear hc)
            · intro r hr
              exact hfit r (.inr ⟨_, _, hcall, hr⟩)
      | short _ _ hend hgarbled _ => exact fits_of_garbled hne hend hgarbled hreq
      | outside hlog _ =>
          obtain ⟨r, hr, hnot⟩ := hlog
          exact absurd (hfit r (.inl hr)) hnot

end

/-- **Where the onion sockets read**: over any cut of a stream of frames of at
most `MAX_MTU` bytes into chunks no longer than what was asked for, and from any
buffer, every request of the application's loop and of the two loops of a relay
fits `shared_buffer` exactly when, at every chunk, what is there of the frame
and what is asked for are together at most `MAX_MTU`. -/
theorem tor_requests_fit_iff (A : Aead) (key : List UInt8) (hA : Authentic A key)
    (bodies : List (List UInt8))
    (hmax : ∀ b ∈ bodies, (frameOf b).length ≤ maxMtu)
    (chunks : List (List UInt8))
    (hcut : chunks.flatten = (bodies.map frameOf).flatten)
    (hne : ∀ c ∈ chunks, c ≠ []) (buffer : Scratch)
    (hasked : ∀ off n c, ReadRequest (buffer.val.take sizeofWord)
      (bodies.map frameOf) 0 chunks off n c → c.length ≤ n) :
    (∀ (caller : Caller) (xs : List Locals),
        ∀ r ∈ requests A caller xs ⟨buffer.val, 0⟩ chunks, Fits r) ↔
      ∀ off n c, ReadRequest (buffer.val.take sizeofWord) (bodies.map frameOf) 0
        chunks off n c → Fits (off, n) := by
  have hfront : Front (buffer.val.take sizeofWord) (bodies.map frameOf).flatten
      buffer.val 0 := by
    refine ⟨Nat.zero_le _, slice_zero (Nat.zero_le _), fun _ => ?_⟩
    rw [slice_eq_some (by rw [buffer.property]; decide)]
    rfl
  constructor
  · intro h
    let tor : TorSocket := ⟨false, 0, fun _ => ⟨0, 0⟩, key⟩
    exact fit_of_requests tor hA
      ⟨zeroNonce, buffer, buffer.val⟩ buffer.property hmax _ _ 0 chunks hne
      buffer.property hfront hcut hasked (h (.socket tor) _)
  · intro h caller xs
    exact requests_fit caller hmax _ _ 0 chunks xs hne buffer.property hfront hcut
      fun off n c hc => ⟨hasked off n c hc, h off n c hc⟩

/-- A buffer of zeros. -/
def zeroBuffer : Scratch := zeros

/-- A frame that arrives whole is read with the one request at the empty
buffer. -/
theorem tor_requests_fit_iff_whole :
    (frameOf [7]).length ≤ maxMtu ∧
      ∀ (caller : Caller) (xs : List Locals),
        ∀ r ∈ requests taggedAead caller xs ⟨zeroBuffer.val, 0⟩ [frameOf [7]],
          Fits r := by
  have hfirst : ∀ off n c, ReadRequest (zeroBuffer.val.take sizeofWord)
      ([[7]].map frameOf) 0 [frameOf [7]] off n c →
      c = frameOf [7] ∧ off = 0 ∧ n = maxMtu := by
    rintro off n c ⟨fs, f, gs, pre, post, _, hchunks, _, _, _, _, hoff, hn⟩
    cases pre with
    | nil =>
        injection hchunks with hc _
        have hzero : off = 0 := by simpa using hoff
        refine ⟨hc.symm, hzero, ?_⟩
        rw [hn, hzero]
        rfl
    | cons d pre => simp at hchunks
  refine ⟨by decide, (tor_requests_fit_iff taggedAead [] (taggedAead_authentic [])
    [[7]] (by decide) [frameOf [7]] (by decide) (by decide) zeroBuffer ?_).mpr ?_⟩
  · intro off n c hc
    obtain ⟨rfl, _, rfl⟩ := hfirst off n c hc
    decide
  · intro off n c hc
    obtain ⟨_, rfl, rfl⟩ := hfirst off n c hc
    exact Nat.le_refl _

/-- The body of a frame of `MAX_MTU` bytes. -/
def longBody : List UInt8 := List.replicate (maxMtu - sizeofWord) 0

/-- A frame of `MAX_MTU` bytes of which a hundred arrive first: the next request
asks for all of it, a hundred bytes into the buffer. -/
theorem tor_request_overruns :
    ¬ ∀ (A : Aead) (key : List UInt8), Authentic A key →
      ∀ (bodies : List (List UInt8)),
        (∀ b ∈ bodies, (frameOf b).length ≤ maxMtu) →
      ∀ (chunks : List (List UInt8)),
        chunks.flatten = (bodies.map frameOf).flatten → (∀ c ∈ chunks, c ≠ []) →
      ∀ buffer : Scratch,
        (∀ off n c, ReadRequest (buffer.val.take sizeofWord) (bodies.map frameOf) 0
          chunks off n c → c.length ≤ n) →
      ∀ (caller : Caller) (xs : List Locals),
        ∀ r ∈ requests A caller xs ⟨buffer.val, 0⟩ chunks, Fits r := by
  intro h
  have hlong : ∀ off n c, ReadRequest (zeroBuffer.val.take sizeofWord)
      ([longBody].map frameOf) 0
      [(frameOf longBody).take 100, (frameOf longBody).drop 100] off n c →
      c.length ≤ n := by
    rintro off n c ⟨fs, f, gs, pre, post, hframes, hchunks, _, _, _, _, hoff, hn⟩
    have hhead : fs = [] ∧ f = frameOf longBody := by
      cases fs with
      | nil =>
          injection hframes with hf _
          exact ⟨rfl, hf.symm⟩
      | cons g fs => simp at hframes
    obtain ⟨rfl, rfl⟩ := hhead
    match pre, hchunks with
    | [], hchunks =>
        injection hchunks with hc _
        rw [hn, hoff, ← hc]
        decide +kernel
    | [d], hchunks =>
        injection hchunks with hd hchunks
        injection hchunks with hc _
        rw [hn, hoff, ← hc, ← hd]
        decide +kernel
    | _ :: _ :: pre, hchunks => simp at hchunks
  have hfit := h taggedAead [] (taggedAead_authentic []) [longBody]
    (by decide +kernel) [(frameOf longBody).take 100, (frameOf longBody).drop 100]
    (by decide +kernel) (by decide +kernel) zeroBuffer hlong (.relay [] true)
    [⟨zeroNonce, zeroBuffer, []⟩] (100, maxMtu)
    (mem_requests_cons.mpr (.inl (by decide +kernel)))
  exact absurd hfit (by unfold Fits; decide)

end Daenet.Proofs
