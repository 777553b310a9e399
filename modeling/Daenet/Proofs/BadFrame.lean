import Daenet.Proofs.Framing

/-!
# A frame that does not decrypt

`TcpSocket::recv` sets `used_buffer_size` to what it has read beyond the frame
before it decrypts, and moves these bytes to the front of the buffer only after
it has. When decryption fails it returns in between: the next call takes the
first bytes of the bad frame for the bytes that were read beyond it.

What the next calls read is then the stream with those bytes in the place of
its first ones. If decryption accepts only what encryption makes, this comes
out right in one case: the bytes of the bad frame, completed by what is still
to come of the next one, are themselves a frame with the same message. When
nothing was read beyond the bad frame this is so; when it was, the bytes would
have to agree by chance.
-/

namespace Daenet.Proofs

open Daenet.Lib Daenet.Ref

/-- Decryption accepts only what encryption makes: the tag is checked. -/
structure Authentic (A : Aead) (key : List UInt8) : Prop extends A.Lawful key where
  encrypt_decrypt : ∀ nonce c m, A.decrypt key nonce c = some m →
    c = A.encrypt key nonce m

/-- A call of `recv` that comes to a complete frame which does not decrypt:
the buffer then, how much is in it, how long the frame is, and the chunks that
are left. -/
structure BadFrame (A : Aead) (key : List UInt8) (s : TcpSocket) (size : Nat)
    (chunks : List (List UInt8)) (mem : List UInt8) (total expected : Nat)
    (rest : List (List UInt8)) : Prop where
  buffer : s.sharedBuffer.length = 2 * maxMtu
  used : s.usedBufferSize ≤ s.sharedBuffer.length
  read : readFrame chunks s.sharedBuffer s.usedBufferSize
      (if s.usedBufferSize = 0 then size else lengthWord s.sharedBuffer) =
    .ok (.frame mem total expected rest)
  whole : sizeofWord ≤ expected
  undecryptable : expected < sizeofWord + (npubBytes + aBytes) ∨
    A.unseal key ((mem.take expected).drop sizeofWord) = none

/-- What was read beyond a frame. -/
def leftOver (mem : List UInt8) (total expected : Nat) : List UInt8 :=
  (mem.drop expected).take (total - expected)

/-- The buffer with what was read beyond the frame moved to the front. -/
def moved (mem : List UInt8) (total expected : Nat) : List UInt8 :=
  leftOver mem total expected ++ mem.drop (total - expected)

/-- The first `used` bytes of the bad frame in the place of those of `f`. -/
def mixture (bad f : List UInt8) (used : Nat) : List UInt8 :=
  bad.take used ++ f.drop used

/-- The bytes of the bad frame, completed by what is still to come of `f`, are a
frame with the message of `f`. -/
def Completes (A : Aead) (key bad f m : List UInt8) (used : Nat) : Prop :=
  used < f.length ∧ lengthWord (mixture bad f used) = f.length ∧
    A.unseal key ((mixture bad f used).drop sizeofWord) = some m

section

variable {A : Aead} {key : List UInt8} {s : TcpSocket} {size : Nat}
  {chunks rest : List (List UInt8)} {mem : List UInt8} {total expected : Nat}

/-- The buffer and the length word behind a bad frame. -/
theorem BadFrame.facts
    (h : BadFrame A key s size chunks mem total expected rest) :
    mem.length = 2 * maxMtu ∧ total ≤ mem.length ∧ expected ≤ total ∧
      lengthWord mem = expected := by
  obtain ⟨done, _, htotal, hblit, hle, hword⟩ := readFrame_frame h.used h.read
  have hlen := (Wrote.of_blit hblit).length
  have hbound := blit_bound hblit
  have hwhole := h.whole
  refine ⟨hlen.trans h.buffer, by omega, hle, ?_⟩
  rcases hword with ⟨hnil, he⟩ | ⟨_, he⟩
  · -- Nothing was read, so the frame was there.
    subst hnil
    rw [List.flatten_nil, blit_nil h.used] at hblit
    injection hblit with hblit
    rw [List.flatten_nil, List.length_nil] at htotal
    have hpos : s.usedBufferSize ≠ 0 := by
      unfold sizeofWord at hwhole
      omega
    rw [if_neg hpos] at he
    rw [he, hblit]
  · exact he.symm

theorem bodySize_eq {e : Nat} (h : sizeofWord ≤ e) (hlt : e < 2 ^ 32) :
    bodySize e = e - sizeofWord := by
  unfold bodySize sizeofWord at *
  omega

theorem slice_body {e : Nat} (h : sizeofWord ≤ e) (hle : e ≤ mem.length) :
    slice mem sizeofWord (e - sizeofWord) =
      some ((mem.take e).drop sizeofWord) := by
  rw [slice_eq_some (by omega), List.drop_take]

/-- The call fails, and leaves the buffer as it has read it. -/
theorem BadFrame.recv
    (h : BadFrame A key s size chunks mem total expected rest) :
    s.recv A key size chunks = .ok (.failed, ⟨mem, total - expected⟩, rest) := by
  obtain ⟨hmem, htotal, hle, _⟩ := h.facts
  have hwhole := h.whole
  have hbody : bodySize expected = expected - sizeofWord :=
    bodySize_eq hwhole (by unfold maxMtu at hmem; omega)
  unfold TcpSocket.recv
  simp only [h.read, hbody, slice_body hwhole (show expected ≤ mem.length by omega)]
  by_cases hshort : expected - sizeofWord < npubBytes + aBytes
  · rw [if_pos hshort]
  · rw [if_neg hshort]
    have hfail : A.unseal key ((mem.take expected).drop sizeofWord) = none := by
      refine h.undecryptable.resolve_left ?_
      omega
    simp only [hfail]

/-- A message that was accepted: how long the frame it came in is. -/
theorem Authentic.body_length (hA : Authentic A key) {body m : List UInt8}
    (h : A.unseal key body = some m) :
    body.length = m.length + (npubBytes + aBytes) := by
  have hc := congrArg List.length (hA.encrypt_decrypt _ _ _ h)
  rw [hA.toLawful.length, List.length_drop] at hc
  unfold aBytes npubBytes at *
  omega

/-- The body of an accepted message is a sealed message. -/
theorem Authentic.sealed (hA : Authentic A key) {body m : List UInt8}
    (h : A.unseal key body = some m) :
    ∃ nonce : Nonce, body = A.seal key nonce m := by
  have hlen := hA.body_length h
  refine ⟨⟨body.take npubBytes, by rw [List.length_take]; omega⟩, ?_⟩
  show body = body.take npubBytes ++ A.encrypt key (body.take npubBytes) m
  rw [← hA.encrypt_decrypt _ _ _ h, List.take_append_drop]

theorem lengthWord_lt (mem : List UInt8) : lengthWord mem < 2 ^ 32 := by
  have h := leNat_lt (mem.take sizeofWord)
  have hle : 256 ^ (mem.take sizeofWord).length ≤ 256 ^ 4 :=
    Nat.pow_le_pow_right (by omega) (by rw [List.length_take]; exact Nat.min_le_left ..)
  unfold lengthWord
  omega

theorem lengthWord_take {e : Nat} (h : sizeofWord ≤ e) :
    lengthWord (mem.take e) = lengthWord mem := by
  unfold lengthWord
  rw [List.take_take, Nat.min_eq_left h]

/-- A call that returns a message: what it has read begins with the frame of
the message. -/
theorem recv_data (hA : Authentic A key) {used : Nat} {s' : TcpSocket}
    {m : List UInt8} (hmem : mem.length = 2 * maxMtu) (hused : used ≤ mem.length)
    (h : TcpSocket.recv A key ⟨mem, used⟩ maxMtu chunks = .ok (.data m, s', rest)) :
    ∃ done mem', chunks = done ++ rest ∧ blit mem used done.flatten = some mem' ∧
      lengthWord mem' = m.length + (npubBytes + aBytes) + sizeofWord ∧
      lengthWord mem' ≤ used + done.flatten.length ∧
      A.unseal key ((mem'.take (lengthWord mem')).drop sizeofWord) = some m := by
  unfold TcpSocket.recv at h
  simp only at h
  split at h
  · cases h
  · cases h
  · next mem' total e rest' hread =>
      obtain ⟨done, hsplit, htotal, hblit, hle, hword⟩ := readFrame_frame hused hread
      have hlen := (Wrote.of_blit hblit).length
      have hbound := blit_bound hblit
      have he : e = lengthWord mem' := by
        rcases hword with ⟨hnil, he⟩ | ⟨_, he⟩
        · subst hnil
          rw [List.flatten_nil, blit_nil hused, Option.some.injEq] at hblit
          rw [List.flatten_nil, List.length_nil] at htotal
          have hpos : used ≠ 0 := by
            intro hzero
            rw [if_pos hzero] at he
            have hmtu : 0 < maxMtu := by decide
            omega
          rw [he, if_neg hpos, hblit]
        · exact he
      have hword := lengthWord_lt mem'
      split at h
      · cases h
      · split at h
        · cases h
        · next body hslice =>
            have hin := (slice_bound hslice).1
            have hwhole : sizeofWord ≤ e := by
              by_contra hlt
              unfold bodySize sizeofWord maxMtu at *
              omega
            rw [bodySize_eq hwhole (by omega), slice_body hwhole (by omega)] at hslice
            injection hslice with hslice
            subst hslice
            split at h
            · cases h
            · next m' hopen =>
                split at h
                · cases h
                · split at h
                  · cases h
                  · cases h
                    have hsize := hA.body_length hopen
                    rw [List.length_drop, List.length_take] at hsize
                    subst he
                    exact ⟨done, mem', hsplit, hblit, by omega, by omega, hopen⟩

end

/-! ## The calls after it -/

section

variable {A : Aead} {key : List UInt8} {s : TcpSocket} {size : Nat}
  {chunks rest : List (List UInt8)} {mem : List UInt8} {total expected : Nat}
  {nonce : Nonce} {f m more : List UInt8}

theorem BadFrame.leftOver_length
    (h : BadFrame A key s size chunks mem total expected rest) :
    (leftOver mem total expected).length = total - expected := by
  obtain ⟨_, htotal, hle, _⟩ := h.facts
  unfold leftOver
  rw [List.length_take, List.length_drop]
  omega

/-- What is still to come, behind what was read beyond the bad frame. -/
theorem BadFrame.rest_eq
    (h : BadFrame A key s size chunks mem total expected rest)
    (hstream : leftOver mem total expected ++ rest.flatten = f ++ more) :
    rest.flatten = (f ++ more).drop (total - expected) := by
  rw [← hstream, List.drop_left' h.leftOver_length]

/-- A write behind a range leaves it. -/
theorem take_of_blit {mem mem' cells : List UInt8} {off e : Nat}
    (h : blit mem off cells = some mem') (hle : e ≤ off) :
    mem'.take e = mem.take e := by
  have hbound := blit_bound h
  rw [blit_eq_some hbound] at h
  injection h with h
  rw [← h, List.take_append_of_le_length (by rw [List.length_take]; omega),
    List.take_take, Nat.min_eq_left hle]

/-- A range that begins before a write and ends within it. -/
theorem take_of_blit_ge {mem mem' cells : List UInt8} {off e : Nat}
    (h : blit mem off cells = some mem') (hle : off ≤ e)
    (hge : e ≤ off + cells.length) :
    mem'.take e = mem.take off ++ cells.take (e - off) := by
  have hbound := blit_bound h
  have hlen : (mem.take off).length = off := by
    rw [List.length_take]
    omega
  rw [blit_eq_some hbound] at h
  injection h with h
  rw [← h, List.take_append, hlen, List.take_append_of_le_length (by omega),
    List.take_of_length_le (by omega)]

/-- If the next call returns the message of the next frame, the bytes of the bad
frame were completed to a frame with this message. -/
theorem completes_of_data (hA : Authentic A key)
    (h : BadFrame A key s size chunks mem total expected rest)
    (hsend : TcpSocket.send A key nonce m = some f)
    (hstream : leftOver mem total expected ++ rest.flatten = f ++ more)
    {s' : TcpSocket} {rest' : List (List UInt8)}
    (hdata : TcpSocket.recv A key ⟨mem, total - expected⟩ maxMtu rest =
      .ok (.data m, s', rest')) :
    Completes A key (mem.take expected) f m (total - expected) := by
  obtain ⟨hmem, htotal, hle, hword⟩ := h.facts
  have hrest := h.rest_eq hstream
  have hwhole := h.whole
  obtain ⟨hf, hlen, _⟩ := send_frame hA.toLawful hsend
  have hsize : f.length = m.length + (npubBytes + aBytes) + sizeofWord := by
    rw [hf, frameOf_length, seal_length hA.toLawful]
  obtain ⟨done, mem', hsplit, hblit, hword', hthere, hopen⟩ :=
    recv_data hA hmem (show total - expected ≤ mem.length by omega) hdata
  rw [hword', ← hsize] at hthere hopen
  -- With its length word there, the bad frame is what the next call reads.
  have hsame : sizeofWord ≤ total - expected → expected = f.length := by
    intro hword4
    rw [← hword, hsize, ← hword', ← lengthWord_take (Nat.le_refl _),
      ← take_of_blit hblit hword4, lengthWord_take (Nat.le_refl _)]
  have hlt : total - expected < f.length := by
    by_contra hge
    have he := hsame (by omega)
    rw [take_of_blit hblit (by omega), ← he] at hopen
    rcases h.undecryptable with hshort | hfail
    · omega
    · rw [hopen] at hfail
      cases hfail
  have hin : total - expected ≤ expected := by
    rcases Nat.lt_or_ge (total - expected) sizeofWord with hsmall | hbig
    · omega
    · have := hsame hbig
      omega
  have hmix : mem'.take f.length =
      mixture (mem.take expected) f (total - expected) := by
    rw [take_of_blit_ge hblit (by omega) hthere]
    unfold mixture
    rw [List.take_take, Nat.min_eq_left hin]
    refine congrArg (mem.take (total - expected) ++ ·) ?_
    have hdrop : f.drop (total - expected) ++ more =
        done.flatten ++ rest'.flatten := by
      rw [← List.drop_append_of_le_length (by omega), ← hrest, hsplit,
        List.flatten_append]
    have htake := congrArg (List.take (f.length - (total - expected))) hdrop
    rw [List.take_append_of_le_length (by rw [List.length_drop]),
      List.take_append_of_le_length (by omega),
      List.take_of_length_le (by rw [List.length_drop])] at htake
    exact htake.symm
  rw [hmix] at hopen
  refine ⟨hlt, ?_, hopen⟩
  rw [← hmix, lengthWord_take (by omega), hword', hsize]

/-- The bytes of the bad frame with those to come are a frame that `send` makes,
as long as the next one. -/
theorem Completes.sent (hA : Authentic A key)
    (h : BadFrame A key s size chunks mem total expected rest)
    (hsend : TcpSocket.send A key nonce m = some f)
    (hc : Completes A key (mem.take expected) f m (total - expected)) :
    total - expected ≤ expected ∧
      (mixture (mem.take expected) f (total - expected)).length = f.length ∧
      ∃ nonce' : Nonce, TcpSocket.send A key nonce' m =
        some (mixture (mem.take expected) f (total - expected)) := by
  obtain ⟨hlt, hword, hopen⟩ := hc
  obtain ⟨hmem, htotal, hle, hE⟩ := h.facts
  obtain ⟨hf, hlen, _⟩ := send_frame hA.toLawful hsend
  have hwhole := h.whole
  have hin : total - expected ≤ expected := by
    by_contra hgt
    have hbad : (mem.take expected).take (total - expected) = mem.take expected :=
      List.take_of_length_le (by rw [List.length_take]; omega)
    have hfront : (mixture (mem.take expected) f (total - expected)).take expected =
        mem.take expected := by
      unfold mixture
      rw [hbad]
      exact List.take_left' (by rw [List.length_take]; omega)
    rw [← lengthWord_take hwhole, hfront, lengthWord_take hwhole, hE] at hword
    omega
  have hglen : (mixture (mem.take expected) f (total - expected)).length =
      f.length := by
    unfold mixture
    rw [List.length_append, List.length_take, List.length_take, List.length_drop]
    omega
  refine ⟨hin, hglen, ?_⟩
  obtain ⟨nonce', hseal⟩ := hA.sealed hopen
  generalize mixture (mem.take expected) f (total - expected) = g at *
  have hframe : frameOf (A.seal key nonce' m) = g := by
    have hfour : (g.take sizeofWord).length = sizeofWord := by
      rw [List.length_take]
      have := hlen.1
      omega
    have hbytes := leBytes_leNat (g.take sizeofWord)
    rw [hfour] at hbytes
    have hbody : (g.drop sizeofWord).length + sizeofWord = f.length := by
      rw [List.length_drop]
      have := hlen.1
      omega
    unfold frameOf
    rw [← hseal, hbody, ← hword]
    unfold lengthWord
    rw [hbytes, List.take_append_drop]
  refine ⟨nonce', ?_⟩
  unfold TcpSocket.send
  simp only [hframe]
  rw [if_pos (by rw [hglen]; exact hlen.2)]

/-- Behind a frame that was read as it is, and behind one of the same length,
the stream is cut alike. -/
theorem survives_head {old g : List UInt8} {frames chunks : List (List UInt8)}
    {t : Nat} (hlen : g.length = f.length) :
    Survives old (g :: frames) t chunks ↔ Survives old (f :: frames) t chunks := by
  have hflat : ∀ fs : List (List UInt8),
      (g :: fs).flatten.length = (f :: fs).flatten.length := by
    intro fs
    rw [List.flatten_cons, List.flatten_cons, List.length_append,
      List.length_append, hlen]
  have hstale : ∀ fs : List (List UInt8),
      staleWord old (g :: fs) = staleWord old (f :: fs) := by
    intro fs
    rw [staleWord, staleWord, hlen]
  constructor
  · rintro ⟨hclear, hsnug⟩
    rw [forall_split_cons] at hclear hsnug
    simp only [hflat, hstale, hlen] at hclear hsnug
    exact ⟨forall_split_cons.mpr hclear, forall_split_cons.mpr hsnug⟩
  · rintro ⟨hclear, hsnug⟩
    rw [forall_split_cons] at hclear hsnug
    simp only [← hflat, ← hstale, ← hlen] at hclear hsnug
    exact ⟨forall_split_cons.mpr hclear, forall_split_cons.mpr hsnug⟩

/-- The buffer as the failed call leaves it holds the stream with the bytes of
the bad frame in the place of its first ones. -/
theorem BadFrame.holding
    (h : BadFrame A key s size chunks mem total expected rest)
    (hin : total - expected ≤ expected) :
    Holding (mem.take sizeofWord)
      (mixture (mem.take expected) f (total - expected) ++ more) mem
      (total - expected) := by
  obtain ⟨hmem, htotal, hle, _⟩ := h.facts
  have hbad : ((mem.take expected).take (total - expected)).length =
      total - expected := by
    rw [List.length_take, List.length_take]
    omega
  refine ⟨hmem, ?_, ?_, ?_⟩
  · rw [List.length_append, mixture, List.length_append, hbad]
    omega
  · rw [slice_eq_some (by omega), List.drop_zero, mixture, List.append_assoc,
      List.take_left' hbad, List.take_take, Nat.min_eq_left hin]
  · intro hword
    rw [slice_eq_some (by unfold sizeofWord maxMtu at *; omega), List.drop_take]

/-- With what was read beyond it moved to the front, the buffer holds the
stream. -/
theorem BadFrame.holding_moved
    (h : BadFrame A key s size chunks mem total expected rest)
    (hstream : leftOver mem total expected ++ rest.flatten = f ++ more) :
    Holding (mem.take sizeofWord) (f ++ more) (moved mem total expected)
      (total - expected) := by
  obtain ⟨hmem, htotal, hle, _⟩ := h.facts
  have hleft := h.leftOver_length
  have hmoved : (moved mem total expected).length = 2 * maxMtu := by
    rw [moved, List.length_append, hleft, List.length_drop]
    omega
  refine ⟨hmoved, ?_, ?_, ?_⟩
  · rw [← hstream, List.length_append, hleft]
    omega
  · rw [slice_eq_some (by omega), List.drop_zero, moved, List.take_left' hleft,
      ← hstream, List.take_left' hleft]
  · intro hword
    rw [slice_eq_some (by unfold sizeofWord maxMtu at *; omega), moved,
      List.drop_left' hleft, List.drop_take]

end

/-- What the first of several calls returns. -/
theorem recvAll_first {A : Aead} {key : List UInt8} {n : Nat} {s : TcpSocket}
    {chunks : List (List UInt8)} {r : Received} {results : List Received}
    (h : TcpSocket.recvAll A key (n + 1) s chunks = .ok (r :: results)) :
    ∃ s' rest, s.recv A key maxMtu chunks = .ok (r, s', rest) := by
  rw [TcpSocket.recvAll] at h
  split at h
  · cases h
  · next r' s' rest hrecv =>
      cases htail : TcpSocket.recvAll A key n s' rest with
      | error stop =>
          rw [htail] at h
          cases h
      | ok tail =>
          rw [htail] at h
          simp only [Except.map, Except.ok.injEq, List.cons.injEq] at h
          exact ⟨s', rest, by rw [hrecv, h.1]⟩

/-- **A frame that does not decrypt**: `recv` returns `-1`, and the next calls
return the frames behind it exactly when they would have without it, and the
bytes of the bad frame that stand in the place of those read beyond it are
completed by what is still to come to a frame with the same message. -/
theorem bad_frame_iff (A : Aead) (key : List UInt8) (hA : Authentic A key)
    (s : TcpSocket) (size : Nat) (chunks rest : List (List UInt8))
    (mem : List UInt8) (total expected : Nat)
    (hbad : BadFrame A key s size chunks mem total expected rest)
    (nonce : Nonce) (m f : List UInt8) (sent : List (Nonce × List UInt8))
    (frames : List (List UInt8))
    (hsent : List.Forall₂ (fun p f => TcpSocket.send A key p.1 p.2 = some f)
      ((nonce, m) :: sent) (f :: frames))
    (hstream : leftOver mem total expected ++ rest.flatten =
      (f :: frames).flatten)
    (hne : ∀ c ∈ rest, c ≠ [])
    (hasked : TcpSocket.recvAll A key (sent.length + 1)
      ⟨mem, total - expected⟩ rest ≠ .error .tooLong)
    (hasked' : TcpSocket.recvAll A key (sent.length + 1)
      ⟨moved mem total expected, total - expected⟩ rest ≠ .error .tooLong) :
    s.recv A key size chunks = .ok (.failed, ⟨mem, total - expected⟩, rest) ∧
    (TcpSocket.recvAll A key (sent.length + 1) ⟨mem, total - expected⟩ rest =
        .ok (((nonce, m) :: sent).map fun p => .data p.2) ↔
      TcpSocket.recvAll A key (sent.length + 1)
          ⟨moved mem total expected, total - expected⟩ rest =
        .ok (((nonce, m) :: sent).map fun p => .data p.2) ∧
      Completes A key (mem.take expected) f m (total - expected)) := by
  refine ⟨hbad.recv, ?_⟩
  cases hsent with
  | cons hsend hrest =>
      rw [List.flatten_cons] at hstream
      have hflat := hbad.rest_eq hstream
      have hmoved := recvAll_iff hA.toLawful (.cons hsend hrest) _ _ _ rest hne
        (hbad.holding_moved hstream) hflat hasked'
      -- When the bytes of the bad frame are completed, both streams are frames
      -- of the same lengths.
      have hboth : Completes A key (mem.take expected) f m (total - expected) →
          (TcpSocket.recvAll A key (sent.length + 1) ⟨mem, total - expected⟩ rest =
              .ok (((nonce, m) :: sent).map fun p => .data p.2) ↔
            TcpSocket.recvAll A key (sent.length + 1)
                ⟨moved mem total expected, total - expected⟩ rest =
              .ok (((nonce, m) :: sent).map fun p => .data p.2)) := by
        intro hc
        obtain ⟨hin, hglen, nonce', hsend'⟩ := hc.sent hA hbad hsend
        have hmix : rest.flatten =
            (mixture (mem.take expected) f (total - expected) ++
              frames.flatten).drop (total - expected) := by
          have hlen : ((mem.take expected).take (total - expected)).length =
              total - expected := by
            have := hbad.facts
            rw [List.length_take, List.length_take]
            omega
          rw [hflat, mixture, List.append_assoc, List.drop_left' hlen,
            List.drop_append_of_le_length (Nat.le_of_lt hc.1)]
        have hsent' : List.Forall₂
            (fun p f => TcpSocket.send A key p.1 p.2 = some f) ((nonce', m) :: sent)
            (mixture (mem.take expected) f (total - expected) :: frames) :=
          .cons hsend' hrest
        have hleft := recvAll_iff hA.toLawful hsent' _ _ _ rest hne
          (hbad.holding hin) hmix hasked
        exact hleft.trans ((and_congr_left fun _ => survives_head hglen).trans
          hmoved.symm)
      constructor
      · intro hok
        obtain ⟨s', rest', hdata⟩ := recvAll_first hok
        have hc := completes_of_data hA hbad hsend hstream hdata
        exact ⟨(hboth hc).mp hok, hc⟩
      · rintro ⟨hok, hc⟩
        exact (hboth hc).mpr hok

theorem taggedAead_authentic (key : List UInt8) : Authentic taggedAead key where
  toLawful := taggedAead_lawful key
  encrypt_decrypt nonce c m h := by
    simp only [taggedAead] at h ⊢
    split at h
    · next htag =>
        injection h with h
        rw [← h, ← htag, List.take_append_drop]
    · cases h

/-- A frame with a tag that is wrong. -/
def badTagged : List UInt8 := frameOf (zeroNonce.val ++ List.replicate aBytes 1)

/-- A buffer that holds these bytes and zeros. -/
def bufferOf (bytes : List UInt8) : List UInt8 :=
  bytes ++ List.replicate (2 * maxMtu - bytes.length) 0

theorem badFrame_buffered (f : List UInt8) (rest : List (List UInt8))
    (hbuffer : (bufferOf (badTagged ++ f)).length = 2 * maxMtu)
    (hfit : (badTagged ++ f).length ≤ 2 * maxMtu)
    (hword : lengthWord (bufferOf (badTagged ++ f)) = 32)
    (hfail : taggedAead.unseal []
      (((bufferOf (badTagged ++ f)).take 32).drop sizeofWord) = none) :
    BadFrame taggedAead [] ⟨bufferOf (badTagged ++ f), (badTagged ++ f).length⟩
      maxMtu rest (bufferOf (badTagged ++ f)) (badTagged ++ f).length 32 rest := by
  have hlen : 32 ≤ (badTagged ++ f).length := by
    rw [List.length_append, show badTagged.length = 32 from rfl]
    omega
  have hpos : (badTagged ++ f).length ≠ 0 := by omega
  refine ⟨hbuffer, by rw [hbuffer]; exact hfit, ?_, by decide, .inr hfail⟩
  simp only [hword, if_neg hpos]
  cases rest with
  | nil => rw [readFrame, if_neg (by omega)]
  | cons c cs => rw [readFrame, if_neg (by omega)]

/-- A frame that arrives behind the bad one. -/
theorem bad_frame_iff_behind :
    TcpSocket.recvAll taggedAead [] 1 ⟨bufferOf (badTagged ++ []), 0⟩
      [frameTagged []] = .ok [.data []] :=
  ((bad_frame_iff taggedAead [] (taggedAead_authentic [])
    ⟨bufferOf (badTagged ++ []), 32⟩ maxMtu [frameTagged []] [frameTagged []]
    (bufferOf (badTagged ++ [])) 32 32
    (badFrame_buffered [] _ (by decide +kernel) (by decide +kernel)
      (by decide +kernel) (by decide +kernel))
    zeroNonce [] (frameTagged []) [] [] (.cons (by decide +kernel) .nil)
    (by decide +kernel) (by decide +kernel) (by decide +kernel)
    (by decide +kernel)).2).mpr
    ⟨by decide +kernel, by decide +kernel, by decide +kernel, by decide +kernel⟩

/-- A frame that was read together with the bad one before it is lost. -/
theorem bad_frame_desynchronises :
    ¬ ∀ (A : Aead) (key : List UInt8), Authentic A key →
      ∀ (s : TcpSocket) (size : Nat) (chunks rest : List (List UInt8))
        (mem : List UInt8) (total expected : Nat),
        BadFrame A key s size chunks mem total expected rest →
        ∀ (sent : List (Nonce × List UInt8)) (frames : List (List UInt8)),
        List.Forall₂ (fun p f => TcpSocket.send A key p.1 p.2 = some f)
          sent frames →
        leftOver mem total expected ++ rest.flatten = frames.flatten →
        TcpSocket.recvAll A key sent.length
            ⟨moved mem total expected, total - expected⟩ rest =
          .ok (sent.map fun p => .data p.2) →
        TcpSocket.recvAll A key sent.length ⟨mem, total - expected⟩ rest =
          .ok (sent.map fun p => .data p.2) := by
  intro h
  have hbad := badFrame_buffered (frameTagged []) [] (by decide +kernel)
    (by decide +kernel) (by decide +kernel) (by decide +kernel)
  have hlost := h taggedAead [] (taggedAead_authentic []) _ maxMtu [] [] _ _ _ hbad
    [(zeroNonce, [])] [frameTagged []] (.cons (by decide +kernel) .nil)
    (by decide +kernel) (by decide +kernel)
  exact absurd hlost (by decide +kernel)

end Daenet.Proofs
