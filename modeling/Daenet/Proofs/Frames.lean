import Daenet.Ref.Frame

/-!
# Frames, read back

What both kinds of socket need of the frame format: the length word of a frame
that is in the buffer is the length of the frame, unsealing undoes sealing, and
a frame that arrives whole is read whole.
-/

namespace Daenet.Proofs

open Daenet.Lib Daenet.Ref

variable {A : Aead} {key body mem x : List UInt8}

@[simp] theorem frameOf_length : (frameOf body).length = body.length + sizeofWord := by
  rw [frameOf, List.length_append, leBytes_length, Nat.add_comm]

theorem seal_length (hA : A.Lawful key) (nonce : Nonce) (m : List UInt8) :
    (A.seal key nonce m).length = m.length + (npubBytes + aBytes) := by
  rw [Aead.seal, List.length_append, nonce.property, hA.length]
  omega

theorem unseal_seal (hA : A.Lawful key) (nonce : Nonce) (m : List UInt8) :
    A.unseal key (A.seal key nonce m) = some m := by
  unfold Aead.unseal Aead.seal
  rw [List.take_left' nonce.property, List.drop_left' nonce.property]
  exact hA.decrypt_encrypt nonce.val m

/-- The length word is read off the first four bytes. -/
theorem lengthWord_of_slice (h : slice mem 0 sizeofWord = some x) :
    lengthWord mem = leNat x := by
  have hb := (slice_bound h).1
  rw [slice_eq_some hb] at h
  injection h with h
  rw [lengthWord, ← h, List.drop_zero]

/-- A frame in the buffer: its length word, and its body behind it. -/
theorem frame_in_buffer (hfit : (frameOf body).length ≤ maxMtu)
    (h : slice mem 0 (frameOf body).length = some (frameOf body)) :
    lengthWord mem = (frameOf body).length ∧
      slice mem sizeofWord body.length = some body := by
  have hword : (leBytes sizeofWord (body.length + sizeofWord)).length = sizeofWord :=
    leBytes_length _ _
  have hlen : (frameOf body).length = sizeofWord + body.length := by
    rw [frameOf_length, Nat.add_comm]
  rw [hlen] at h
  obtain ⟨hw, hb⟩ := slice_add h
  rw [frameOf, List.take_left' hword] at hw
  rw [frameOf, List.drop_left' hword, Nat.zero_add] at hb
  refine ⟨?_, hb⟩
  rw [lengthWord_of_slice hw, leNat_leBytes, frameOf_length]
  rw [frameOf_length] at hfit
  refine Nat.mod_eq_of_lt ?_
  unfold maxMtu sizeofWord at *
  omega

theorem bodySize_frame (hfit : (frameOf body).length ≤ maxMtu) :
    bodySize (frameOf body).length = body.length := by
  rw [frameOf_length] at *
  unfold bodySize maxMtu sizeofWord at *
  omega

/-- A frame that arrives in one chunk at an empty buffer. -/
theorem readFrame_whole (hmem : mem.length = maxMtu)
    (hfit : (frameOf body).length ≤ maxMtu) :
    ∃ mem', readFrame [frameOf body] mem 0 maxMtu =
        .ok (.frame mem' (frameOf body).length (frameOf body).length []) ∧
      mem'.length = maxMtu ∧ slice mem' sizeofWord body.length = some body := by
  obtain ⟨mem', hblit, hwrote⟩ := blit_spec mem 0 (frameOf body)
    (by omega)
  obtain ⟨hword, hbody⟩ := frame_in_buffer hfit hwrote.here
  have hne : frameOf body ≠ [] := by
    intro h
    have := congrArg List.length h
    rw [frameOf_length] at this
    exact absurd this (by simp [sizeofWord])
  refine ⟨mem', ?_, hwrote.length.trans hmem, hbody⟩
  rw [readFrame, if_pos (by decide), if_neg (by omega), if_neg hne, hblit]
  show readFrame [] mem' (0 + _) _ = _
  rw [readFrame, hword, Nat.zero_add, if_neg (Nat.lt_irrefl _)]

/-- What a frame reader that came to a frame has done: it has written some of
the chunks behind what was there, and read the length word if it read at all. -/
theorem readFrame_frame {chunks rest : List (List UInt8)} {mem' : List UInt8}
    {t e total e' : Nat} (ht : t ≤ mem.length)
    (h : readFrame chunks mem t e = .ok (.frame mem' total e' rest)) :
    ∃ done, chunks = done ++ rest ∧ total = t + done.flatten.length ∧
      blit mem t done.flatten = some mem' ∧ e' ≤ total ∧
      (done = [] ∧ e' = e ∨ done ≠ [] ∧ e' = lengthWord mem') := by
  induction chunks generalizing mem t e with
  | nil =>
      rw [readFrame] at h
      split at h
      · cases h
      · next hge =>
          cases h
          exact ⟨[], rfl, rfl, blit_nil ht, by omega, .inl ⟨rfl, rfl⟩⟩
  | cons chunk chunks ih =>
      rw [readFrame] at h
      by_cases hlt : t < e
      · rw [if_pos hlt] at h
        by_cases hlong : e < chunk.length
        · rw [if_pos hlong] at h
          cases h
        rw [if_neg hlong] at h
        by_cases hempty : chunk = []
        · rw [if_pos hempty] at h
          cases h
        rw [if_neg hempty] at h
        cases hblit : blit mem t chunk with
        | none => rw [hblit] at h; cases h
        | some mem₁ =>
            rw [hblit] at h
            have hbound := blit_bound hblit
            have hlen := (Wrote.of_blit hblit).length
            obtain ⟨done, hsplit, htotal, hdone, hle, hword⟩ :=
              ih (by omega) h
            refine ⟨chunk :: done, by rw [hsplit]; rfl, ?_, ?_, hle, .inr ⟨by simp, ?_⟩⟩
            · rw [htotal, List.flatten_cons, List.length_append, Nat.add_assoc]
            · rw [List.flatten_cons]
              exact blit_append hblit hdone
            · rcases hword with ⟨hnil, he⟩ | ⟨_, he⟩
              · rw [hnil, List.flatten_nil, blit_nil (by omega)] at hdone
                injection hdone with hdone
                rw [he, hdone]
              · exact he
      · rw [if_neg hlt] at h
        cases h
        exact ⟨[], rfl, rfl, blit_nil ht, by omega, .inl ⟨rfl, rfl⟩⟩

/-- A cipher for the concrete cases: the text itself and a tag of zeros. -/
def taggedAead : Aead where
  encrypt _ _ m := m ++ List.replicate aBytes 0
  decrypt _ _ c :=
    if c.drop (c.length - aBytes) = List.replicate aBytes 0 then
      some (c.take (c.length - aBytes))
    else none

theorem taggedAead_lawful (key : List UInt8) : taggedAead.Lawful key where
  length nonce m := by simp [taggedAead]
  decrypt_encrypt nonce m := by simp [taggedAead]

def zeroNonce : Nonce := ⟨List.replicate npubBytes 0, List.length_replicate⟩

end Daenet.Proofs
