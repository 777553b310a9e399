import Mathlib.Algebra.Group.Int.Defs
import Mathlib.Algebra.Group.Nat.Defs
import Mathlib.Data.List.Basic

/-!
# Reading words and numbers from a text

A text is read from the front: a word is what stands before the next blank, a number the
digits that stand there, with a sign. A failed read ends the reading.

Texts are also written. What has been written as a word or as a number and is followed
by a blank is read back as it was, and the rest of the text is left (`readWord_append`,
`readInt_digits`). A text with nothing but records in it is read record by record
(`records_eq`), and there are no more of them than there are characters.
-/

namespace Daenet.Lib

/-- The characters between words. -/
def isBlank (c : Char) : Bool := c == ' ' || (9 ≤ c.toNat && c.toNat ≤ 13)

/-- The next word, and the text behind it. -/
def readWord (text : List Char) : Option (List Char × List Char) :=
  let text := text.dropWhile isBlank
  let word := text.takeWhile (!isBlank ·)
  if word.isEmpty then none else some (word, text.dropWhile (!isBlank ·))

/-- The digits at the front, as a number. -/
def readDigits (text : List Char) : Option (Nat × List Char) :=
  let digits := text.takeWhile Char.isDigit
  if digits.isEmpty then none
  else some (Nat.ofDigitChars 10 digits 0, text.dropWhile Char.isDigit)

/-- The sign at the front, if there is one. -/
def readSign : List Char → Int × List Char
  | '-' :: text => (-1, text)
  | '+' :: text => (1, text)
  | text => (1, text)

/-- The next number, which must be one of 32 bits, and the text behind it. -/
def readInt (text : List Char) : Option (Int × List Char) :=
  let (sign, text) := readSign (text.dropWhile isBlank)
  match readDigits text with
  | none => none
  | some (n, rest) =>
      if -2 ^ 31 ≤ sign * n ∧ sign * n < 2 ^ 31 then some (sign * n, rest) else none

/-- The records of a text, read until one fails; no more than `fuel`. -/
def readAll {α : Type} (read : List Char → Option (α × List Char)) :
    Nat → List Char → List α
  | 0, _ => []
  | fuel + 1, text =>
      match read text with
      | none => []
      | some (a, rest) => a :: readAll read fuel rest

/-- The records of a text. -/
def records {α : Type} (read : List Char → Option (α × List Char)) (text : List Char) :
    List α :=
  readAll read text.length text

/-- A reader that takes something off the text. -/
def Consumes {α : Type} (read : List Char → Option (α × List Char)) : Prop :=
  ∀ text a rest, read text = some (a, rest) → rest.length < text.length

section Records

variable {α : Type} {read : List Char → Option (α × List Char)}

/-- As many turns as there are characters are enough. -/
theorem readAll_fuel (h : Consumes read) {fuel : Nat} {text : List Char}
    (hfuel : text.length ≤ fuel) : readAll read fuel text = records read text := by
  unfold records
  induction fuel using Nat.strongRecOn generalizing text with
  | ind fuel ih =>
      cases fuel with
      | zero =>
          have hlen : text.length = 0 := Nat.le_zero.mp hfuel
          rw [hlen]
      | succ fuel =>
          cases hread : read text with
          | none =>
              cases hlen : text.length with
              | zero => simp only [readAll, hread]
              | succ n => simp only [readAll, hread]
          | some p =>
              obtain ⟨a, rest⟩ := p
              have hlt := h text a rest hread
              cases hlen : text.length with
              | zero => omega
              | succ n =>
                  simp only [readAll, hread]
                  rw [ih fuel (Nat.lt_succ_self fuel) (by omega),
                    ih n (by omega) (by omega)]

theorem records_eq (h : Consumes read) (text : List Char) :
    records read text = match read text with
      | none => []
      | some (a, rest) => a :: records read rest := by
  rw [← readAll_fuel h (Nat.le_succ text.length)]
  cases hread : read text with
  | none => simp only [readAll, hread]
  | some p =>
      obtain ⟨a, rest⟩ := p
      have hlt := h text a rest hread
      simp only [readAll, hread]
      rw [readAll_fuel h (by omega)]

end Records

section Words

variable {w text rest : List Char} {c : Char}

/-- Something that can be read back as one word. -/
structure IsWord (w : List Char) : Prop where
  ne_nil : w ≠ []
  not_blank : ∀ c ∈ w, isBlank c = false

theorem isWord_of_all (hne : w.isEmpty = false) (h : w.all (!isBlank ·) = true) :
    IsWord w where
  ne_nil := fun hnil => by
    rw [hnil] at hne
    cases hne
  not_blank := fun c hc => by simpa using List.all_eq_true.mp h c hc

/-- A text at whose front a word ends. -/
def EndsWord (rest : List Char) : Prop := ∀ c, rest.head? = some c → isBlank c = true

theorem endsWord_nil : EndsWord [] := fun _ h => nomatch h

theorem endsWord_cons (hc : isBlank c = true) : EndsWord (c :: rest) := by
  intro d hd
  injection hd with hd
  rw [← hd]
  exact hc

theorem takeWhile_append_ends (p : Char → Bool) (w rest : List Char) (hw : ∀ c ∈ w, p c = true)
    (hrest : ∀ c, rest.head? = some c → p c = false) :
    (w ++ rest).takeWhile p = w ∧ (w ++ rest).dropWhile p = rest := by
  have hnil : rest.takeWhile p = [] ∧ rest.dropWhile p = rest := by
    cases rest with
    | nil => exact ⟨rfl, rfl⟩
    | cons c cs =>
        have hc := hrest c rfl
        exact ⟨List.takeWhile_cons_of_neg (by simp [hc]),
          List.dropWhile_cons_of_neg (by simp [hc])⟩
  rw [List.takeWhile_append_of_pos hw, List.dropWhile_append_of_pos hw, hnil.1, hnil.2,
    List.append_nil]
  exact ⟨rfl, rfl⟩

theorem dropWhile_isBlank_of_word (hw : IsWord w) :
    (w ++ rest).dropWhile isBlank = w ++ rest := by
  cases hcase : w with
  | nil => exact absurd hcase hw.ne_nil
  | cons c cs =>
      have hc := hw.not_blank c (by rw [hcase]; exact List.mem_cons_self ..)
      rw [List.cons_append]
      exact List.dropWhile_cons_of_neg (by simp [hc])

/-- A word that was written is read back. -/
theorem readWord_append (hw : IsWord w) (hrest : EndsWord rest) :
    readWord (w ++ rest) = some (w, rest) := by
  obtain ⟨htake, hdrop⟩ := takeWhile_append_ends (!isBlank ·) w rest
    (fun c hc => by simp [hw.not_blank c hc]) (fun c hc => by simp [hrest c hc])
  unfold readWord
  rw [dropWhile_isBlank_of_word hw]
  simp only [htake, hdrop]
  rw [if_neg (by simpa using hw.ne_nil)]

theorem readWord_blank (hc : isBlank c = true) : readWord (c :: text) = readWord text := by
  unfold readWord
  rw [List.dropWhile_cons_of_pos hc]

theorem readInt_blank (hc : isBlank c = true) : readInt (c :: text) = readInt text := by
  unfold readInt
  rw [List.dropWhile_cons_of_pos hc]

theorem not_isDigit_of_isBlank (hc : isBlank c = true) : c.isDigit = false := by
  unfold isBlank at hc
  rw [Bool.eq_false_iff]
  intro hd
  have h48 : 48 ≤ c.toNat := by
    have := (Bool.and_eq_true_iff.mp hd).1
    exact of_decide_eq_true this
  rcases Bool.or_eq_true_iff.mp hc with h | h
  · rw [eq_of_beq h] at h48
    exact absurd h48 (by decide)
  · have := of_decide_eq_true (Bool.and_eq_true_iff.mp h).2
    omega

theorem isBlank_of_isDigit (hc : c.isDigit = true) : isBlank c = false := by
  rw [Bool.eq_false_iff]
  intro hb
  rw [not_isDigit_of_isBlank hb] at hc
  exact Bool.false_ne_true hc

theorem isWord_digits (n : Nat) : IsWord (Nat.toDigits 10 n) where
  ne_nil := Nat.toDigits_ne_nil
  not_blank := fun _ hc =>
    isBlank_of_isDigit (Nat.isDigit_of_mem_toDigits (by decide) (by decide) hc)

theorem readDigits_toDigits (n : Nat) (hrest : EndsWord rest) :
    readDigits (Nat.toDigits 10 n ++ rest) = some (n, rest) := by
  obtain ⟨htake, hdrop⟩ := takeWhile_append_ends Char.isDigit (Nat.toDigits 10 n) rest
    (fun c hc => Nat.isDigit_of_mem_toDigits (by decide) (by decide) hc)
    (fun c hc => not_isDigit_of_isBlank (hrest c hc))
  unfold readDigits
  simp only [htake, hdrop]
  rw [if_neg (by simp), Nat.ofDigitChars_ten_toDigits]

theorem readSign_digits (n : Nat) (rest : List Char) :
    readSign (Nat.toDigits 10 n ++ rest) = (1, Nat.toDigits 10 n ++ rest) := by
  cases hd : Nat.toDigits 10 n with
  | nil => exact absurd hd Nat.toDigits_ne_nil
  | cons c cs =>
      have hc : c.isDigit = true := Nat.isDigit_of_mem_toDigits (b := 10) (n := n)
        (by decide) (by decide) (by rw [hd]; exact List.mem_cons_self ..)
      rw [List.cons_append]
      unfold readSign
      split
      · next h =>
          injection h with h
          rw [h] at hc
          exact absurd hc (by decide)
      · next h =>
          injection h with h
          rw [h] at hc
          exact absurd hc (by decide)
      · rfl

/-- A number that was written is read back. -/
theorem readInt_digits {n : Nat} (hn : n < 2 ^ 31) (hrest : EndsWord rest) :
    readInt (Nat.toDigits 10 n ++ rest) = some ((n : Int), rest) := by
  unfold readInt
  rw [dropWhile_isBlank_of_word (isWord_digits n), readSign_digits]
  simp only [readDigits_toDigits n hrest, Int.one_mul]
  rw [if_pos (by omega)]

theorem length_dropWhile_le (p : Char → Bool) (text : List Char) :
    (text.dropWhile p).length ≤ text.length :=
  (List.dropWhile_sublist p).length_le

/-- A word is taken off the text. -/
theorem readWord_length (h : readWord text = some (w, rest)) :
    rest.length < text.length := by
  unfold readWord at h
  simp only at h
  split at h
  · cases h
  · next hne =>
      cases h
      have hsplit := congrArg List.length
        (List.takeWhile_append_dropWhile (p := (!isBlank ·)) (l := text.dropWhile isBlank))
      rw [List.length_append] at hsplit
      have hpos : 0 < ((text.dropWhile isBlank).takeWhile (!isBlank ·)).length := by
        rw [List.length_pos_iff]
        simpa using hne
      have hle := length_dropWhile_le isBlank text
      omega

theorem readDigits_length {n : Nat} (h : readDigits text = some (n, rest)) :
    rest.length ≤ text.length := by
  unfold readDigits at h
  simp only at h
  split at h
  · cases h
  · cases h
    exact length_dropWhile_le _ text

theorem readSign_length (text : List Char) : (readSign text).2.length ≤ text.length := by
  unfold readSign
  split
  · exact Nat.le_succ _
  · exact Nat.le_succ _
  · exact Nat.le_refl _

theorem readInt_length {z : Int} (h : readInt text = some (z, rest)) :
    rest.length ≤ text.length := by
  have hblank := length_dropWhile_le isBlank text
  have hsign := readSign_length (text.dropWhile isBlank)
  unfold readInt at h
  simp only at h
  split at h
  · cases h
  · next n r hread =>
      have hdigits := readDigits_length hread
      split at h
      · cases h
        omega
      · cases h

end Words

end Daenet.Lib
