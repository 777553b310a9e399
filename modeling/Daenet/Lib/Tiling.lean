import Mathlib.Order.Bounds.Basic
import Mathlib.Data.Int.Order.Basic

/-!
# Blocks that follow one another

A block is a start and a size. `Tiles p bs e`: the blocks `bs`, one after the
other, cover everything from `p` to `e`, each starting where the one before it
ends. The end of the prefix that some of the blocks cover is where the first one
of the others starts.
-/

namespace Daenet.Lib

/-- A start and a size. -/
abbrev Block := Int × Int

variable {p e m x : Int} {b : Block} {bs cs : List Block}

/-- From `p` to `e`, block by block. -/
def Tiles (p : Int) : List Block → Int → Prop
  | [], e => p = e
  | b :: bs, e => b.1 = p ∧ Tiles (p + b.2) bs e

instance Tiles.decide : ∀ p bs e, Decidable (Tiles p bs e)
  | p, [], e => inferInstanceAs (Decidable (p = e))
  | p, b :: bs, e =>
      have := Tiles.decide (p + b.2) bs e
      inferInstanceAs (Decidable (b.1 = p ∧ Tiles (p + b.2) bs e))

/-- The block holds position `x`. -/
def Covers (b : Block) (x : Int) : Prop := b.1 ≤ x ∧ x < b.1 + b.2

theorem tiles_append : Tiles p (bs ++ cs) e ↔ ∃ m, Tiles p bs m ∧ Tiles m cs e := by
  induction bs generalizing p with
  | nil =>
      constructor
      · exact fun h => ⟨p, rfl, h⟩
      · rintro ⟨m, rfl, h⟩
        exact h
  | cons b bs ih =>
      constructor
      · rintro ⟨hb, h⟩
        obtain ⟨m, hm, hrest⟩ := ih.mp h
        exact ⟨m, ⟨hb, hm⟩, hrest⟩
      · rintro ⟨m, ⟨hb, hm⟩, hrest⟩
        exact ⟨hb, ih.mpr ⟨m, hm, hrest⟩⟩

theorem Tiles.le (h : Tiles p bs e) (hpos : ∀ b ∈ bs, 0 ≤ b.2) : p ≤ e := by
  induction bs generalizing p with
  | nil => exact Int.le_of_eq h
  | cons b bs ih =>
      have hb := hpos b (List.mem_cons_self ..)
      have hle := ih h.2 fun c hc => hpos c (List.mem_cons_of_mem b hc)
      omega

theorem Tiles.bounds (h : Tiles p bs e) (hpos : ∀ b ∈ bs, 0 ≤ b.2) (hb : b ∈ bs) :
    p ≤ b.1 ∧ b.1 + b.2 ≤ e := by
  obtain ⟨before, after, rfl⟩ := List.append_of_mem hb
  obtain ⟨m, hbefore, hm, hafter⟩ := tiles_append.mp h
  have hle := hbefore.le fun c hc => hpos c (List.mem_append_left _ hc)
  have hle' := hafter.le fun c hc =>
    hpos c (List.mem_append_right _ (List.mem_cons_of_mem b hc))
  omega

theorem Tiles.covers (h : Tiles p bs e) (hp : p ≤ x) (hx : x < e) : ∃ b ∈ bs, Covers b x := by
  induction bs generalizing p with
  | nil =>
      have heq : p = e := h
      omega
  | cons b bs ih =>
      by_cases hin : x < p + b.2
      · exact ⟨b, List.mem_cons_self .., by rw [h.1]; exact hp, by rw [h.1]; exact hin⟩
      · obtain ⟨c, hc, hcov⟩ := ih h.2 (by omega)
        exact ⟨c, List.mem_cons_of_mem b hc, hcov⟩

/-- Blocks that are not empty: the others are after the first one. -/
theorem Tiles.after_first (h : Tiles p (b :: bs) e) (hpos : ∀ c ∈ b :: bs, 0 < c.2) :
    ∀ c ∈ bs, p < c.1 := by
  intro c hc
  have hb := hpos b (List.mem_cons_self ..)
  have hle := (h.2.bounds
    (fun d hd => Int.le_of_lt (hpos d (List.mem_cons_of_mem b hd))) hc).1
  omega

theorem Tiles.nodup (h : Tiles p bs e) (hpos : ∀ b ∈ bs, 0 < b.2) : bs.Nodup := by
  induction bs generalizing p with
  | nil => exact List.nodup_nil
  | cons b bs ih =>
      refine List.nodup_cons.mpr
        ⟨fun hmem => ?_, ih h.2 fun c hc => hpos c (List.mem_cons_of_mem b hc)⟩
      have hlt := h.after_first hpos b hmem
      have hstart := h.1
      omega

/-- Nothing is left at the end, and only there. -/
theorem Tiles.end_iff (h : Tiles p bs e) (hpos : ∀ b ∈ bs, 0 < b.2) : p = e ↔ bs = [] := by
  constructor
  · intro heq
    cases bs with
    | nil => rfl
    | cons b bs =>
        have hb := hpos b (List.mem_cons_self ..)
        have hle := h.2.le fun c hc => Int.le_of_lt (hpos c (List.mem_cons_of_mem b hc))
        omega
  · rintro rfl
    exact h

/-- How far some of the blocks cover everything from the start: up to the first one
that is missing. -/
theorem Tiles.prefix_end (hbs : Tiles p bs m) (hcs : Tiles m cs e)
    (hpos : ∀ b ∈ bs ++ cs, 0 < b.2) {given : List Block}
    (hgiven : ∀ b ∈ bs, b ∈ given) (hsub : ∀ b ∈ given, b ∈ bs ++ cs)
    (hmissing : ∀ c ∈ cs.head?, c ∉ given) :
    IsGreatest {q | q ≤ e ∧ ∀ x, p ≤ x → x < q → ∃ b ∈ given, Covers b x} m := by
  have hpos' : ∀ b ∈ bs ++ cs, 0 ≤ b.2 := fun b hb => Int.le_of_lt (hpos b hb)
  refine ⟨⟨hcs.le fun c hc => hpos' c (List.mem_append_right _ hc), fun x hp hx => ?_⟩, ?_⟩
  · obtain ⟨b, hb, hcov⟩ := hbs.covers hp hx
    exact ⟨b, hgiven b hb, hcov⟩
  · rintro q ⟨hqe, hcover⟩
    by_contra hlt
    rw [not_le] at hlt
    cases cs with
    | nil =>
        have heq : m = e := hcs
        omega
    | cons c cs =>
        -- What holds `m` is the missing block: the others end before, or start after.
        have hpm := hbs.le fun b hb => hpos' b (List.mem_append_left _ hb)
        obtain ⟨b, hb, hcov⟩ := hcover m hpm hlt
        refine hmissing c rfl ?_
        have hc := hpos c (List.mem_append_right _ (List.mem_cons_self ..))
        rcases List.mem_append.mp (hsub b hb) with hin | hin
        · have hend := (hbs.bounds (fun d hd => hpos' d (List.mem_append_left _ hd)) hin).2
          exact absurd hcov.2 (by omega)
        · rcases List.mem_cons.mp hin with rfl | hin
          · exact hb
          · have hstart := (hcs.2.bounds (fun d hd => hpos' d
              (List.mem_append_right _ (List.mem_cons_of_mem c hd))) hin).1
            exact absurd hcov.1 (by omega)

end Daenet.Lib
