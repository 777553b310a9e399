/-!
# Runs that can fail

A machine whose steps are partial: `none` is a step after which nothing is known. A
run is a `foldlM`, and what is proved of it is proved of the runs that come to an end.

Besides the invariant rule there is the one for what an observer learns. Some actions
are to be hidden, and the observer sees a view of the state. If a hidden action leaves
the view alone and any other acts on the view by itself, then the view at the end of a
run is that of the run without the hidden actions.
-/

namespace Daenet.Lib

variable {σ α τ : Type} {step : σ → α → Option σ} {I : σ → Prop} {s t : σ} {acts : List α}

/-- What the steps of a run keep the run keeps. -/
theorem foldlM_inv_mem (hinv : ∀ a ∈ acts, ∀ s t, I s → step s a = some t → I t) (hs : I s)
    (h : acts.foldlM step s = some t) : I t := by
  induction acts generalizing s with
  | nil =>
      cases h
      exact hs
  | cons a acts ih =>
      obtain ⟨s', hstep, hrest⟩ := Option.bind_eq_some_iff.mp h
      exact ih (fun b hb => hinv b (List.mem_cons_of_mem a hb))
        (hinv a (List.mem_cons_self ..) s s' hs hstep) hrest

/-- What every step keeps a run keeps. -/
theorem foldlM_inv (hinv : ∀ s a t, I s → step s a = some t → I t) (hs : I s)
    (h : acts.foldlM step s = some t) : I t :=
  foldlM_inv_mem (fun a _ s t => hinv s a t) hs h

/-- The view at the end is that of the run without the hidden actions. -/
theorem foldlM_view {view : σ → τ} {shown : α → Bool} {see : τ → α → τ}
    (hshown : ∀ s a t, shown a = true → step s a = some t → view t = see (view s) a)
    (hhidden : ∀ s a t, shown a = false → step s a = some t → view t = view s)
    (h : acts.foldlM step s = some t) :
    view t = (acts.filter shown).foldl see (view s) := by
  induction acts generalizing s with
  | nil =>
      cases h
      rfl
  | cons a acts ih =>
      obtain ⟨s', hstep, hrest⟩ := Option.bind_eq_some_iff.mp h
      rw [ih hrest]
      cases ha : shown a with
      | true => rw [List.filter_cons_of_pos ha, List.foldl_cons, hshown s a s' ha hstep]
      | false =>
          rw [List.filter_cons_of_neg (Bool.eq_false_iff.mp ha), hhidden s a s' ha hstep]

/-- A run fails at its first action that does. -/
theorem foldlM_isSome_iff : (acts.foldlM step s).isSome ↔
    ∀ pre a post t, acts = pre ++ a :: post → pre.foldlM step s = some t →
      (step t a).isSome := by
  induction acts generalizing s with
  | nil => simp
  | cons b acts ih =>
      rw [List.foldlM_cons]
      constructor
      · intro h pre a post t hsplit hpre
        cases hb : step s b with
        | none =>
            rw [hb] at h
            cases h
        | some s' =>
            rw [hb] at h
            cases pre with
            | nil =>
                obtain ⟨rfl, _⟩ := List.cons_eq_cons.mp hsplit
                cases hpre
                rw [hb]
                rfl
            | cons c pre =>
                obtain ⟨rfl, hacts⟩ := List.cons_eq_cons.mp hsplit
                rw [List.foldlM_cons, hb] at hpre
                exact ih.mp h pre a post t hacts hpre
      · intro h
        have hb := h [] b acts s rfl rfl
        obtain ⟨s', hs'⟩ := Option.isSome_iff_exists.mp hb
        rw [hs']
        refine ih.mpr fun pre a post t hacts hpre => ?_
        refine h (b :: pre) a post t (by rw [hacts]; rfl) ?_
        rw [List.foldlM_cons, hs']
        exact hpre

end Daenet.Lib
