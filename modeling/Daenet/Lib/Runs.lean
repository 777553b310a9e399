/-!
# Runs of a machine

A machine is a function from a state and an action to the next state, and a run
a list of actions. What a theorem asks of a run, or promises, is mostly asked of
every step of it: a property of the state before the step and of the action.
`Always` says that. Two rules relate what is asked and what is promised, both by
an invariant of the states in between.
-/

namespace Daenet.Lib

variable {σ α : Type}

/-- `P` holds of every step of a run. -/
def Always (step : σ → α → σ) (P : σ → α → Prop) : σ → List α → Prop
  | _, [] => True
  | s, a :: acts => P s a ∧ Always step P (step s a) acts

instance Always.decide (step : σ → α → σ) (P : σ → α → Prop)
    [∀ s a, Decidable (P s a)] : ∀ s acts, Decidable (Always step P s acts)
  | _, [] => .isTrue trivial
  | s, a :: acts =>
      have := Always.decide step P (step s a) acts
      inferInstanceAs (Decidable (P s a ∧ Always step P (step s a) acts))

variable {step : σ → α → σ} {I : σ → Prop} {P Q W : σ → α → Prop}

theorem always_of_forall (h : ∀ s a, P s a) (s : σ) (acts : List α) :
    Always step P s acts := by
  induction acts generalizing s with
  | nil => trivial
  | cons a acts ih => exact ⟨h s a, ih _⟩

/-- Steps that keep an invariant when `Q` holds of them, and then satisfy `P`. -/
theorem Always.of_inv (hinv : ∀ s a, I s → Q s a → I (step s a))
    (hP : ∀ s a, I s → Q s a → P s a) {s : σ} (hs : I s) {acts : List α}
    (h : Always step Q s acts) : Always step P s acts := by
  induction acts generalizing s with
  | nil => trivial
  | cons a acts ih => exact ⟨hP s a hs h.1, ih (hinv s a hs h.1) h.2⟩

/-- The state in which such a run ends satisfies the invariant. -/
theorem Always.foldl (hinv : ∀ s a, I s → Q s a → I (step s a)) {s : σ} (hs : I s)
    {acts : List α} (h : Always step Q s acts) : I (acts.foldl step s) := by
  induction acts generalizing s with
  | nil => exact hs
  | cons a acts ih => exact ih (hinv s a hs h.1) h.2

/-- What is known of every action of a run. -/
theorem Always.and_mem {R : α → Prop} {s : σ} {acts : List α} (h : Always step P s acts)
    (hR : ∀ a ∈ acts, R a) : Always step (fun s a => P s a ∧ R a) s acts := by
  induction acts generalizing s with
  | nil => trivial
  | cons a acts ih =>
      exact ⟨⟨h.1, hR a (List.mem_cons_self ..)⟩,
        ih h.2 fun b hb => hR b (List.mem_cons_of_mem a hb)⟩

/-- Two properties that agree under an invariant which they keep, for runs all of
whose steps satisfy `W`. -/
theorem always_iff_of_inv
    (hinv : ∀ s a, I s → W s a → Q s a → I (step s a))
    (hiff : ∀ s a, I s → W s a → (P s a ↔ Q s a)) {s : σ} (hs : I s)
    {acts : List α} (hW : Always step W s acts) :
    Always step P s acts ↔ Always step Q s acts := by
  induction acts generalizing s with
  | nil => exact Iff.rfl
  | cons a acts ih =>
      have hnext : Q s a → (Always step P (step s a) acts ↔
          Always step Q (step s a) acts) :=
        fun hQ => ih (hinv s a hs hW.1 hQ) hW.2
      constructor
      · intro h
        have hQ := (hiff s a hs hW.1).mp h.1
        exact ⟨hQ, (hnext hQ).mp h.2⟩
      · intro h
        exact ⟨(hiff s a hs hW.1).mpr h.1, (hnext h.1).mpr h.2⟩

/-- Two properties that agree agree on every run. -/
theorem always_congr (h : ∀ s a, P s a ↔ Q s a) (s : σ) (acts : List α) :
    Always step P s acts ↔ Always step Q s acts := by
  induction acts generalizing s with
  | nil => exact Iff.rfl
  | cons a acts ih => exact and_congr (h s a) (ih _)

end Daenet.Lib
