import Mathlib.Data.List.Basic

/-!
# Runs of an event handler

A handler `step` turns a state and an event into the next state, and a list of
events into a run. `AllSteps` says of every step of a run that it meets a condition
on the state before it and on its event. An invariant that such steps keep holds in
every state of the run.
-/

namespace EventRun

variable {σ ε : Type*} (step : σ → ε → σ)

/-- Every step of the run meets `P`. -/
def AllSteps (P : σ → ε → Prop) : σ → List ε → Prop
  | _, [] => True
  | s, e :: es => P s e ∧ AllSteps P (step s e) es

variable {step} {P : σ → ε → Prop}

instance AllSteps.decidable [∀ s e, Decidable (P s e)] :
    (s : σ) → (es : List ε) → Decidable (AllSteps step P s es)
  | _, [] => .isTrue trivial
  | s, e :: es =>
      have := AllSteps.decidable (step s e) es
      inferInstanceAs (Decidable (P s e ∧ AllSteps step P (step s e) es))

theorem allSteps_iff {s : σ} {es : List ε} :
    AllSteps step P s es ↔ ∀ past e, past ++ [e] <+: es → P (past.foldl step s) e := by
  induction es generalizing s with
  | nil => simp [AllSteps]
  | cons x es ih =>
      rw [AllSteps, ih]
      constructor
      · rintro ⟨hx, hrest⟩ past e hpast
        cases past with
        | nil =>
            obtain rfl : e = x := (List.cons_prefix_cons.mp hpast).1
            exact hx
        | cons y past =>
            obtain ⟨rfl, htail⟩ := List.cons_prefix_cons.mp hpast
            exact hrest past e htail
      · intro h
        refine ⟨h [] x (by simp), fun past e hpast => h (x :: past) e ?_⟩
        exact List.cons_prefix_cons.mpr ⟨rfl, hpast⟩

theorem allSteps_append {s : σ} {es es' : List ε} :
    AllSteps step P s (es ++ es') ↔
      AllSteps step P s es ∧ AllSteps step P (es.foldl step s) es' := by
  induction es generalizing s with
  | nil => simp [AllSteps]
  | cons e es ih =>
      rw [List.cons_append, AllSteps, AllSteps, ih, and_assoc]
      exact Iff.rfl

/-- The invariant rule. -/
theorem foldl_invariant {I : σ → Prop} (keep : ∀ s e, I s → P s e → I (step s e)) {s : σ}
    {es : List ε} (hs : I s) (hes : AllSteps step P s es) {past : List ε}
    (hpast : past <+: es) : I (past.foldl step s) := by
  induction past generalizing s es with
  | nil => exact hs
  | cons e past ih =>
      obtain ⟨rest, rfl⟩ := hpast
      exact ih (keep s e hs hes.1) hes.2 (List.prefix_append past rest)

/-- The rule for an invariant that every step keeps. -/
theorem foldl_preserves {I : σ → Prop} (keep : ∀ s e, I s → I (step s e)) {s : σ} (hs : I s)
    (es : List ε) : I (es.foldl step s) := by
  induction es generalizing s with
  | nil => exact hs
  | cons e es ih => exact ih (keep s e hs)

/-- A property that a step keeps exactly if it meets `P` holds at the end of a run exactly if it
holds at its start and every step meets `P`. -/
theorem foldl_iff_allSteps {I G : σ → Prop} (keep : ∀ s e, I s → I (step s e))
    (h : ∀ s e, I s → (G (step s e) ↔ G s ∧ P s e)) {s : σ} (hs : I s) (es : List ε) :
    G (es.foldl step s) ↔ G s ∧ AllSteps step P s es := by
  induction es generalizing s with
  | nil => exact iff_of_eq (and_true _).symm
  | cons e es ih => rw [List.foldl_cons, ih (keep s e hs), h s e hs, AllSteps, and_assoc]

/-- Two conditions agree on a run if they agree wherever an invariant holds that the steps
keep as long as they meet the first condition. -/
theorem allSteps_congr {I : σ → Prop} {Q : σ → ε → Prop}
    (keep : ∀ s e, I s → P s e → I (step s e)) (h : ∀ s e, I s → (P s e ↔ Q s e)) {s : σ}
    (hs : I s) (es : List ε) : AllSteps step P s es ↔ AllSteps step Q s es := by
  induction es generalizing s with
  | nil => exact Iff.rfl
  | cons e es ih =>
      rw [AllSteps, AllSteps, ← h s e hs]
      exact and_congr_right fun hP => ih (keep s e hs hP)

/-- On a run whose steps all meet `R`, two conditions agree if they do so wherever `R` and an
invariant hold. -/
theorem allSteps_congr_of {I : σ → Prop} {Q R : σ → ε → Prop}
    (keep : ∀ s e, I s → R s e → I (step s e)) (h : ∀ s e, I s → R s e → (P s e ↔ Q s e)) {s : σ}
    (hs : I s) {es : List ε} (hes : AllSteps step R s es) :
    AllSteps step P s es ↔ AllSteps step Q s es := by
  induction es generalizing s with
  | nil => exact Iff.rfl
  | cons e es ih =>
      obtain ⟨he, hrest⟩ := hes
      exact and_congr (h s e hs he) (ih (keep s e hs he) hrest)

end EventRun
