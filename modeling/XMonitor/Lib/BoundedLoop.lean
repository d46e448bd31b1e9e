import Mathlib.Logic.Basic

/-!
# Counted loops with an early exit

`run body n s` is `for (i = 0; i < n; i++) body` for a body that may `break`.
The body reports the exit in its second component, and so does the loop. A
counter that the body does not read is not part of the state.

A loop can be cut at any point (`run_add`), which is what relates one long loop
to the same loop spread over several shorter ones. Two bodies that agree up to a
relation give loops that agree up to it (`run_rel`).
-/

namespace BoundedLoop

variable {σ τ : Type*}

/-- At most `n` iterations of `body`; the flag of the result tells a `break`
from running out of iterations. -/
def run (body : σ → σ × Bool) : Nat → σ → σ × Bool
  | 0, s => (s, false)
  | n + 1, s =>
    if (body s).2 then ((body s).1, true) else run body n (body s).1

variable {body : σ → σ × Bool} {s : σ}

@[simp] theorem run_zero : run body 0 s = (s, false) := rfl

theorem run_succ_of_break (n : Nat) (h : (body s).2 = true) :
    run body (n + 1) s = ((body s).1, true) := by
  simp [run, h]

theorem run_succ_of_continue (n : Nat) (h : (body s).2 = false) :
    run body (n + 1) s = run body n (body s).1 := by
  simp [run, h]

/-- Iterations that are left over after a `break` change nothing; otherwise the
second part of the loop starts where the first one stopped. -/
theorem run_add (m n : Nat) (s : σ) :
    run body (m + n) s =
      if (run body m s).2 then run body m s else run body n (run body m s).1 := by
  induction m generalizing s with
  | zero => simp
  | succ m ih =>
      rw [Nat.add_right_comm]
      cases h : (body s).2 with
      | true => simp [run_succ_of_break _ h]
      | false => simpa only [run_succ_of_continue _ h] using ih (body s).1

/-- What every iteration keeps, the whole loop keeps. -/
theorem run_preserves (body : σ → σ × Bool) {P : σ → Prop} (step : ∀ s, P s → P (body s).1)
    (n : Nat) (s : σ) (h : P s) : P (run body n s).1 := by
  induction n generalizing s with
  | zero => exact h
  | succ n ih =>
      cases hb : (body s).2 with
      | true => simpa only [run_succ_of_break _ hb] using step s h
      | false => simpa only [run_succ_of_continue _ hb] using ih _ (step s h)

/-- The invariant rule with the number of completed iterations. It may assume the
invariant before every iteration and gives it back after the last one, unless the
loop has been left. -/
theorem run_counted (body : σ → σ × Bool) {P : Nat → σ → Prop} {Q : σ → Prop}
    (next : ∀ k s, P k s → (body s).2 = false → P (k + 1) (body s).1)
    (exit : ∀ k s, P k s → (body s).2 = true → Q (body s).1)
    (n k : Nat) (s : σ) (h : P k s) :
    if (run body n s).2 then Q (run body n s).1 else P (k + n) (run body n s).1 := by
  induction n generalizing k s with
  | zero => simpa using h
  | succ n ih =>
      cases hb : (body s).2 with
      | true => simpa [run_succ_of_break _ hb] using exit k s h hb
      | false =>
          have rest := ih (k + 1) _ (next k s h hb)
          simpa only [run_succ_of_continue _ hb, Nat.add_assoc, Nat.add_comm 1 n] using rest

/-- Bodies that move related states to related states and exit together give
loops with the same property. -/
theorem run_rel (body : σ → σ × Bool) (other : τ → τ × Bool) {R : σ → τ → Prop}
    (hbody : ∀ s t, R s t → R (body s).1 (other t).1 ∧ (body s).2 = (other t).2)
    (n : Nat) (s : σ) (t : τ) (h : R s t) :
    R (run body n s).1 (run other n t).1 ∧ (run body n s).2 = (run other n t).2 := by
  induction n generalizing s t with
  | zero => exact ⟨h, rfl⟩
  | succ n ih =>
      obtain ⟨hrel, hflag⟩ := hbody s t h
      cases hb : (body s).2 with
      | true =>
          rw [run_succ_of_break _ hb, run_succ_of_break _ (hflag ▸ hb)]
          exact ⟨hrel, rfl⟩
      | false =>
          rw [run_succ_of_continue _ hb, run_succ_of_continue _ (hflag ▸ hb)]
          exact ih _ _ hrel

end BoundedLoop
