import Mathlib.Logic.Basic

/-!
# Taking apart computations that may fail

A computation built from `bind` succeeds exactly when its parts do. `bind_eq_ok`
peels one part off a successful run, so a proof about it can follow the order in
which the parts ran; `bind_ne_error` rules an error out part by part.
-/

namespace ExceptRules

universe u v

variable {ε : Type u} {α β : Type v}

theorem bind_eq_ok {x : Except ε α} {f : α → Except ε β} {b : β} :
    x >>= f = .ok b ↔ ∃ a, x = .ok a ∧ f a = .ok b := by
  cases x with
  | error e => simp [bind, Except.bind]
  | ok a => simp [bind, Except.bind]

theorem bind_eq_error {x : Except ε α} {f : α → Except ε β} {e : ε} :
    x >>= f = .error e ↔ x = .error e ∨ ∃ a, x = .ok a ∧ f a = .error e := by
  cases x with
  | error e => simp [bind, Except.bind]
  | ok a => simp [bind, Except.bind]

/-- A computation fails with `e` only if one of its parts does. -/
theorem bind_ne_error {x : Except ε α} {f : α → Except ε β} {e : ε} (hx : x ≠ .error e)
    (hf : ∀ a, x = .ok a → f a ≠ .error e) : x >>= f ≠ .error e := by
  intro h
  obtain h | ⟨a, ha, h⟩ := bind_eq_error.mp h
  · exact hx h
  · exact hf a ha h

@[simp] theorem ok_bind (a : α) (f : α → Except ε β) : (Except.ok a >>= f) = f a := rfl

end ExceptRules
