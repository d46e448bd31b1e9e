/-!
# Procedures with a state

A procedure of a C program changes a state and ends with a value, with an error that its caller
sees, or in undefined behaviour: an access outside a buffer, or a loop that does not end. A contract
excludes the last. It says what holds when the procedure ends with a value and what holds when it
ends with an error.
-/

namespace XMonitor.Lib

/-- How a procedure ends. -/
inductive Outcome (σ α : Type)
  | ok (value : α) (s : σ)
  | fail (s : σ)
  | fault
  deriving Repr, DecidableEq

def Procedure (σ α : Type) := σ → Outcome σ α

namespace Procedure

variable {σ α β : Type}

protected def pure (a : α) : Procedure σ α := fun s => .ok a s

protected def bind (p : Procedure σ α) (f : α → Procedure σ β) : Procedure σ β := fun s =>
  match p s with
  | .ok a s' => f a s'
  | .fail s' => .fail s'
  | .fault => .fault

instance : Monad (Procedure σ) where
  pure := Procedure.pure
  bind := Procedure.bind

/-- `return false`. -/
def fail : Procedure σ α := fun s => .fail s

def fault : Procedure σ α := fun _ => .fault

def get : Procedure σ σ := fun s => .ok s s

def modify (f : σ → σ) : Procedure σ Unit := fun s => .ok () (f s)

/-- An `if` without an `else`. -/
def when (c : Bool) (p : Procedure σ Unit) : Procedure σ Unit := if c then p else pure ()

/-! ## Single runs -/

theorem bind_of_ok {p : Procedure σ α} {f : α → Procedure σ β} {s s' : σ} {a : α}
    (h : p s = .ok a s') : (p >>= f) s = f a s' := by
  show Procedure.bind p f s = _
  rw [Procedure.bind, h]

theorem bind_of_fail {p : Procedure σ α} {f : α → Procedure σ β} {s s' : σ}
    (h : p s = .fail s') : (p >>= f) s = .fail s' := by
  show Procedure.bind p f s = _
  rw [Procedure.bind, h]

theorem get_bind (f : σ → Procedure σ β) (s : σ) : ((get : Procedure σ σ) >>= f) s = f s s := rfl

/-! ## Contracts -/

/-- What holds of an ending, where undefined behaviour is excluded. -/
def Ends (Q : α → σ → Prop) (E : σ → Prop) : Outcome σ α → Prop
  | .ok a s => Q a s
  | .fail s => E s
  | .fault => False

def Contract (P : σ → Prop) (p : Procedure σ α) (Q : α → σ → Prop) (E : σ → Prop) : Prop :=
  ∀ s, P s → Ends Q E (p s)

namespace Contract

variable {P P' : σ → Prop} {Q Q' : α → σ → Prop} {R : β → σ → Prop} {E E' : σ → Prop}
  {p : Procedure σ α} {f : α → Procedure σ β}

theorem consequence (h : Contract P p Q E) (pre : ∀ s, P' s → P s)
    (post : ∀ a s, Q a s → Q' a s) (error : ∀ s, E s → E' s) : Contract P' p Q' E' := by
  intro s hs
  have hends := h s (pre s hs)
  cases hp : p s with
  | ok a s' =>
    rw [hp] at hends
    exact post a s' hends
  | fail s' =>
    rw [hp] at hends
    exact error s' hends
  | fault =>
    rw [hp] at hends
    exact hends

theorem mono_post (h : Contract P p Q E) (post : ∀ a s, Q a s → Q' a s) : Contract P p Q' E :=
  h.consequence (fun _ hs => hs) post fun _ hs => hs

theorem mono_pre (h : Contract P p Q E) (pre : ∀ s, P' s → P s) : Contract P' p Q E :=
  h.consequence pre (fun _ _ hq => hq) fun _ hs => hs

theorem bind (first : Contract P p Q E) (second : ∀ a, Contract (Q a) (f a) R E) :
    Contract P (p >>= f) R E := by
  intro s hs
  have hends := first s hs
  cases hp : p s with
  | ok a s' =>
    rw [hp] at hends
    rw [bind_of_ok hp]
    exact second a s' hends
  | fail s' =>
    rw [hp] at hends
    rw [bind_of_fail hp]
    exact hends
  | fault =>
    rw [hp] at hends
    exact hends.elim

/-- The first procedure has one possible value. -/
theorem bind_eq {a : α} {Q : σ → Prop} (first : Contract P p (fun b s => b = a ∧ Q s) E)
    (second : Contract Q (f a) R E) : Contract P (p >>= f) R E := by
  refine first.bind fun b s hs => ?_
  obtain ⟨rfl, hq⟩ := hs
  exact second s hq

theorem pure (a : α) (h : ∀ s, P s → Q a s) :
    Contract P (Pure.pure a : Procedure σ α) Q E := h

theorem get_bind {f : σ → Procedure σ β}
    (h : ∀ entry, P entry → Contract (· = entry) (f entry) R E) :
    Contract P ((Procedure.get : Procedure σ σ) >>= f) R E := fun s hs => h s hs s rfl

/-- A procedure that reads the state goes on in the same state. -/
theorem get_keep {f : σ → Procedure σ β} (h : ∀ entry, P entry → Contract P (f entry) R E) :
    Contract P ((Procedure.get : Procedure σ σ) >>= f) R E := fun s hs => h s hs s hs

theorem modify {g : σ → σ} {Q : Unit → σ → Prop} (h : ∀ s, P s → Q () (g s)) :
    Contract P (Procedure.modify g) Q E := h

theorem fail (h : ∀ s, P s → E s) : Contract P (Procedure.fail : Procedure σ α) Q E := h

/-- Keep the state at the start. -/
theorem with_entry (h : ∀ entry, P entry → Contract (· = entry) p Q E) : Contract P p Q E :=
  fun s hs => h s hs s rfl

theorem ite {c : Prop} [Decidable c] {q : Procedure σ α} (ht : c → Contract P p Q E)
    (hf : ¬ c → Contract P q Q E) : Contract P (if c then p else q) Q E := by
  split
  · exact ht ‹_›
  · exact hf ‹_›

theorem when {c : Bool} {q : Procedure σ Unit} {Q : Unit → σ → Prop}
    (ht : c = true → Contract P q Q E) (hf : c = false → ∀ s, P s → Q () s) :
    Contract P (Procedure.when c q) Q E := by
  cases c with
  | true => exact ht rfl
  | false => exact hf rfl

end Contract

end Procedure

end XMonitor.Lib
