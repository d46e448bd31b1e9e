import Mathlib.Data.Fin.Basic
import Mathlib.Logic.Function.Basic

/-!
# Double buffers

Two slots for the samples of one source. A sample is written to the slot `curr`, and
the sample before it stands in the slot `prev`. Both indices are 0 as long as there is
no sample, and this is also how a reader recognises the first one.

`last` is what the two slots are for. The rules below say which sample a reader finds
as the previous one after any number of samples.
-/

structure DoubleBuffer (α : Type*) where
  slots : Fin 2 → α
  curr : Fin 2
  prev : Fin 2

namespace DoubleBuffer

variable {α : Type*}

scoped instance neZeroTwo : @NeZero Nat Zero.ofOfNat0 2 := ⟨Nat.succ_ne_zero 1⟩

/-- A buffer without samples. -/
def fresh (x : α) : DoubleBuffer α := ⟨fun _ => x, 0, 0⟩

/-- The test by which a reader recognises the first sample. -/
def IsFirst (b : DoubleBuffer α) : Prop := b.curr = 0 ∧ b.prev = 0

instance (b : DoubleBuffer α) : Decidable b.IsFirst := inferInstanceAs (Decidable (_ ∧ _))

def write (b : DoubleBuffer α) (x : α) : DoubleBuffer α :=
  { b with slots := Function.update b.slots b.curr x }

/-- After the first sample only the current slot moves. -/
def flipFirst (b : DoubleBuffer α) : DoubleBuffer α := { b with curr := b.curr + 1 }

def flip (b : DoubleBuffer α) : DoubleBuffer α := { b with prev := b.curr, curr := b.curr + 1 }

/-- Write a sample and move on. -/
def push (b : DoubleBuffer α) (x : α) : DoubleBuffer α :=
  if (b.write x).IsFirst then (b.write x).flipFirst else (b.write x).flip

/-- The last sample. -/
def last (b : DoubleBuffer α) : Option α := if b.IsFirst then none else some (b.slots b.prev)

/-- The slot for the next sample is not the one of the last sample. -/
def Valid (b : DoubleBuffer α) : Prop := b.IsFirst ∨ b.curr ≠ b.prev

theorem last_fresh (x : α) : (fresh x).last = none := rfl

@[simp] theorem isFirst_write (b : DoubleBuffer α) (x : α) : (b.write x).IsFirst ↔ b.IsFirst :=
  Iff.rfl

theorem isFirst_iff_last {b : DoubleBuffer α} : b.IsFirst ↔ b.last = none := by
  rw [last]
  split <;> simp_all

/-- The previous sample that a reader finds while the current one is in its slot. -/
theorem write_prev {b : DoubleBuffer α} (hb : b.Valid) (hfirst : ¬b.IsFirst) (x : α) :
    b.last = some ((b.write x).slots (b.write x).prev) := by
  have hne : b.prev ≠ b.curr := fun heq => (hb.resolve_left hfirst) heq.symm
  rw [last, if_neg hfirst]
  change some (b.slots b.prev) = some (Function.update b.slots b.curr x b.prev)
  rw [Function.update_of_ne hne]

theorem valid_push {b : DoubleBuffer α} (x : α) : (b.push x).Valid := by
  have hsucc : ∀ i : Fin 2, i + 1 ≠ i := by decide
  rw [push]
  split
  case isTrue hfirst =>
    obtain ⟨hcurr, hprev⟩ := hfirst
    refine .inr fun heq => hsucc b.curr ?_
    exact heq.trans (hprev.trans hcurr.symm)
  case isFalse => exact .inr (hsucc b.curr)

theorem last_push {b : DoubleBuffer α} (x : α) : (b.push x).last = some x := by
  have hsucc : ∀ i : Fin 2, i = i + 1 → False := by decide
  rw [push]
  split
  case isTrue hfirst =>
    obtain ⟨hcurr, hprev⟩ := hfirst
    have hnot : ¬(b.write x).flipFirst.IsFirst := by
      rintro ⟨h, -⟩
      exact hsucc b.curr (hcurr.trans h.symm)
    rw [last, if_neg hnot]
    change some (Function.update b.slots b.curr x b.prev) = some x
    rw [show b.prev = b.curr from hprev.trans hcurr.symm, Function.update_self]
  case isFalse hfirst =>
    have hnot : ¬(b.write x).flip.IsFirst := by
      rintro ⟨h, h'⟩
      exact hsucc b.curr (h'.trans h.symm)
    rw [last, if_neg hnot]
    change some (Function.update b.slots b.curr x b.curr) = some x
    rw [Function.update_self]

end DoubleBuffer
