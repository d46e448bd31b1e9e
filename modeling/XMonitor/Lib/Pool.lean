import Mathlib.Algebra.BigOperators.Fin
import Mathlib.Algebra.Order.BigOperators.Group.Finset
import Mathlib.Data.Fintype.BigOperators

/-!
# Pools

The members of a pool are each in some phase, and a member holds an amount that depends
on its phase. `Pool.total` is what the members hold together. When one member goes to
another phase, the total changes by the difference of the two amounts, which is what
counting arguments over interleavings need to know.
-/

namespace Pool

variable {ι β : Type*} [Fintype ι] (amount : β → Nat) (phase : ι → β)

/-- What the members hold together. -/
def total : Nat := ∑ i, amount (phase i)

theorem total_update [DecidableEq ι] (i : ι) (x : β) :
    total amount (Function.update phase i x) + amount (phase i) =
      total amount phase + amount x := by
  have hrest : ∀ j ∈ Finset.univ.erase i,
      amount (Function.update phase i x j) = amount (phase j) := by
    intro j hj
    rw [Function.update_of_ne (Finset.ne_of_mem_erase hj)]
  rw [total, total, ← Finset.add_sum_erase _ _ (Finset.mem_univ i),
    ← Finset.add_sum_erase Finset.univ (fun j => amount (phase j)) (Finset.mem_univ i),
    Finset.sum_congr rfl hrest, Function.update_self]
  omega

theorem le_total (i : ι) : amount (phase i) ≤ total amount phase :=
  Finset.single_le_sum (f := fun i => amount (phase i)) (fun _ _ => Nat.zero_le _)
    (Finset.mem_univ i)

variable {amount phase}

theorem total_eq_zero (h : ∀ i, amount (phase i) = 0) : total amount phase = 0 :=
  Finset.sum_eq_zero fun i _ => h i

theorem total_le {b : Nat} (h : ∀ i, amount (phase i) ≤ b) :
    total amount phase ≤ Fintype.card ι * b := by
  calc total amount phase ≤ ∑ _i : ι, b := Finset.sum_le_sum fun i _ => h i
    _ = Fintype.card ι * b := by rw [Finset.sum_const, Finset.card_univ, smul_eq_mul]

end Pool
