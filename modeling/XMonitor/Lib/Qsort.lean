import Mathlib.Data.List.Perm.Basic
import Mathlib.Data.List.Sort

/-!
# Sorting with a C comparator

`qsort` reorders any list, and puts it in order if the comparator, whose sign alone matters, orders
the elements of the list totally. Of the order of the result nothing is promised otherwise, so any
reordering of such a list is the result of some `qsort`.
-/

/-- The comparator is a total order on the elements of the list. -/
structure TotalOrderOn {α : Type*} (cmp : α → α → Int32) (l : List α) : Prop where
  swap : ∀ a ∈ l, ∀ b ∈ l, cmp a b < 0 ↔ 0 < cmp b a
  trans : ∀ a ∈ l, ∀ b ∈ l, ∀ c ∈ l, cmp a b ≤ 0 → cmp b c ≤ 0 → cmp a c ≤ 0
  antisymm : ∀ a ∈ l, ∀ b ∈ l, cmp a b = 0 → a = b

structure Qsort (α : Type*) where
  sort : (α → α → Int32) → List α → List α
  perm : ∀ cmp l, (sort cmp l).Perm l
  sorted : ∀ cmp l, TotalOrderOn cmp l → (sort cmp l).Pairwise fun a b => cmp a b ≤ 0

variable {α : Type*} {cmp : α → α → Int32} {l : List α}

theorem TotalOrderOn.total (h : TotalOrderOn cmp l) {a b : α} (ha : a ∈ l) (hb : b ∈ l) :
    cmp a b ≤ 0 ∨ cmp b a ≤ 0 := by
  by_cases hle : cmp a b ≤ 0
  · exact .inl hle
  · right
    apply Int32.le_of_lt
    exact (h.swap b hb a ha).mpr (Int32.not_le.mp hle)

namespace Qsort

/-- Merge sort. -/
def merge : Qsort α where
  sort cmp l := (l.attach.mergeSort fun a b => decide (cmp a b ≤ 0)).map Subtype.val
  perm cmp l := by
    have hsort := List.mergeSort_perm l.attach fun a b => decide (cmp a b ≤ 0)
    have hmap := hsort.map Subtype.val
    rw [List.attach_map_subtype_val] at hmap
    exact hmap
  sorted cmp l h := by
    apply List.pairwise_map.mpr
    refine (List.pairwise_mergeSort ?_ ?_ l.attach).imp fun hle => of_decide_eq_true hle
    · intro a b c hab hbc
      rw [decide_eq_true_iff] at hab hbc ⊢
      exact h.trans _ a.2 _ b.2 _ c.2 hab hbc
    · intro a b
      rw [Bool.or_eq_true, decide_eq_true_iff, decide_eq_true_iff]
      exact h.total a.2 b.2

/-- On a list that the comparator does not order, the result may be any reordering. -/
theorem exists_sort_eq (Q : Qsort α) {r : List α} (hnot : ¬ TotalOrderOn cmp l)
    (hperm : r.Perm l) : ∃ Q' : Qsort α, Q'.sort cmp l = r := by
  classical
  refine ⟨{ sort := fun cmp' l' => if cmp' = cmp ∧ l' = l then r else Q.sort cmp' l'
            perm := ?_, sorted := ?_ }, if_pos ⟨rfl, rfl⟩⟩
  · intro cmp' l'
    split
    next h =>
      rw [h.2]
      exact hperm
    next => exact Q.perm cmp' l'
  · intro cmp' l' htotal
    split
    next h =>
      obtain ⟨rfl, rfl⟩ := h
      exact absurd htotal hnot
    next => exact Q.sorted cmp' l' htotal

end Qsort
