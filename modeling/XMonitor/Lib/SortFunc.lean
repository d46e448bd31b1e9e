import Mathlib.Data.List.Sort

/-!
# Unstable sorting by a comparison

`SortFunc less` is any function that reorders a list so that no element is less
than an earlier one. Nothing is said about the order of elements that compare
equal, so a result that holds for every `SortFunc` does not rest on stability.
-/

/-- A sorting function for the strict comparison `less`. -/
structure SortFunc {α : Type*} (less : α → α → Bool) where
  sort : List α → List α
  perm : ∀ l, (sort l).Perm l
  sorted : ∀ l, (sort l).Pairwise fun a b => less b a = false

namespace SortFunc

variable {α : Type*} {less : α → α → Bool} (S : SortFunc less)

@[simp] theorem length_sort (l : List α) : (S.sort l).length = l.length := (S.perm l).length_eq

@[simp] theorem mem_sort {l : List α} {a : α} : a ∈ S.sort l ↔ a ∈ l := (S.perm l).mem_iff

/-- A relation between distinct positions that does not depend on their order
survives sorting. -/
theorem pairwise_sort {l : List α} {R : α → α → Prop} (symm : ∀ a b, R a b → R b a)
    (h : l.Pairwise R) : (S.sort l).Pairwise R :=
  (S.perm l).symm.pairwise h fun {a b} => symm a b

/-- The stable merge sort is one of them, for a total preorder that decides `less`. -/
def ofLe (le : α → α → Bool) (trans : ∀ a b c, le a b = true → le b c = true → le a c = true)
    (total : ∀ a b, (le a b || le b a) = true)
    (notLess : ∀ a b, le a b = true → less b a = false) : SortFunc less where
  sort l := l.mergeSort le
  perm l := List.mergeSort_perm l le
  sorted l := (List.pairwise_mergeSort trans total l).imp fun {a b} h => notLess a b h

end SortFunc
