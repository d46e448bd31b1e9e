import Mathlib.Data.List.Nodup
import Mathlib.Data.List.Perm.Subperm
import Mathlib.Data.List.Range

/-!
# Free lists in the free cells

An allocator of `n` cells remembers the number of one free cell, and every free cell holds
the number of the next. The last one holds `n`, which is the number of no cell. What the
other cells hold does not matter.

Taking the first free cell and giving a cell back are the two operations, and a fresh
allocator has its cells linked in ascending order.
-/

namespace FreeList

/-- The cells that are reached from a position by following the links. -/
def Chain (link : Nat → Nat) (n : Nat) : Nat → List Nat → Prop
  | pos, [] => pos = n
  | pos, i :: is => pos = i ∧ i < n ∧ Chain link n (link i) is

/-- The free cells in the order of the links, each of them once. -/
structure Free (link : Nat → Nat) (n pos : Nat) (is : List Nat) : Prop where
  chain : Chain link n pos is
  nodup : is.Nodup

variable {link link' : Nat → Nat} {n pos i : Nat} {is : List Nat}

theorem Chain.congr (h : Chain link n pos is) (hlink : ∀ i ∈ is, link' i = link i) :
    Chain link' n pos is := by
  induction is generalizing pos with
  | nil => exact h
  | cons i is ih =>
      obtain ⟨hpos, hi, hrest⟩ := h
      refine ⟨hpos, hi, ?_⟩
      rw [hlink i List.mem_cons_self]
      exact ih hrest fun j hj => hlink j (List.mem_cons_of_mem i hj)

theorem Chain.lt (h : Chain link n pos is) : ∀ i ∈ is, i < n := by
  induction is generalizing pos with
  | nil => exact fun i hi => absurd hi List.not_mem_nil
  | cons j is ih =>
      obtain ⟨-, hj, hrest⟩ := h
      exact List.forall_mem_cons.mpr ⟨hj, ih hrest⟩

theorem Free.congr (h : Free link n pos is) (hlink : ∀ i ∈ is, link' i = link i) :
    Free link' n pos is :=
  ⟨h.chain.congr hlink, h.nodup⟩

theorem Free.lt (h : Free link n pos is) (hi : i ∈ is) : i < n := h.chain.lt i hi

/-- Taking the first free cell leaves the others. -/
theorem Free.pop (h : Free link n pos (i :: is)) : pos = i ∧ i < n ∧ Free link n (link i) is := by
  obtain ⟨hpos, hi, hrest⟩ := h.chain
  exact ⟨hpos, hi, hrest, (List.nodup_cons.mp h.nodup).2⟩

/-- Giving back a cell puts it first. -/
theorem Free.push (h : Free link n pos is) (hi : i < n) (hnot : i ∉ is) (hfirst : link' i = pos)
    (hrest : ∀ j ∈ is, link' j = link j) : Free link' n i (i :: is) := by
  refine ⟨⟨rfl, hi, ?_⟩, List.nodup_cons.mpr ⟨hnot, h.nodup⟩⟩
  rw [hfirst]
  exact h.chain.congr hrest

/-- Different cells are no more than there are. -/
theorem length_le_of_nodup (hnodup : is.Nodup) (hlt : ∀ i ∈ is, i < n) : is.length ≤ n := by
  have hsub : is ⊆ List.range n := fun i hi => List.mem_range.mpr (hlt i hi)
  have hlen := (List.subperm_of_subset hnodup hsub).length_le
  rw [List.length_range] at hlen
  exact hlen

theorem Free.length_le (h : Free link n pos is) : is.length ≤ n :=
  length_le_of_nodup h.nodup h.chain.lt

/-- A cell that is not free leaves room for it among the free ones. -/
theorem Free.length_lt (h : Free link n pos is) (hi : i < n) (hnot : i ∉ is) : is.length < n :=
  length_le_of_nodup (List.nodup_cons.mpr ⟨hnot, h.nodup⟩)
    (List.forall_mem_cons.mpr ⟨hi, h.chain.lt⟩)

/-- If as many cells are free as there are, then all are. -/
theorem Free.mem_of_length (h : Free link n pos is) (hlen : is.length = n) (hi : i < n) :
    i ∈ is := by
  by_contra hnot
  exact absurd hlen (Nat.ne_of_lt (h.length_lt hi hnot))

/-- Cells that are linked in ascending order are free from any of them on. -/
theorem free_range' (hpos : pos ≤ n) (hlink : ∀ i, pos ≤ i → i < n → link i = i + 1) :
    Free link n pos (List.range' pos (n - pos)) := by
  refine ⟨?_, List.nodup_range'⟩
  obtain ⟨k, rfl⟩ := Nat.exists_eq_add_of_le hpos
  rw [Nat.add_sub_cancel_left]
  induction k generalizing pos with
  | zero => rfl
  | succ k ih =>
      refine ⟨rfl, Nat.lt_add_of_pos_right (Nat.succ_pos k), ?_⟩
      have hnext : pos + (k + 1) = pos + 1 + k := Nat.add_right_comm pos k 1
      rw [hlink pos (Nat.le_refl pos) (Nat.lt_add_of_pos_right (Nat.succ_pos k)), hnext]
      refine ih (Nat.le_add_right _ _) fun i hi hlt => hlink i (Nat.le_of_succ_le hi) ?_
      rw [hnext]
      exact hlt

end FreeList
