import Mathlib.Algebra.GroupWithZero.Nat
import Mathlib.Data.List.Basic
import Mathlib.Data.List.Flatten

/-!
# Rows in one array

Rows of different lengths are stored one after the other in an array, with a table that has
the first index and the length of each row. The last row grows at its end, and a new row
begins where the last one ends.
-/

namespace RowTable

variable {α : Type*}

/-- An entry of the table. -/
structure Row where
  first : Nat
  length : Nat

/-- The table of rows that are stored from an index on. -/
def table (first : Nat) : List (List α) → List Row
  | [] => []
  | row :: rows => ⟨first, row.length⟩ :: table (first + row.length) rows

variable {first : Nat} {rows rows' : List (List α)} {row : List α}

theorem length_table : (table first rows).length = rows.length := by
  induction rows generalizing first with
  | nil => rfl
  | cons row rows ih => exact congrArg (· + 1) ih

theorem table_append :
    table first (rows ++ rows') =
      table first rows ++ table (first + rows.flatten.length) rows' := by
  induction rows generalizing first with
  | nil => rfl
  | cons row rows ih =>
      rw [List.cons_append, table, table, ih, List.flatten_cons, List.length_append, Nat.add_assoc]
      rfl

/-- The last row begins behind the others. -/
theorem table_concat :
    table 0 (rows ++ [row]) = table 0 rows ++ [⟨rows.flatten.length, row.length⟩] := by
  rw [table_append, Nat.zero_add]
  rfl

/-- Changing the last element. -/
theorem modify_length_append {β : Type*} (xs : List β) (x : β) (f : β → β) :
    (xs ++ [x]).modify xs.length f = xs ++ [f x] := by
  induction xs with
  | nil => rfl
  | cons y ys ih =>
      rw [List.cons_append, List.length_cons, List.modify_succ_cons, ih]
      rfl

theorem getElem?_table (i : Nat) :
    (table first rows)[i]? =
      rows[i]?.map fun row => ⟨first + (rows.take i).flatten.length, row.length⟩ := by
  induction rows generalizing first i with
  | nil => rfl
  | cons row rows ih =>
      cases i with
      | zero => rfl
      | succ i =>
          rw [table, List.getElem?_cons_succ, List.getElem?_cons_succ, ih, List.take_succ_cons,
            List.flatten_cons, List.length_append, Nat.add_assoc]

theorem length_flatten_take_succ {i : Nat} (hi : rows[i]? = some row) :
    (rows.take (i + 1)).flatten.length = (rows.take i).flatten.length + row.length := by
  rw [List.take_add_one, hi, List.flatten_append, List.length_append]
  simp

/-- The next row begins behind the one before it. -/
theorem first_succ {i : Nat} {r r' : Row} (h : (table first rows)[i]? = some r)
    (h' : (table first rows)[i + 1]? = some r') : r'.first = r.first + r.length := by
  rw [getElem?_table] at h h'
  obtain ⟨row, hrow, rfl⟩ := Option.map_eq_some_iff.mp h
  obtain ⟨row', -, rfl⟩ := Option.map_eq_some_iff.mp h'
  dsimp only
  rw [length_flatten_take_succ hrow, Nat.add_assoc]

/-- The lengths of the rows add up to the length of the array. -/
theorem sum_length : ((table first rows).map Row.length).sum = rows.flatten.length := by
  induction rows generalizing first with
  | nil => rfl
  | cons row rows ih =>
      rw [table, List.map_cons, List.sum_cons, ih, List.flatten_cons, List.length_append]

/-- An element of a row is in the array behind the first index of the row. -/
theorem getElem?_flatten {i j : Nat} (hi : rows[i]? = some row) (hj : j < row.length) :
    rows.flatten[(rows.take i).flatten.length + j]? = row[j]? := by
  obtain ⟨hlt, rfl⟩ := List.getElem?_eq_some_iff.mp hi
  have hsplit : rows = rows.take i ++ rows[i] :: rows.drop (i + 1) := by
    rw [← List.drop_eq_getElem_cons hlt, List.take_append_drop]
  have hflat : rows.flatten =
      (rows.take i).flatten ++ (rows[i] ++ (rows.drop (i + 1)).flatten) := by
    rw [← List.flatten_cons, ← List.flatten_append, ← hsplit]
  rw [hflat, List.getElem?_append_right (Nat.le_add_right _ _), Nat.add_sub_cancel_left,
    List.getElem?_append_left hj]

end RowTable
