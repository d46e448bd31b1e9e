import Mathlib.Data.List.GetD
import Mathlib.Logic.Function.Basic

/-!
# Writing to a buffer

A buffer is the memory around a pointer. There is a byte at every position, also in front of the
pointer, and the positions that are written are kept in a list. `Stores` says what some writes
have done as a whole, in whatever order, and adjacent stores compose.
-/

namespace XMonitor.Lib

structure Buffer (β : Type*) where
  data : Int → β
  written : List Int := []

namespace Buffer

variable {β : Type*}

def put (buf : Buffer β) (index : Int) (b : β) : Buffer β :=
  { data := Function.update buf.data index b, written := buf.written ++ [index] }

/-- `memcpy`, the bytes in their order. -/
def copy : Buffer β → Int → List β → Buffer β
  | buf, _, [] => buf
  | buf, index, b :: bs => copy (buf.put index b) (index + 1) bs

/-- From one buffer to the other exactly the bytes of `text` are written, at `index`. -/
structure Stores (buf final : Buffer β) (index : Int) (text : List β) : Prop where
  text_eq : ∀ k, (h : k < text.length) → final.data (index + k) = text[k]
  others : ∀ p, p < index ∨ index + text.length ≤ p → final.data p = buf.data p
  written : ∀ p, p ∈ final.written ↔ p ∈ buf.written ∨ index ≤ p ∧ p < index + text.length

/-- A string and its terminating byte lie at a position. -/
structure HoldsString (buf : Buffer β) (index : Int) (text : List β) (nul : β) : Prop where
  text_eq : ∀ k, (h : k < text.length) → buf.data (index + k) = text[k]
  terminated : buf.data (index + text.length) = nul

variable {buf middle final : Buffer β} {index : Int} {first second : List β}

theorem stores_nil (buf : Buffer β) (index : Int) : Stores buf buf index [] where
  text_eq k h := absurd h (Nat.not_lt_zero k)
  others _ _ := rfl
  written p := by
    have hnone : ¬ (index ≤ p ∧ p < index + ([] : List β).length) := by
      rw [List.length_nil]
      omega
    exact (or_iff_left hnone).symm

theorem stores_put (buf : Buffer β) (index : Int) (b : β) :
    Stores buf (buf.put index b) index [b] where
  text_eq k h := by
    obtain rfl : k = 0 := Nat.lt_one_iff.mp h
    show Function.update buf.data index b (index + 0) = b
    rw [Int.add_zero, Function.update_self]
  others p h := by
    have hne : p ≠ index := by
      rw [List.length_singleton] at h
      omega
    exact Function.update_of_ne hne b buf.data
  written p := by
    have hone : p = index ↔ index ≤ p ∧ p < index + [b].length := by
      rw [List.length_singleton]
      omega
    show p ∈ buf.written ++ [index] ↔ _
    rw [List.mem_append, List.mem_singleton, hone]

/-- Two adjacent texts, of which the first is stored first or last. -/
theorem stores_append
    (h : Stores buf middle index first ∧ Stores middle final (index + first.length) second ∨
      Stores buf middle (index + first.length) second ∧ Stores middle final index first) :
    Stores buf final index (first ++ second) := by
  have hlength : ((first ++ second).length : Int) = first.length + second.length := by
    rw [List.length_append, Int.natCast_add]
  refine ⟨fun k hk => ?_, fun p hp => ?_, fun p => ?_⟩
  · by_cases hfirst : k < first.length
    · rw [List.getElem_append_left hfirst]
      obtain ⟨hf, hs⟩ | ⟨-, hf⟩ := h
      · exact (hs.others _ (.inl (by omega))).trans (hf.text_eq k hfirst)
      · exact hf.text_eq k hfirst
    · obtain ⟨j, rfl⟩ := Nat.exists_eq_add_of_le (Nat.le_of_not_lt hfirst)
      have hj : j < second.length := by omega
      have hposition : index + ((first.length + j : Nat) : Int) = index + first.length + j := by
        omega
      rw [List.getElem_append_right (Nat.le_add_right _ _), hposition]
      simp only [Nat.add_sub_cancel_left]
      obtain ⟨-, hs⟩ | ⟨hs, hf⟩ := h
      · exact hs.text_eq j hj
      · exact (hf.others _ (.inr (by omega))).trans (hs.text_eq j hj)
  · obtain ⟨hf, hs⟩ | ⟨hs, hf⟩ := h
    · exact (hs.others p (by omega)).trans (hf.others p (by omega))
    · exact (hf.others p (by omega)).trans (hs.others p (by omega))
  · have hspan : index ≤ p ∧ p < index + ((first ++ second).length : Int) ↔
        (index ≤ p ∧ p < index + first.length) ∨
          index + first.length ≤ p ∧ p < index + first.length + second.length := by
      omega
    obtain ⟨hf, hs⟩ | ⟨hs, hf⟩ := h
    · rw [hs.written, hf.written, hspan, or_assoc]
    · rw [hf.written, hs.written, hspan, or_assoc, or_comm (b := index ≤ p ∧ _)]

theorem stores_copy (buf : Buffer β) (index : Int) (text : List β) :
    Stores buf (buf.copy index text) index text := by
  induction text generalizing buf index with
  | nil => exact stores_nil buf index
  | cons b bs ih =>
      exact stores_append (.inl ⟨stores_put buf index b, ih _ _⟩)

theorem Stores.data_eq {text : List β} (h : Stores buf final 0 text) (p : Nat) :
    final.data p = text.getD p (buf.data p) := by
  by_cases hp : p < text.length
  · rw [List.getD_eq_getElem _ _ hp, ← h.text_eq p hp, Int.zero_add]
  · rw [List.getD_eq_default _ _ (Nat.le_of_not_lt hp)]
    exact h.others p (.inr (by omega))

theorem holdsString_zero_iff {text : List β} {nul : β} :
    buf.HoldsString 0 text nul ↔ ∀ p ≤ text.length, buf.data p = text.getD p nul := by
  constructor
  · intro h p hp
    obtain hlt | rfl := Nat.lt_or_eq_of_le hp
    · rw [List.getD_eq_getElem _ _ hlt, ← h.text_eq p hlt, Int.zero_add]
    · rw [List.getD_eq_default _ _ (Nat.le_refl _), ← h.terminated, Int.zero_add]
  · intro h
    constructor
    · intro k hk
      rw [Int.zero_add, h k (Nat.le_of_lt hk), List.getD_eq_getElem _ _ hk]
    · rw [Int.zero_add, h _ (Nat.le_refl _), List.getD_eq_default _ _ (Nat.le_refl _)]

/-- A string begins with the bytes that are known to be at its start, and the byte behind them is
the next of the string if it does not end there. -/
theorem HoldsString.exists_append {text s : List β} {nul : β} (hs : buf.HoldsString index s nul)
    (htext : ∀ k, (h : k < text.length) → buf.data (index + k) = text[k]) (hnul : nul ∉ text) :
    ∃ rest, s = text ++ rest ∧ ∀ b ∈ rest.head?, b = buf.data (index + text.length) := by
  have hle : text.length ≤ s.length := by
    apply Nat.le_of_not_lt
    intro hlt
    apply hnul
    rw [← hs.terminated, htext s.length hlt]
    exact List.getElem_mem hlt
  have htake : s.take text.length = text := by
    apply List.ext_getElem
    · rw [List.length_take, Nat.min_eq_left hle]
    · intro k _ hk
      rw [List.getElem_take, ← htext k hk]
      exact (hs.text_eq k (Nat.lt_of_lt_of_le hk hle)).symm
  refine ⟨s.drop text.length, ?_, fun b hb => ?_⟩
  · calc s = s.take text.length ++ s.drop text.length := (List.take_append_drop _ s).symm
      _ = text ++ s.drop text.length := by rw [htake]
  · rw [List.head?_drop] at hb
    obtain ⟨hlt, rfl⟩ := List.getElem?_eq_some_iff.mp hb
    exact (hs.text_eq text.length hlt).symm

end Buffer

end XMonitor.Lib
