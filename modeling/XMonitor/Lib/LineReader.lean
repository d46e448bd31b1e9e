import Mathlib.Data.List.Infix

/-!
# Reading lines from chunks

A reader takes the lines out of its buffer, keeps what is behind the last separator, and puts
the next chunk behind that. The lines it finds do not depend on where the chunks have been cut.
-/

namespace XMonitor.LineReader

variable {α β : Type*} [DecidableEq α] {sep : α}

/-- The lines of a text that begins inside of one, and what is behind the last separator. -/
def takeLines (sep : α) : List α → List α → List (List α) × List α
  | line, [] => ([], line)
  | line, c :: cs =>
      if c = sep then (line :: (takeLines sep [] cs).1, (takeLines sep [] cs).2)
      else takeLines sep (line ++ [c]) cs

/-- Take the lines out of the buffer with one more chunk. -/
def feed (sep : α) (f : β → List α → β) (st : β × List α) (chunk : List α) : β × List α :=
  ((takeLines sep [] (st.2 ++ chunk)).1.foldl f st.1, (takeLines sep [] (st.2 ++ chunk)).2)

theorem takeLines_append (line a b : List α) :
    takeLines sep line (a ++ b) =
      ((takeLines sep line a).1 ++ (takeLines sep (takeLines sep line a).2 b).1,
        (takeLines sep (takeLines sep line a).2 b).2) := by
  induction a generalizing line with
  | nil => rfl
  | cons c a ih =>
      rw [List.cons_append, takeLines, takeLines]
      split
      · rw [ih]
        rfl
      · exact ih _

/-- Without a separator there is no line. -/
theorem takeLines_of_notMem {cs : List α} (h : sep ∉ cs) (line : List α) :
    takeLines sep line cs = ([], line ++ cs) := by
  induction cs generalizing line with
  | nil => rw [takeLines, List.append_nil]
  | cons c cs ih =>
      rw [List.mem_cons, not_or] at h
      rw [takeLines, if_neg (Ne.symm h.1), ih h.2, List.append_assoc]
      rfl

theorem sep_notMem_rest {line : List α} (hline : sep ∉ line) (cs : List α) :
    sep ∉ (takeLines sep line cs).2 := by
  induction cs generalizing line with
  | nil => exact hline
  | cons c cs ih =>
      rw [takeLines]
      split
      · exact ih List.not_mem_nil
      · rename_i hc
        refine ih fun hmem => ?_
        obtain hmem | hmem := List.mem_append.mp hmem
        · exact hline hmem
        · exact hc (List.mem_singleton.mp hmem).symm

theorem mem_of_mem_rest {line cs : List α} {c : α} (h : c ∈ (takeLines sep line cs).2) :
    c ∈ line ∨ c ∈ cs := by
  induction cs generalizing line with
  | nil => exact .inl h
  | cons d cs ih =>
      rw [takeLines] at h
      split at h
      · obtain hnil | hcs := ih h
        · exact absurd hnil List.not_mem_nil
        · exact .inr (List.mem_cons_of_mem d hcs)
      · obtain hline | hcs := ih h
        · obtain hline | hd := List.mem_append.mp hline
          · exact .inl hline
          · exact .inr (List.mem_cons.mpr (.inl (List.mem_singleton.mp hd)))
        · exact .inr (List.mem_cons_of_mem d hcs)

/-- The lines of a buffer are those behind the bytes that it has kept. -/
theorem takeLines_rest {rest : List α} (h : sep ∉ rest) (cs : List α) :
    takeLines sep [] (rest ++ cs) = takeLines sep rest cs := by
  rw [takeLines_append, takeLines_of_notMem h]
  rfl

/-- However a text is cut into chunks, the reader takes its lines. -/
theorem foldl_feed (f : β → List α → β) (b : β) {rest : List α} (h : sep ∉ rest)
    (chunks : List (List α)) :
    chunks.foldl (feed sep f) (b, rest) =
      ((takeLines sep rest chunks.flatten).1.foldl f b,
        (takeLines sep rest chunks.flatten).2) := by
  induction chunks generalizing b rest with
  | nil => rfl
  | cons chunk chunks ih =>
      have hrest := sep_notMem_rest h chunk
      rw [List.foldl_cons, feed, takeLines_rest h, ih _ hrest, List.flatten_cons,
        takeLines_append, List.foldl_append]

theorem takeLines_line {line : List α} (h : sep ∉ line) (cs : List α) :
    takeLines sep [] (line ++ sep :: cs) =
      (line :: (takeLines sep [] cs).1, (takeLines sep [] cs).2) := by
  rw [takeLines_rest h, takeLines, if_pos rfl]

/-- A text of lines has these lines. -/
theorem takeLines_flatMap {lines : List (List α)} (h : ∀ l ∈ lines, sep ∉ l) :
    takeLines sep [] (lines.flatMap fun l => l ++ [sep]) = (lines, []) := by
  induction lines with
  | nil => rfl
  | cons l lines ih =>
      obtain ⟨hl, h⟩ := List.forall_mem_cons.mp h
      rw [List.flatMap_cons, List.append_assoc, List.singleton_append, takeLines_line hl, ih h]

theorem prefix_of_takeLines {line l : List α} {cs : List α} {ls : List (List α)}
    (h : (takeLines sep line cs).1 = l :: ls) : line <+: l := by
  induction cs generalizing line with
  | nil => exact absurd h (List.cons_ne_nil _ _).symm
  | cons c cs ih =>
      rw [takeLines] at h
      split at h
      · rw [(List.cons.inj h).1]
      · exact (List.prefix_append _ _).trans (ih h)

theorem takeLines_eq_nil {line cs : List α} (h : (takeLines sep line cs).1 = []) :
    (takeLines sep line cs).2 = line ++ cs := by
  induction cs generalizing line with
  | nil => rw [takeLines, List.append_nil]
  | cons c cs ih =>
      rw [takeLines] at h ⊢
      split at h
      · exact absurd h (List.cons_ne_nil _ _)
      · rename_i hc
        rw [if_neg hc, ih h, List.append_assoc]
        rfl

/-- What the buffer keeps of a text of short lines is shorter than a line. -/
theorem length_rest_lt {lines : List (List α)} (h : ∀ l ∈ lines, sep ∉ l) {n : Nat}
    (hshort : ∀ l ∈ lines, l.length < n) {a b : List α} (hb : b ≠ [])
    (htext : (lines.flatMap fun l => l ++ [sep]) = a ++ b) :
    (takeLines sep [] a).2.length < n := by
  have hlines := takeLines_flatMap h
  rw [htext, takeLines_append] at hlines
  obtain ⟨hlines, hrest⟩ := Prod.mk.inj hlines
  cases hfirst : (takeLines sep (takeLines sep [] a).2 b).1 with
  | nil =>
      rw [takeLines_eq_nil hfirst] at hrest
      exact absurd (List.append_eq_nil_iff.mp hrest).2 hb
  | cons l ls =>
      have hmem : l ∈ lines := by
        rw [← hlines, hfirst]
        exact List.mem_append_right _ List.mem_cons_self
      exact Nat.lt_of_le_of_lt (prefix_of_takeLines hfirst).length_le (hshort l hmem)

end XMonitor.LineReader
