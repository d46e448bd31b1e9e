import Mathlib.Data.List.Induction

/-!
# Maximal runs

The runs of a list are the longest parts without a gap whose elements all satisfy a predicate.
They are what is left between the other elements.
-/

namespace XMonitor.Lib

variable {α : Type*} {p : α → Bool}

/-- The maximal runs of elements that satisfy `p`, in order. -/
def runs (p : α → Bool) (l : List α) : List (List α) :=
  (l.splitOnP fun x => !p x).filter fun w => !w.isEmpty

/-- No run goes on behind the list. -/
def Apart (p : α → Bool) (l : List α) : Prop := ∀ x ∈ l.getLast?, p x = false

theorem apart_nil : Apart p [] := fun x hx => by cases hx

theorem apart_concat {l : List α} {x : α} (h : p x = false) : Apart p (l ++ [x]) := by
  intro y hy
  rw [List.getLast?_concat] at hy
  obtain rfl := Option.some.inj hy
  exact h

theorem runs_nil : runs p [] = [] := rfl

theorem runs_of_forall {w : List α} (hw : ∀ x ∈ w, p x = true) (hne : w ≠ []) :
    runs p w = [w] := by
  have hsplit : (w.splitOnP fun x => !p x) = [w] :=
    List.splitOnP_eq_singleton fun x hx => by rw [hw x hx]; rfl
  rw [runs, hsplit, List.filter_cons_of_pos (by simpa using hne), List.filter_nil]

/-- A run ends at an element that does not satisfy the predicate. -/
theorem runs_append_cons (a : List α) {x : α} (h : p x = false) (b : List α) :
    runs p (a ++ x :: b) = runs p a ++ runs p b := by
  rw [runs, List.splitOnP_append_cons a b (by rw [h]; rfl), List.filter_append]
  rfl

theorem runs_concat (a : List α) {x : α} (h : p x = false) : runs p (a ++ [x]) = runs p a := by
  rw [runs_append_cons a h, runs_nil, List.append_nil]

/-- The runs in front of a point where none goes on, and those behind it. -/
theorem runs_append {a : List α} (h : Apart p a) (b : List α) :
    runs p (a ++ b) = runs p a ++ runs p b := by
  obtain rfl | ⟨a, x, rfl⟩ := a.eq_nil_or_concat
  · rfl
  · rw [List.concat_eq_append] at h ⊢
    have hx : p x = false := h x (by rw [List.getLast?_concat]; rfl)
    rw [List.append_assoc, List.singleton_append, runs_append_cons a hx, runs_concat a hx]

/-- A run at the end. -/
theorem runs_append_word {a w : List α} (h : Apart p a) (hw : ∀ x ∈ w, p x = true)
    (hne : w ≠ []) : runs p (a ++ w) = runs p a ++ [w] := by
  rw [runs_append h, runs_of_forall hw hne]

/-- The pieces of a list have none of the elements at which it is cut. -/
theorem of_mem_splitOnP {q : α → Bool} {l piece : List α} (h : piece ∈ l.splitOnP q) :
    ∀ x ∈ piece, q x = false := by
  induction l generalizing piece with
  | nil =>
      rw [List.splitOnP_nil, List.mem_singleton] at h
      rw [h]
      exact fun x hx => absurd hx List.not_mem_nil
  | cons y l ih =>
      rw [List.splitOnP_cons_eq_if_modifyHead] at h
      split at h
      · obtain rfl | h := List.mem_cons.mp h
        · exact fun x hx => absurd hx List.not_mem_nil
        · exact ih h
      · rename_i hy
        obtain ⟨first, rest, hl⟩ := List.exists_cons_of_ne_nil (List.splitOnP_ne_nil q l)
        rw [hl] at h ih
        obtain rfl | h := List.mem_cons.mp h
        · exact List.forall_mem_cons.mpr ⟨Bool.eq_false_iff.mpr hy, ih List.mem_cons_self⟩
        · exact ih (List.mem_cons_of_mem _ h)

theorem of_mem_runs {l w : List α} (h : w ∈ runs p l) : w ≠ [] ∧ ∀ x ∈ w, p x = true := by
  obtain ⟨hpiece, hne⟩ := List.mem_filter.mp h
  refine ⟨by simpa using hne, fun x hx => ?_⟩
  simpa using of_mem_splitOnP hpiece x hx

/-- The pieces of a list change at the end only. -/
theorem splitOnP_concat {q : α → Bool} {l last : List α} {done : List (List α)}
    (h : l.splitOnP q = done ++ [last]) {x : α} (hx : q x = false) :
    (l ++ [x]).splitOnP q = done ++ [last ++ [x]] := by
  induction l generalizing done last with
  | nil =>
      obtain ⟨rfl, rfl⟩ : done = [] ∧ last = [] := by
        cases done with
        | nil => exact ⟨rfl, (List.cons.inj h).1.symm⟩
        | cons piece done => cases done <;> cases h
      rw [List.nil_append, List.splitOnP_cons_eq_if_modifyHead, hx]
      rfl
  | cons y l ih =>
      rw [List.splitOnP_cons_eq_if_modifyHead] at h
      rw [List.cons_append, List.splitOnP_cons_eq_if_modifyHead]
      split at h
      · rename_i hy
        rw [if_pos hy]
        cases done with
        | nil => exact absurd (List.cons.inj h).2 (List.splitOnP_ne_nil q l)
        | cons piece done =>
            obtain ⟨rfl, hrest⟩ := List.cons.inj h
            rw [ih hrest]
            rfl
      · rename_i hy
        rw [if_neg hy]
        obtain ⟨first, rest, hl⟩ := List.exists_cons_of_ne_nil (List.splitOnP_ne_nil q l)
        rw [hl] at h
        cases done with
        | nil =>
            obtain ⟨rfl, rfl⟩ := List.cons.inj h
            have hfirst : l.splitOnP q = [] ++ [first] := hl
            rw [ih hfirst]
            rfl
        | cons piece done =>
            obtain ⟨rfl, rfl⟩ := List.cons.inj h
            have hfirst : l.splitOnP q = (first :: done) ++ [last] := hl
            rw [ih hfirst]
            rfl

/-- What stands in front of the first cut belongs to the first piece. -/
theorem splitOnP_append_of_forall {q : α → Bool} {a : List α} (h : ∀ x ∈ a, q x = false)
    (b : List α) : (a ++ b).splitOnP q = (b.splitOnP q).modifyHead (a ++ ·) := by
  induction a with
  | nil =>
      obtain ⟨first, rest, hb⟩ := List.exists_cons_of_ne_nil (List.splitOnP_ne_nil q b)
      rw [List.nil_append, hb]
      rfl
  | cons x a ih =>
      obtain ⟨hx, h⟩ := List.forall_mem_cons.mp h
      rw [List.cons_append, List.splitOnP_cons_eq_if_modifyHead, hx, if_neg Bool.false_ne_true,
        ih h, List.modifyHead_modifyHead]
      rfl

/-- Words, each with a gap behind it. -/
theorem runs_words {words : List (List α)} {x : α} (hx : p x = false)
    (h : ∀ w ∈ words, w ≠ [] ∧ ∀ y ∈ w, p y = true) (l : List α) :
    runs p ((words.flatMap fun w => w ++ [x]) ++ l) = words ++ runs p l := by
  induction words with
  | nil => rfl
  | cons w words ih =>
      obtain ⟨⟨hne, hw⟩, h⟩ := List.forall_mem_cons.mp h
      rw [List.flatMap_cons, List.append_assoc, List.append_assoc, List.singleton_append,
        runs_append_cons w hx, runs_of_forall hw hne, ih h]
      rfl

/-- A replacement of elements by words, and of gaps by gaps, keeps the runs. -/
theorem runs_flatMap {β : Type*} {q : β → Bool} {f : β → List α}
    (hword : ∀ y, q y = true → f y ≠ [] ∧ ∀ x ∈ f y, p x = true)
    (hgap : ∀ y, q y = false → ∃ x, f y = [x] ∧ p x = false) (l : List β) :
    runs p (l.flatMap f) = (runs q l).map (List.flatMap f) := by
  have one {w : List β} (hw : ∀ y ∈ w, q y = true) :
      runs p (w.flatMap f) = (runs q w).map (List.flatMap f) := by
    cases w with
    | nil => rfl
    | cons y w =>
        have hne : (y :: w).flatMap f ≠ [] := fun hnil =>
          (hword y (hw y List.mem_cons_self)).1 (List.flatMap_eq_nil_iff.mp hnil y
            List.mem_cons_self)
        have hall : ∀ x ∈ (y :: w).flatMap f, p x = true := by
          intro x hx
          obtain ⟨z, hz, hx⟩ := List.mem_flatMap.mp hx
          exact (hword z (hw z hz)).2 x hx
        rw [runs_of_forall hall hne, runs_of_forall hw (List.cons_ne_nil y w)]
        rfl
  -- `w` is the run that is still open
  have key (l : List β) : ∀ w : List β, (∀ y ∈ w, q y = true) →
      runs p ((w ++ l).flatMap f) = (runs q (w ++ l)).map (List.flatMap f) := by
    induction l with
    | nil =>
        intro w hw
        rw [List.append_nil]
        exact one hw
    | cons y l ih =>
        intro w hw
        cases hy : q y with
        | true =>
            have hw' : ∀ z ∈ w ++ [y], q z = true :=
              List.forall_mem_append.mpr ⟨hw, List.forall_mem_singleton.mpr hy⟩
            have happend : w ++ y :: l = w ++ [y] ++ l := (List.append_assoc w [y] l).symm
            rw [happend]
            exact ih _ hw'
        | false =>
            obtain ⟨x, hx, hgap⟩ := hgap y hy
            rw [List.flatMap_append, List.flatMap_cons, hx, List.singleton_append,
              runs_append_cons _ hgap, runs_append_cons w hy, List.map_append, one hw]
            exact congrArg _ (ih [] (List.forall_mem_nil _))
  exact key l [] (List.forall_mem_nil _)

section SplitOn

variable {c : α} {w : List α}

/-- A part of a list lies between two cuts, or at an end of it. -/
def IsPiece (c : α) (w l : List α) : Prop :=
  ∃ a b, l = a ++ w ++ b ∧ (a = [] ∨ ∃ a', a = a' ++ [c]) ∧ (b = [] ∨ ∃ b', b = c :: b')

theorem IsPiece.append {l : List α} (h : IsPiece c w l) (a : List α) :
    IsPiece c w (a ++ c :: l) := by
  obtain ⟨a', b', rfl, ha', hb'⟩ := h
  refine ⟨a ++ c :: a', b', ?_, .inr ?_, hb'⟩
  · rw [List.append_assoc, List.append_assoc, List.append_assoc]
    rfl
  · obtain rfl | ⟨a'', rfl⟩ := ha'
    · exact ⟨a, rfl⟩
    · exact ⟨a ++ c :: a'', by rw [List.append_assoc]; rfl⟩

variable [DecidableEq α]

theorem isPiece_of_mem_splitOn {l : List α} (h : w ∈ l.splitOn c) : IsPiece c w l := by
  induction hn : l.length using Nat.strongRecOn generalizing l with
  | ind n ih =>
      by_cases hc : c ∈ l
      · obtain ⟨a, b, rfl, hca⟩ := List.eq_append_cons_of_mem hc
        rw [List.splitOn_append_cons_self, List.splitOn_eq_singleton hca,
          List.singleton_append] at h
        obtain rfl | h := List.mem_cons.mp h
        · exact ⟨[], c :: b, rfl, .inl rfl, .inr ⟨b, rfl⟩⟩
        · have hlt : b.length < n := by
            rw [← hn, List.length_append, List.length_cons]
            omega
          exact (ih _ hlt h rfl).append a
      · rw [List.splitOn_eq_singleton hc] at h
        obtain rfl := List.mem_singleton.mp h
        exact ⟨[], [], (List.append_nil w).symm, .inl rfl, .inl rfl⟩

theorem mem_splitOn_of_isPiece {l : List α} (hc : c ∉ w) (h : IsPiece c w l) :
    w ∈ l.splitOn c := by
  obtain ⟨a, b, rfl, ha, hb⟩ := h
  have hend : w ∈ (w ++ b).splitOn c := by
    obtain rfl | ⟨b', rfl⟩ := hb
    · rw [List.append_nil, List.splitOn_eq_singleton hc]
      exact List.mem_singleton_self w
    · rw [List.splitOn_append_cons_self, List.splitOn_eq_singleton hc]
      exact List.mem_cons_self
  rw [List.append_assoc]
  obtain rfl | ⟨a', rfl⟩ := ha
  · exact hend
  · rw [List.append_assoc, List.singleton_append, List.splitOn_append_cons_self]
    exact List.mem_append_right _ hend

/-- The pieces of a list. -/
theorem mem_splitOn_iff {l : List α} : w ∈ l.splitOn c ↔ c ∉ w ∧ IsPiece c w l := by
  constructor
  · intro h
    refine ⟨fun hc => ?_, isPiece_of_mem_splitOn h⟩
    simpa using of_mem_splitOnP h c hc
  · rintro ⟨hc, h⟩
    exact mem_splitOn_of_isPiece hc h

end SplitOn

end XMonitor.Lib
