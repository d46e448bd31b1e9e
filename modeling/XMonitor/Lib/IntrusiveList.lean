import Mathlib.Data.List.Induction
import Mathlib.Data.List.Nodup
import Mathlib.Logic.Function.Basic

/-!
# Doubly linked lists in memory

A memory maps addresses to cells, and a cell points to the cells before and after it.
`Segment` says that some cells are linked one after another, between two pointers, and
carry the data of a list. The operations read and write single pointers; each returns
nothing if it would follow a pointer to no cell.

A list in memory is a segment between two null pointers. Its cells have different
addresses, so that it ends after as many steps as it has cells.
-/

namespace IntrusiveList

variable {α : Type*}

structure Cell (α : Type*) where
  prev : Option Nat
  next : Option Nat
  data : α

/-- The cells that are allocated. -/
abbrev Memory (α : Type*) := Nat → Option (Cell α)

/-! ## Writing -/

/-- `if (p) p->prev = v` -/
def linkPrev (m : Memory α) (p v : Option Nat) : Option (Memory α) :=
  match p with
  | none => some m
  | some a => (m a).map fun c => Function.update m a (some { c with prev := v })

/-- `if (p) p->next = v` -/
def linkNext (m : Memory α) (p v : Option Nat) : Option (Memory α) :=
  match p with
  | none => some m
  | some a => (m a).map fun c => Function.update m a (some { c with next := v })

/-- Change the data of a cell. -/
def setData (m : Memory α) (a : Nat) (x : α) : Option (Memory α) :=
  (m a).map fun c => Function.update m a (some { c with data := x })

/-! ## Segments -/

/-- The pointer to the first cell of a list, or to what comes after it. -/
def first (xs : List (Nat × α)) (next : Option Nat) : Option Nat :=
  (xs.head?.map Prod.fst).or next

/-- The pointer to the last cell of a list, or to what comes before it. -/
def last (prev : Option Nat) (xs : List (Nat × α)) : Option Nat :=
  (xs.getLast?.map Prod.fst).or prev

/-- The addresses of the cells. -/
def addresses (xs : List (Nat × α)) : List Nat := xs.map Prod.fst

/-- The cells are linked from `prev` to `next` and carry the data. -/
def Segment (m : Memory α) : Option Nat → List (Nat × α) → Option Nat → Prop
  | _, [], _ => True
  | prev, x :: xs, next =>
      m x.1 = some ⟨prev, first xs next, x.2⟩ ∧ Segment m (some x.1) xs next

@[simp] theorem first_nil (next : Option Nat) : first ([] : List (Nat × α)) next = next := rfl

@[simp] theorem first_cons (x : Nat × α) (xs : List (Nat × α)) (next : Option Nat) :
    first (x :: xs) next = some x.1 := rfl

@[simp] theorem last_nil (prev : Option Nat) : last prev ([] : List (Nat × α)) = prev := rfl

theorem last_cons (prev : Option Nat) (x : Nat × α) (xs : List (Nat × α)) :
    last prev (x :: xs) = last (some x.1) xs := by
  cases xs with
  | nil => rfl
  | cons y ys =>
      rw [last, last, List.getLast?_cons_cons,
        List.getLast?_eq_some_getLast (List.cons_ne_nil y ys)]
      rfl

@[simp] theorem last_concat (prev : Option Nat) (xs : List (Nat × α)) (x : Nat × α) :
    last prev (xs ++ [x]) = some x.1 := by
  rw [last, List.getLast?_concat]
  rfl

theorem first_append (xs ys : List (Nat × α)) (next : Option Nat) :
    first (xs ++ ys) next = first xs (first ys next) := by
  cases xs <;> rfl

@[simp] theorem addresses_nil : addresses ([] : List (Nat × α)) = [] := rfl

@[simp] theorem addresses_cons (x : Nat × α) (xs : List (Nat × α)) :
    addresses (x :: xs) = x.1 :: addresses xs := rfl

@[simp] theorem addresses_append (xs ys : List (Nat × α)) :
    addresses (xs ++ ys) = addresses xs ++ addresses ys := List.map_append

theorem mem_addresses {x : Nat × α} {xs : List (Nat × α)} (h : x ∈ xs) : x.1 ∈ addresses xs :=
  List.mem_map_of_mem h

variable {m m' : Memory α} {prev next : Option Nat} {xs ys : List (Nat × α)}

theorem segment_append :
    Segment m prev (xs ++ ys) next ↔
      Segment m prev xs (first ys next) ∧ Segment m (last prev xs) ys next := by
  induction xs generalizing prev with
  | nil => simp [Segment]
  | cons x xs ih =>
      rw [List.cons_append, Segment, Segment, ih, first_append, last_cons, and_assoc]

/-- The frame rule. -/
theorem Segment.congr (h : Segment m prev xs next)
    (hsame : ∀ a ∈ addresses xs, m' a = m a) : Segment m' prev xs next := by
  induction xs generalizing prev with
  | nil => trivial
  | cons x xs ih =>
      obtain ⟨hx, hxs⟩ := h
      refine ⟨(hsame x.1 List.mem_cons_self).trans hx, ih hxs fun a ha => ?_⟩
      exact hsame a (List.mem_cons_of_mem x.1 ha)

theorem Segment.cell (h : Segment m prev (xs ++ x :: ys) next) :
    m x.1 = some ⟨last prev xs, first ys next, x.2⟩ :=
  (segment_append.mp h).2.1

/-- Write the pointer from the last cell of a segment. -/
theorem Segment.linkNext (h : Segment m none xs next) (hnodup : (addresses xs).Nodup)
    (next' : Option Nat) :
    ∃ m', linkNext m (last none xs) next' = some m' ∧ Segment m' none xs next' ∧
      ∀ a ∉ addresses xs, m' a = m a := by
  induction xs using List.reverseRecOn with
  | nil => exact ⟨m, rfl, trivial, fun _ _ => rfl⟩
  | append_singleton xs x _ =>
      have hcell : m x.1 = some ⟨last none xs, next, x.2⟩ := h.cell
      refine ⟨_, by rw [last_concat, IntrusiveList.linkNext, hcell]; rfl, ?_, ?_⟩
      · rw [addresses_append, List.nodup_append] at hnodup
        refine segment_append.mpr ⟨(segment_append.mp h).1.congr fun a ha => ?_, ?_, trivial⟩
        · exact Function.update_of_ne (hnodup.2.2 a ha x.1 List.mem_cons_self) _ _
        · exact Function.update_self _ _ _
      · intro a ha
        apply Function.update_of_ne
        rintro rfl
        exact ha (mem_addresses (List.mem_append_right xs List.mem_cons_self))

/-- Write the pointer from the first cell of a segment. -/
theorem Segment.linkPrev (h : Segment m prev xs none) (hnodup : (addresses xs).Nodup)
    (prev' : Option Nat) :
    ∃ m', linkPrev m (first xs none) prev' = some m' ∧ Segment m' prev' xs none ∧
      ∀ a ∉ addresses xs, m' a = m a := by
  cases xs with
  | nil => exact ⟨m, rfl, trivial, fun _ _ => rfl⟩
  | cons x xs =>
      obtain ⟨hcell, hrest⟩ := h
      refine ⟨_, by rw [first_cons, IntrusiveList.linkPrev, hcell]; rfl, ⟨?_, ?_⟩, ?_⟩
      · exact Function.update_self _ _ _
      · refine hrest.congr fun a ha => Function.update_of_ne ?_ _ _
        rintro rfl
        exact (List.nodup_cons.mp hnodup).1 ha
      · intro a ha
        apply Function.update_of_ne
        rintro rfl
        exact ha List.mem_cons_self

theorem Segment.setData (h : Segment m prev (xs ++ x :: ys) next)
    (hnodup : (addresses (xs ++ x :: ys)).Nodup) (y : α) :
    ∃ m', setData m x.1 y = some m' ∧ Segment m' prev (xs ++ (x.1, y) :: ys) next ∧
      ∀ a ≠ x.1, m' a = m a := by
  have hcell := h.cell
  obtain ⟨hxs, -, hys⟩ := segment_append.mp h
  rw [addresses_append, List.nodup_append] at hnodup
  obtain ⟨-, hrest, hdisjoint⟩ := hnodup
  refine ⟨_, by rw [IntrusiveList.setData, hcell]; rfl, ?_, fun a ha =>
    Function.update_of_ne ha _ _⟩
  refine segment_append.mpr ⟨?_, ?_, ?_⟩
  · exact hxs.congr fun a ha =>
      Function.update_of_ne (hdisjoint a ha x.1 List.mem_cons_self) _ _
  · exact Function.update_self _ _ _
  · refine hys.congr fun a ha => Function.update_of_ne ?_ _ _
    rintro rfl
    exact (List.nodup_cons.mp hrest).1 ha

/-! ## Lists -/

/-- Take a cell out of the list. -/
def unlink (m : Memory α) (head : Option Nat) (e : Nat) : Option (Memory α × Option Nat) := do
  let c ← m e
  let m ← linkPrev m c.next c.prev
  let c ← m e
  let m ← linkNext m c.prev c.next
  some (m, if head = some e then c.next else head)

/-- Put a cell in front of another, or make it the only one. -/
def insertBefore (m : Memory α) (head : Option Nat) (e : Nat) (p : Option Nat) :
    Option (Memory α × Option Nat) := do
  let m ← linkNext m (some e) p
  match p with
  | some n =>
      let cn ← m n
      let m ← linkPrev m (some e) cn.prev
      let m ← linkPrev m (some n) (some e)
      let c ← m e
      let m ← linkNext m c.prev (some e)
      some (m, if head = some n then some e else head)
  | none =>
      let m ← linkPrev m (some e) none
      some (m, if head = none then some e else head)

def pushFront (m : Memory α) (head : Option Nat) (e : Nat) : Option (Memory α × Option Nat) := do
  let m ← linkPrev m (some e) none
  let m ← linkNext m (some e) head
  let m ← linkPrev m head (some e)
  some (m, some e)

/-- The loop that follows the pointers to the first cell with a property, for so many steps
at most. -/
def find (m : Memory α) (p : α → Bool) : Nat → Option Nat → Option (Option Nat)
  | _, none => some none
  | 0, some _ => none
  | n + 1, some a => (m a).bind fun c => if p c.data then some (some a) else find m p n c.next

theorem Segment.find (h : Segment m prev xs none) (p : α → Bool) {n : Nat} (hn : xs.length ≤ n) :
    find m p n (first xs none) = some ((xs.find? fun x => p x.2).map Prod.fst) := by
  induction xs generalizing prev n with
  | nil => cases n <;> rfl
  | cons x xs ih =>
      obtain ⟨hcell, hrest⟩ := h
      cases n with
      | zero => exact absurd hn (Nat.not_succ_le_zero _)
      | succ n =>
          rw [first_cons, IntrusiveList.find, hcell, Option.bind_some, List.find?_cons]
          cases hp : p x.2 with
          | true => rfl
          | false => exact ih hrest (Nat.le_of_succ_le_succ hn)

/-- The cells of a list have different addresses, and there are no others. -/
structure IsList (m : Memory α) (head : Option Nat) (xs : List (Nat × α)) : Prop where
  segment : Segment m none xs none
  head_eq : head = first xs none
  nodup : (addresses xs).Nodup

theorem IsList.congr {head : Option Nat} (h : IsList m head xs)
    (hsame : ∀ a ∈ addresses xs, m' a = m a) : IsList m' head xs :=
  ⟨h.segment.congr hsame, h.head_eq, h.nodup⟩

theorem nodup_of_append_cons {x : Nat × α} (h : (addresses (xs ++ x :: ys)).Nodup) :
    (addresses (xs ++ ys)).Nodup ∧ x.1 ∉ addresses xs ∧ x.1 ∉ addresses ys := by
  rw [addresses_append, addresses_cons] at h
  rw [addresses_append]
  obtain ⟨hmem, hrest⟩ := List.nodup_middle.mp h |> List.nodup_cons.mp
  rw [List.mem_append, not_or] at hmem
  exact ⟨hrest, hmem⟩

theorem first_append_cons_ne {x : Nat × α} (h : x.1 ∉ addresses xs) :
    first (xs ++ x :: ys) none = some x.1 ↔ xs = [] := by
  cases xs with
  | nil => simp
  | cons y xs =>
      simp only [List.cons_append, first_cons, Option.some.injEq, reduceCtorEq, iff_false]
      rintro heq
      rw [addresses_cons, List.mem_cons, not_or] at h
      exact h.1 heq.symm

theorem IsList.unlink {head : Option Nat} {x : Nat × α} (h : IsList m head (xs ++ x :: ys)) :
    ∃ m' head', unlink m head x.1 = some (m', head') ∧ IsList m' head' (xs ++ ys) ∧
      ∀ a ∉ addresses (xs ++ ys), m' a = m a := by
  obtain ⟨hrest, hxs, hys⟩ := nodup_of_append_cons h.nodup
  obtain ⟨hbefore, hcell, hbehind⟩ := segment_append.mp h.segment
  have hnodup := hrest
  rw [addresses_append, List.nodup_append] at hnodup
  obtain ⟨hnodupXs, hnodupYs, hdisjoint⟩ := hnodup
  obtain ⟨m₁, hm₁, hbehind₁, hframe₁⟩ := hbehind.linkPrev hnodupYs (last none xs)
  have hbefore₁ : Segment m₁ none xs (some x.1) :=
    hbefore.congr fun a ha => hframe₁ a fun ha' => hdisjoint a ha a ha' rfl
  have hcell₁ : m₁ x.1 = some ⟨last none xs, first ys none, x.2⟩ := (hframe₁ x.1 hys).trans hcell
  obtain ⟨m₂, hm₂, hbefore₂, hframe₂⟩ := hbefore₁.linkNext hnodupXs (first ys none)
  have hbehind₂ : Segment m₂ (last none xs) ys none :=
    hbehind₁.congr fun a ha => hframe₂ a fun ha' => hdisjoint a ha' a ha rfl
  refine ⟨m₂, if head = some x.1 then first ys none else head, ?_, ⟨?_, ?_, hrest⟩, ?_⟩
  · simp only [IntrusiveList.unlink, hcell, Option.bind_eq_bind, Option.bind_some, hm₁, hcell₁,
      hm₂]
  · exact segment_append.mpr ⟨hbefore₂, hbehind₂⟩
  · rw [h.head_eq]
    by_cases hnil : xs = []
    · subst hnil
      exact if_pos rfl
    · rw [if_neg ((first_append_cons_ne hxs).not.mpr hnil)]
      cases xs with
      | nil => exact absurd rfl hnil
      | cons y xs => rfl
  · intro a ha
    rw [addresses_append, List.mem_append, not_or] at ha
    rw [hframe₂ a ha.1, hframe₁ a ha.2]

/-- The pointers of a new cell are written. -/
theorem link_new {e : Nat} {c : Cell α} (hcell : m e = some c) (v : Option Nat) :
    linkNext m (some e) v = some (Function.update m e (some { c with next := v })) ∧
      linkPrev m (some e) v = some (Function.update m e (some { c with prev := v })) := by
  rw [linkNext, linkPrev, hcell]
  exact ⟨rfl, rfl⟩

theorem IsList.insertBefore {head : Option Nat} {e : Nat} {n : Nat × α} {c : Cell α}
    (h : IsList m head (xs ++ n :: ys)) (hnew : e ∉ addresses (xs ++ n :: ys))
    (hcell : m e = some c) :
    ∃ m' head', insertBefore m head e (some n.1) = some (m', head') ∧
      IsList m' head' (xs ++ (e, c.data) :: n :: ys) ∧
      ∀ a ∉ addresses (xs ++ (e, c.data) :: n :: ys), m' a = m a := by
  have hnodup := h.nodup
  rw [addresses_append, List.nodup_append] at hnodup
  obtain ⟨hnodupXs, hnodupYs, hdisjoint⟩ := hnodup
  have hnew' := hnew
  rw [addresses_append, List.mem_append, not_or] at hnew'
  obtain ⟨hnewXs, hnewYs⟩ := hnew'
  obtain ⟨hbefore, hbehind⟩ := segment_append.mp h.segment
  have hne : n.1 ≠ e := fun heq => hnewYs (heq ▸ List.mem_cons_self)
  -- both pointers of the new cell
  have hlink₁ := (link_new hcell (some n.1)).1
  generalize hm₁ : Function.update m e (some { c with next := some n.1 }) = m₁ at hlink₁
  have hcell₁ : m₁ e = some { c with next := some n.1 } := by rw [← hm₁, Function.update_self]
  have hframe₁ : ∀ a ≠ e, m₁ a = m a := fun a ha => by rw [← hm₁, Function.update_of_ne ha]
  have hn : m₁ n.1 = some ⟨last none xs, first ys none, n.2⟩ := (hframe₁ n.1 hne).trans hbehind.1
  have hlink₂ := (link_new hcell₁ (last none xs)).2
  generalize hm₂ : Function.update m₁ e _ = m₂ at hlink₂
  have hcell₂ : m₂ e = some ⟨last none xs, some n.1, c.data⟩ := by
    rw [← hm₂, Function.update_self]
  have hframe₂ : ∀ a ≠ e, m₂ a = m a := fun a ha => by
    rw [← hm₂, Function.update_of_ne ha, hframe₁ a ha]
  -- the pointers to it
  have hbehind₂ : Segment m₂ (last none xs) (n :: ys) none :=
    hbehind.congr fun a ha => hframe₂ a fun heq => hnewYs (heq ▸ ha)
  obtain ⟨m₃, hlink₃, hbehind₃, hframe₃⟩ := hbehind₂.linkPrev hnodupYs (some e)
  have hcell₃ : m₃ e = some ⟨last none xs, some n.1, c.data⟩ := (hframe₃ e hnewYs).trans hcell₂
  have hbefore₃ : Segment m₃ none xs (some n.1) := by
    refine hbefore.congr fun a ha => ?_
    rw [hframe₃ a fun ha' => hdisjoint a ha a ha' rfl, hframe₂ a fun heq => hnewXs (heq ▸ ha)]
  obtain ⟨m₄, hlink₄, hbefore₄, hframe₄⟩ := hbefore₃.linkNext hnodupXs (some e)
  have hcell₄ : m₄ e = some ⟨last none xs, some n.1, c.data⟩ := (hframe₄ e hnewXs).trans hcell₃
  have hbehind₄ : Segment m₄ (some e) (n :: ys) none :=
    hbehind₃.congr fun a ha => hframe₄ a fun ha' => hdisjoint a ha' a ha rfl
  refine ⟨m₄, if head = some n.1 then some e else head, ?_, ⟨?_, ?_, ?_⟩, ?_⟩
  · have hlink₃' : linkPrev m₂ (some n.1) (some e) = some m₃ := hlink₃
    simp only [IntrusiveList.insertBefore, hlink₁, Option.bind_eq_bind, Option.bind_some, hn,
      hlink₂, hlink₃', hcell₃, hlink₄]
  · exact segment_append.mpr ⟨hbefore₄, hcell₄, hbehind₄⟩
  · have hnmem : n.1 ∉ addresses xs := fun hmem =>
      hdisjoint n.1 hmem n.1 List.mem_cons_self rfl
    rw [h.head_eq]
    by_cases hnil : xs = []
    · subst hnil
      exact if_pos rfl
    · rw [if_neg ((first_append_cons_ne hnmem).not.mpr hnil)]
      cases xs with
      | nil => exact absurd rfl hnil
      | cons y xs => rfl
  · rw [addresses_append, addresses_cons]
    apply List.nodup_middle.mpr
    rw [← addresses_append]
    exact List.nodup_cons.mpr ⟨hnew, h.nodup⟩
  · intro a ha
    rw [addresses_append, addresses_cons, List.mem_append, List.mem_cons, not_or, not_or] at ha
    rw [hframe₄ a ha.1, hframe₃ a ha.2.2, hframe₂ a ha.2.1]

theorem IsList.pushFront {head : Option Nat} {e : Nat} {c : Cell α} (h : IsList m head xs)
    (hnew : e ∉ addresses xs) (hcell : m e = some c) :
    ∃ m', pushFront m head e = some (m', some e) ∧ IsList m' (some e) ((e, c.data) :: xs) ∧
      ∀ a ∉ addresses ((e, c.data) :: xs), m' a = m a := by
  have hlink₁ := (link_new hcell none).2
  generalize hm₁ : Function.update m e _ = m₁ at hlink₁
  have hcell₁ : m₁ e = some { c with prev := none } := by rw [← hm₁, Function.update_self]
  have hlink₂ := (link_new hcell₁ head).1
  generalize hm₂ : Function.update m₁ e _ = m₂ at hlink₂
  have hcell₂ : m₂ e = some ⟨none, head, c.data⟩ := by rw [← hm₂, Function.update_self]
  have hframe₂ : ∀ a ≠ e, m₂ a = m a := fun a ha => by
    rw [← hm₂, Function.update_of_ne ha, ← hm₁, Function.update_of_ne ha]
  have hsegment₂ : Segment m₂ none xs none :=
    h.segment.congr fun a ha => hframe₂ a fun heq => hnew (heq ▸ ha)
  obtain ⟨m₃, hlink₃, hsegment₃, hframe₃⟩ := hsegment₂.linkPrev h.nodup (some e)
  rw [← h.head_eq] at hlink₃
  have hcell₃ : m₃ e = some ⟨none, first xs none, c.data⟩ := by
    rw [hframe₃ e hnew, hcell₂, h.head_eq]
  refine ⟨m₃, ?_, ⟨⟨hcell₃, hsegment₃⟩, rfl, List.nodup_cons.mpr ⟨hnew, h.nodup⟩⟩, ?_⟩
  · simp only [IntrusiveList.pushFront, hlink₁, Option.bind_eq_bind, Option.bind_some, hlink₂,
      hlink₃]
  · intro a ha
    rw [addresses_cons, List.mem_cons, not_or] at ha
    rw [hframe₃ a ha.2, hframe₂ a ha.1]

end IntrusiveList
