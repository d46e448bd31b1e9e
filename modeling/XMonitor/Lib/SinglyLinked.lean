import Mathlib.Data.List.Nodup
import Mathlib.Logic.Function.Basic

/-!
# Singly linked lists in memory

A memory maps addresses to cells. A cell carries data and points to the next one, and `link`
and `data` are the two views of a memory: each operation changes one of them at one address.
It returns nothing if it would follow a pointer to no cell.

`Segment` says that the cells at a list of addresses are linked one after another. A search
keeps a pointer to the cell that it has passed last, behind which the cell that it finds can be
taken out. In front of the first cell that pointer is the head of the list.
-/

namespace SinglyLinked

variable {α : Type*}

structure Cell (α : Type*) where
  next : Option Nat
  data : α

/-- The cells that are allocated. -/
abbrev Memory (α : Type*) := Nat → Option (Cell α)

/-- The pointer of a cell, and nothing where no cell is. -/
def link (m : Memory α) (a : Nat) : Option (Option Nat) := (m a).map Cell.next

/-- The data of a cell, and nothing where no cell is. -/
def data (m : Memory α) (a : Nat) : Option α := (m a).map Cell.data

/-- Change the pointer of a cell. -/
def setNext (m : Memory α) (a : Nat) (v : Option Nat) : Option (Memory α) :=
  (m a).map fun c => Function.update m a (some { c with next := v })

/-- Change the data of a cell. -/
def setData (m : Memory α) (a : Nat) (x : α) : Option (Memory α) :=
  (m a).map fun c => Function.update m a (some { c with data := x })

/-- The loop that follows the pointers to the first cell with a property, for so many steps
at most. It returns the last cell that it has passed, too. -/
def find (m : Memory α) (p : α → Bool) :
    Nat → Option Nat → Option Nat → Option (Option Nat × Option Nat)
  | _, prev, none => some (prev, none)
  | 0, _, some _ => none
  | n + 1, prev, some a =>
      (m a).bind fun c => if p c.data then some (prev, some a) else find m p n (some a) c.next

variable {m m' : Memory α} {p q r head v : Option Nat} {as bs : List Nat} {a b : Nat} {x y : α}

/-! ## The two views -/

theorem exists_cell (h : data m a = some x) : ∃ c, m a = some c ∧ c.data = x :=
  Option.map_eq_some_iff.mp h

theorem data_of_link (h : link m a = some r) : ∃ x, data m a = some x := by
  obtain ⟨c, hc, -⟩ := Option.map_eq_some_iff.mp h
  refine ⟨c.data, ?_⟩
  rw [data, hc]
  rfl

/-- Changing a pointer changes no data. -/
theorem setNext_eq (h : data m a = some x) (v : Option Nat) :
    ∃ m', setNext m a v = some m' ∧ link m' = Function.update (link m) a (some v) ∧
      data m' = data m := by
  obtain ⟨c, hc, -⟩ := exists_cell h
  refine ⟨_, by rw [setNext, hc, Option.map_some], ?_, ?_⟩
  · funext b
    by_cases hb : b = a
    · subst hb
      simp [link]
    · simp [link, hb]
  · funext b
    by_cases hb : b = a
    · subst hb
      simp [data, hc]
    · simp [data, hb]

/-- Changing data changes no pointer. -/
theorem setData_eq (h : data m a = some x) (y : α) :
    ∃ m', setData m a y = some m' ∧ link m' = link m ∧
      data m' = Function.update (data m) a (some y) := by
  obtain ⟨c, hc, -⟩ := exists_cell h
  refine ⟨_, by rw [setData, hc, Option.map_some], ?_, ?_⟩
  · funext b
    by_cases hb : b = a
    · subst hb
      simp [link, hc]
    · simp [link, hb]
  · funext b
    by_cases hb : b = a
    · subst hb
      simp [data]
    · simp [data, hb]

theorem link_update (m : Memory α) (a : Nat) (c : Option (Cell α)) :
    link (Function.update m a c) = Function.update (link m) a (c.map Cell.next) := by
  funext b
  by_cases hb : b = a
  · subst hb
    simp [link]
  · simp [link, hb]

theorem data_update (m : Memory α) (a : Nat) (c : Option (Cell α)) :
    data (Function.update m a c) = Function.update (data m) a (c.map Cell.data) := by
  funext b
  by_cases hb : b = a
  · subst hb
    simp [data]
  · simp [data, hb]

/-! ## Segments -/

/-- The cells at the addresses are linked from a pointer to a pointer. -/
def Segment (m : Memory α) : Option Nat → List Nat → Option Nat → Prop
  | p, [], q => p = q
  | p, a :: as, q => p = some a ∧ ∃ r, link m a = some r ∧ Segment m r as q

/-- The list ends and does not come back to one of its cells. -/
structure IsList (m : Memory α) (head : Option Nat) (as : List Nat) : Prop where
  segment : Segment m head as none
  nodup : as.Nodup

theorem segment_append :
    Segment m p (as ++ bs) q ↔ ∃ r, Segment m p as r ∧ Segment m r bs q := by
  induction as generalizing p with
  | nil =>
      constructor
      · exact fun h => ⟨p, rfl, h⟩
      · rintro ⟨r, rfl, h⟩
        exact h
  | cons a as ih =>
      constructor
      · rintro ⟨hp, next, ha, h⟩
        obtain ⟨r, has, hbs⟩ := ih.mp h
        exact ⟨r, ⟨hp, next, ha, has⟩, hbs⟩
      · rintro ⟨r, ⟨hp, next, ha, has⟩, hbs⟩
        exact ⟨hp, next, ha, ih.mpr ⟨r, has, hbs⟩⟩

/-- The frame rule. -/
theorem Segment.congr (h : Segment m p as q) (hsame : ∀ a ∈ as, link m' a = link m a) :
    Segment m' p as q := by
  induction as generalizing p with
  | nil => exact h
  | cons a as ih =>
      obtain ⟨hp, next, ha, has⟩ := h
      refine ⟨hp, next, (hsame a List.mem_cons_self).trans ha, ih has fun b hb => ?_⟩
      exact hsame b (List.mem_cons_of_mem a hb)

theorem Segment.exists_link (h : Segment m p as q) (ha : a ∈ as) : ∃ r, link m a = some r := by
  obtain ⟨before, behind, rfl⟩ := List.append_of_mem ha
  obtain ⟨r, -, -, next, hlink, -⟩ := segment_append.mp h
  exact ⟨next, hlink⟩

theorem Segment.exists_data (h : Segment m p as q) (ha : a ∈ as) : ∃ x, data m a = some x := by
  obtain ⟨r, hr⟩ := h.exists_link ha
  exact data_of_link hr

theorem IsList.nil (m : Memory α) : IsList m none [] := ⟨rfl, List.nodup_nil⟩

theorem IsList.congr (h : IsList m head as) (hsame : ∀ a ∈ as, link m' a = link m a) :
    IsList m' head as :=
  ⟨h.segment.congr hsame, h.nodup⟩

/-- A pointer is the head of one list only. -/
theorem IsList.unique (h : IsList m head as) (h' : IsList m head bs) : as = bs := by
  obtain ⟨has, -⟩ := h
  obtain ⟨hbs, -⟩ := h'
  induction as generalizing head bs with
  | nil =>
      obtain rfl : head = none := has
      cases bs with
      | nil => rfl
      | cons b bs => exact absurd hbs.1 (Option.some_ne_none b).symm
  | cons a as ih =>
      obtain ⟨rfl, r, hr, hrest⟩ := has
      cases bs with
      | nil => exact absurd hbs (Option.some_ne_none a)
      | cons b bs =>
          obtain ⟨hb, r', hr', hrest'⟩ := hbs
          obtain rfl : a = b := Option.some.inj hb
          obtain rfl : r = r' := Option.some.inj (hr.symm.trans hr')
          rw [ih hrest hrest']

/-- A list that is not empty, without its first cell. -/
theorem IsList.exists_cons (h : IsList m (some a) as) {c : Cell α} (hc : m a = some c) :
    ∃ bs, as = a :: bs ∧ IsList m c.next bs := by
  cases as with
  | nil => exact absurd h.segment (Option.some_ne_none a)
  | cons b bs =>
      obtain ⟨hb, r, hr, hrest⟩ := h.segment
      obtain rfl := Option.some.inj hb
      rw [link, hc] at hr
      obtain rfl := Option.some.inj hr
      exact ⟨bs, rfl, hrest, (List.nodup_cons.mp h.nodup).2⟩

/-- A cell that points to the head of a list is the head of a longer one. -/
theorem IsList.cons (h : IsList m head as) (ha : link m a = some head) (hnew : a ∉ as) :
    IsList m (some a) (a :: as) :=
  ⟨⟨rfl, head, ha, h.segment⟩, List.nodup_cons.mpr ⟨hnew, h.nodup⟩⟩

/-- The cell behind another is taken out. -/
theorem IsList.unlink (h : IsList m head (as ++ b :: a :: bs)) (ha : link m a = some r)
    (hb : link m' b = some r) (hsame : ∀ c ≠ b, link m' c = link m c) :
    IsList m' head (as ++ b :: bs) := by
  have hsub : (as ++ b :: bs).Sublist (as ++ b :: a :: bs) :=
    (((List.sublist_cons_self a bs).cons_cons b).append_left as)
  have hnodup := h.nodup.sublist hsub
  obtain ⟨has, hbs, hdisjoint⟩ := List.nodup_append.mp hnodup
  obtain ⟨s, hseg, hs, r', -, hr'⟩ := segment_append.mp h.segment
  obtain ⟨-, r'', hr'', hrest⟩ := hr'
  obtain rfl : r = r'' := Option.some.inj (ha.symm.trans hr'')
  refine ⟨segment_append.mpr ⟨s, hseg.congr fun c hc => hsame c ?_, hs, r, hb,
    hrest.congr fun c hc => hsame c ?_⟩, hnodup⟩
  · exact hdisjoint c hc b List.mem_cons_self
  · rintro rfl
    exact (List.nodup_cons.mp hbs).1 hc

/-- The cell behind another is taken out and freed. -/
theorem IsList.remove (h : IsList m head (as ++ b :: a :: bs)) {c : Cell α} (hc : m a = some c) :
    b ≠ a ∧ ∃ m', setNext m b c.next = some m' ∧ data m' = data m ∧
      IsList (Function.update m' a none) head (as ++ b :: bs) := by
  have hnot : a ∉ as ++ b :: bs := by
    have hnodup := h.nodup
    rw [List.append_cons] at hnodup ⊢
    exact (List.nodup_cons.mp (List.nodup_middle.mp hnodup)).1
  obtain ⟨x, hx⟩ := h.segment.exists_data
    (List.mem_append_right as (List.mem_cons_self (a := b)))
  obtain ⟨m', hset, hlink, hdata⟩ := setNext_eq hx c.next
  refine ⟨?_, m', hset, hdata, ?_⟩
  · rintro rfl
    exact hnot (List.mem_append_right as List.mem_cons_self)
  · have hunlinked : IsList m' head (as ++ b :: bs) := by
      refine h.unlink (r := c.next) ?_ ?_ fun d hd => ?_
      · rw [link, hc]
        rfl
      · rw [hlink, Function.update_self]
      · rw [hlink, Function.update_of_ne hd]
    refine hunlinked.congr fun d hd => ?_
    rw [link_update, Function.update_of_ne]
    rintro rfl
    exact hnot hd

/-! ## Searching -/

/-- The search passes the cells without the property. -/
theorem Segment.find_append (h : Segment m p (as ++ bs) none) (test : α → Bool)
    (has : ∀ a ∈ as, ∀ x, data m a = some x → test x = false) (prev : Option Nat) (n : Nat) :
    ∃ r, Segment m r bs none ∧
      find m test (as.length + n) prev p = find m test n (as.getLast?.or prev) r := by
  induction as generalizing p prev with
  | nil => exact ⟨p, h, by rw [List.length_nil, Nat.zero_add]; rfl⟩
  | cons a as ih =>
      obtain ⟨rfl, next, ha, hrest⟩ := h
      obtain ⟨hfirst, has⟩ := List.forall_mem_cons.mp has
      obtain ⟨c, hc, rfl⟩ := Option.map_eq_some_iff.mp ha
      have htest : test c.data = false := hfirst c.data (by rw [data, hc]; rfl)
      obtain ⟨r, hr, hfind⟩ := ih hrest has (some a)
      refine ⟨r, hr, ?_⟩
      rw [List.length_cons, Nat.succ_add, SinglyLinked.find, hc, Option.bind_some]
      simp only [htest, Bool.false_eq_true, if_false]
      rw [hfind]
      cases as with
      | nil => rfl
      | cons b as =>
          rw [List.getLast?_cons_cons, List.getLast?_eq_some_getLast (List.cons_ne_nil b as)]
          rfl

/-- A search with enough steps finds the first cell with the property, if there is one. -/
theorem IsList.find (h : IsList m head as) (test : α → Bool) {n : Nat} (hn : as.length ≤ n) :
    (∃ prev, find m test n head head = some (prev, none) ∧
        ∀ a ∈ as, ∀ x, data m a = some x → test x = false) ∨
      ∃ before a behind x, as = before ++ a :: behind ∧ data m a = some x ∧ test x = true ∧
        (∀ b ∈ before, ∀ y, data m b = some y → test y = false) ∧
        find m test n head head = some (before.getLast?.or head, some a) := by
  cases hfind : as.find? (fun a => (data m a).any test) with
  | none =>
      have hnone : ∀ a ∈ as, ∀ x, data m a = some x → test x = false := by
        intro a ha x hx
        have hnot := List.find?_eq_none.mp hfind a ha
        rw [hx, Option.any_some] at hnot
        exact Bool.eq_false_iff.mpr hnot
      obtain ⟨k, rfl⟩ := Nat.exists_eq_add_of_le hn
      have hsegment : Segment m head (as ++ []) none := by
        rw [List.append_nil]
        exact h.segment
      obtain ⟨r, rfl, hsearch⟩ := hsegment.find_append test hnone head k
      refine .inl ⟨as.getLast?.or head, hsearch.trans ?_, hnone⟩
      cases k <;> rfl
  | some a =>
      obtain ⟨htest, before, behind, rfl, hbefore⟩ := List.find?_eq_some_iff_append.mp hfind
      have hbefore' : ∀ b ∈ before, ∀ y, data m b = some y → test y = false := by
        intro b hb y hy
        have hnot := hbefore b hb
        rw [hy, Option.any_some, Bool.not_eq_true'] at hnot
        exact hnot
      obtain ⟨k, rfl⟩ : ∃ k, n = before.length + (k + 1) := by
        rw [List.length_append, List.length_cons] at hn
        exact ⟨n - before.length - 1, by omega⟩
      obtain ⟨r, ⟨rfl, next, ha, -⟩, hsearch⟩ :=
        h.segment.find_append test hbefore' head (k + 1)
      obtain ⟨c, hc, -⟩ := Option.map_eq_some_iff.mp ha
      have hdata : data m a = some c.data := by rw [data, hc]; rfl
      rw [hdata, Option.any_some] at htest
      refine .inr ⟨before, a, behind, c.data, rfl, hdata, htest, hbefore', hsearch.trans ?_⟩
      rw [SinglyLinked.find, hc, Option.bind_some]
      exact if_pos htest

end SinglyLinked
