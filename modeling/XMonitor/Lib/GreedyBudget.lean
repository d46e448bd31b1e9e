import Mathlib.Algebra.GroupWithZero.Nat
import Mathlib.Data.List.Basic

/-!
# Filling a budget in order

Items arrive in a list and are charged one after the other, whether they are taken or not.
An item is taken if it is good, there is room for one more, and the charges up to its own
stay within a limit. Charging the items that are not taken may push a later one over the
limit; `taken_withoutRejected_iff` says when leaving the bad items out makes no difference.
-/

namespace GreedyBudget

variable {α : Type*} (cost : α → Nat) (Good : α → Prop) [DecidablePred Good] (limit room : Nat)

/-- The items that are taken when `spent` is charged and `count` are taken already. -/
def taken : List α → Nat → Nat → List α
  | [], _, _ => []
  | x :: xs, spent, count =>
    if room ≤ count then []
    else if Good x ∧ spent + cost x ≤ limit then x :: taken xs (spent + cost x) (count + 1)
    else taken xs (spent + cost x) count

/-- The list without the bad items whose charge stays below the limit. What comes after the
last item that is taken stays as it is. -/
def withoutRejected : List α → Nat → Nat → List α
  | [], _, _ => []
  | x :: xs, spent, count =>
    if room ≤ count then x :: xs
    else if Good x then
      x :: withoutRejected xs (spent + cost x) (if spent + cost x ≤ limit then count + 1 else count)
    else if spent + cost x < limit then withoutRejected xs (spent + cost x) count
    else x :: withoutRejected xs (spent + cost x) count

/-- The charges of a list without the bad items that stay below the limit, added to `kept`. -/
def spentWithout : List α → Nat → Nat → Nat
  | [], _, kept => kept
  | x :: xs, spent, kept =>
    spentWithout xs (spent + cost x)
      (if ¬ Good x ∧ spent + cost x < limit then kept else kept + cost x)

section

variable {cost Good limit room} {spent kept count : Nat}

theorem le_spentWithout (xs : List α) (spent kept : Nat) :
    kept ≤ spentWithout cost Good limit xs spent kept := by
  induction xs generalizing spent kept with
  | nil => exact Nat.le_refl _
  | cons x xs ih =>
      rw [spentWithout]
      refine Nat.le_trans ?_ (ih _ _)
      split
      · exact Nat.le_refl _
      · exact Nat.le_add_right _ _

/-- Above the limit nothing is taken. -/
theorem taken_eq_nil (xs : List α) (h : limit < spent) :
    taken cost Good limit room xs spent count = [] := by
  induction xs generalizing spent with
  | nil => rfl
  | cons x xs ih =>
      rw [taken]
      split
      · rfl
      · rw [if_neg (by omega), ih (by omega)]

/-- Without the rejected items at least as much is taken, in the same order. -/
theorem taken_isPrefix_taken (xs : List α) (hkept : kept ≤ spent) :
    taken cost Good limit room xs spent count <+:
      taken cost Good limit room (withoutRejected cost Good limit room xs spent count) kept
        count := by
  induction xs generalizing spent kept count with
  | nil => exact List.nil_prefix
  | cons x xs ih =>
      rw [taken, withoutRejected]
      by_cases hroom : room ≤ count
      · rw [if_pos hroom]
        exact List.nil_prefix
      rw [if_neg hroom, if_neg hroom]
      by_cases hgood : Good x
      · rw [if_pos hgood]
        by_cases hfit : spent + cost x ≤ limit
        · rw [if_pos ⟨hgood, hfit⟩, if_pos hfit, taken, if_neg hroom,
            if_pos ⟨hgood, by omega⟩, List.cons_prefix_cons]
          exact ⟨rfl, ih (by omega)⟩
        · rw [if_neg fun h => hfit h.2, taken_eq_nil xs (by omega)]
          exact List.nil_prefix
      · rw [if_neg fun h => hgood h.1, if_neg hgood]
        split
        · exact ih (by omega)
        · rw [taken, if_neg hroom, if_neg fun h => hgood h.1]
          exact ih (by omega)

/-- The ways to split a list with a first item. -/
theorem forall_split_cons {P : List α → α → Prop} {x : α} {xs : List α} :
    (∀ before y after, x :: xs = before ++ y :: after → P before y) ↔
      P [] x ∧ ∀ before y after, xs = before ++ y :: after → P (x :: before) y := by
  constructor
  · intro h
    refine ⟨h [] x xs rfl, ?_⟩
    rintro before y after rfl
    exact h (x :: before) y after rfl
  · rintro ⟨hfirst, hrest⟩ before y after hsplit
    cases before with
    | nil =>
        cases hsplit
        exact hfirst
    | cons z before =>
        obtain ⟨rfl, hxs⟩ := List.cons.inj hsplit
        exact hrest before y after hxs

/-- Leaving out the rejected items makes no difference exactly if every item that could be
taken without their charges is within the limit with them. -/
theorem taken_withoutRejected_iff (xs : List α) (hkept : kept ≤ spent) :
    taken cost Good limit room (withoutRejected cost Good limit room xs spent count) kept count =
        taken cost Good limit room xs spent count ↔
      ∀ before x after, xs = before ++ x :: after → Good x →
        count + (before.filter Good).length < room →
        spentWithout cost Good limit before spent kept + cost x ≤ limit →
          spent + (before.map cost).sum + cost x ≤ limit := by
  induction xs generalizing spent kept count with
  | nil =>
      refine iff_of_true rfl fun before x after h => ?_
      simp at h
  | cons x xs ih =>
      rw [taken, withoutRejected, forall_split_cons]
      by_cases hroom : room ≤ count
      · rw [if_pos hroom, if_pos hroom, taken, if_pos hroom]
        refine iff_of_true rfl ⟨fun _ h => ?_, fun _ _ _ _ _ h => ?_⟩
        · omega
        · omega
      rw [if_neg hroom, if_neg hroom]
      by_cases hgood : Good x
      · have hcharged (before : List α) : spentWithout cost Good limit (x :: before) spent kept =
            spentWithout cost Good limit before (spent + cost x) (kept + cost x) := by
          rw [spentWithout, if_neg fun h => h.1 hgood]
        have hcount (before : List α) : ((x :: before).filter Good).length =
            (before.filter Good).length + 1 := by
          simp [hgood]
        rw [if_pos hgood]
        by_cases hfit : spent + cost x ≤ limit
        · rw [if_pos hfit, if_pos ⟨hgood, hfit⟩, taken, if_neg hroom,
            if_pos ⟨hgood, by omega⟩, List.cons.injEq, and_iff_right rfl, ih (by omega)]
          simp only [hcharged, hcount, List.map_cons, List.sum_cons, List.map_nil, List.sum_nil]
          constructor
          · intro h
            refine ⟨fun _ _ _ => hfit, fun before y after hxs hy hlt hle => ?_⟩
            have := h before y after hxs hy (by omega) hle
            omega
          · rintro ⟨-, h⟩ before y after hxs hy hlt hle
            have := h before y after hxs hy (by omega) hle
            omega
        · rw [if_neg hfit, if_neg fun h => hfit h.2, taken_eq_nil xs (by omega), taken,
            if_neg hroom]
          by_cases hover : kept + cost x ≤ limit
          · rw [if_pos ⟨hgood, hover⟩]
            refine iff_of_false (List.cons_ne_nil _ _) fun h => ?_
            have := h.1 hgood (by simpa using Nat.lt_of_not_le hroom) hover
            simp only [List.map_nil, List.sum_nil] at this
            omega
          · rw [if_neg fun h => hover h.2, taken_eq_nil _ (by omega)]
            refine iff_of_true rfl ⟨fun _ _ h => absurd h hover, fun before y after _ _ _ h => ?_⟩
            have hle : kept + cost x ≤ spentWithout cost Good limit before (spent + cost x)
                (kept + cost x) := le_spentWithout before _ _
            rw [hcharged] at h
            omega
      · have hnot {n : Nat} : ¬ (Good x ∧ n ≤ limit) := fun h => hgood h.1
        have hcount (before : List α) : ((x :: before).filter Good).length =
            (before.filter Good).length := by
          simp [hgood]
        have hsum (before : List α) : spent + ((x :: before).map cost).sum =
            spent + cost x + (before.map cost).sum := by
          rw [List.map_cons, List.sum_cons, Nat.add_assoc]
        rw [if_neg hgood, if_neg hnot]
        by_cases hbelow : spent + cost x < limit
        · have hcharged (before : List α) : spentWithout cost Good limit (x :: before) spent kept =
              spentWithout cost Good limit before (spent + cost x) kept := by
            rw [spentWithout, if_pos ⟨hgood, hbelow⟩]
          rw [if_pos hbelow, ih (by omega)]
          simp only [hcharged, hcount, hsum]
          exact (and_iff_right fun h => absurd h hgood).symm
        · have hcharged (before : List α) : spentWithout cost Good limit (x :: before) spent kept =
              spentWithout cost Good limit before (spent + cost x) (kept + cost x) := by
            rw [spentWithout, if_neg fun h => hbelow h.2]
          rw [if_neg hbelow, taken, if_neg hroom, if_neg hnot, ih (by omega)]
          simp only [hcharged, hcount, hsum]
          exact (and_iff_right fun h => absurd h hgood).symm

end

end GreedyBudget
