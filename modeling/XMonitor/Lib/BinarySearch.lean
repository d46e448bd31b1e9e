import Mathlib.Order.Defs.Unbundled

/-!
# Binary search with a three-way probe

The loop narrows `[start, stop)` by what a probe says of the middle: the key is below it, above
it or there. It ends with a hit, or where the window has closed. What holds at the end needs no
order of the elements: the probe just before the place says above, and the one at the place says
below, unless the place is an end of the window that the loop started with.
-/

namespace BinarySearch

inductive Outcome where
  | hit (mid : Nat)
  | miss (start : Nat)
deriving DecidableEq

def middle (start stop : Nat) : Nat := start + (stop - start) / 2

/-- The outcome, and the places that have been probed. -/
def search (probe : Nat → Ordering) (start stop : Nat) : Outcome × List Nat :=
  if _h : start < stop then
    match probe (middle start stop) with
    | .lt =>
        let rest := search probe start (middle start stop)
        (rest.1, middle start stop :: rest.2)
    | .gt =>
        let rest := search probe (middle start stop + 1) stop
        (rest.1, middle start stop :: rest.2)
    | .eq => (.hit (middle start stop), [middle start stop])
  else (.miss start, [])
termination_by stop - start
decreasing_by all_goals simp only [middle]; omega

variable {probe : Nat → Ordering} {start stop : Nat}

theorem le_middle (start stop : Nat) : start ≤ middle start stop := Nat.le_add_right _ _

theorem middle_lt (h : start < stop) : middle start stop < stop := by
  rw [middle]
  omega

theorem search_of_not_lt (h : ¬ start < stop) : search probe start stop = (.miss start, []) := by
  rw [search, dif_neg h]

theorem search_of_lt (h : start < stop) (hprobe : probe (middle start stop) = .lt) :
    search probe start stop =
      ((search probe start (middle start stop)).1,
        middle start stop :: (search probe start (middle start stop)).2) := by
  rw [search, dif_pos h, hprobe]

theorem search_of_gt (h : start < stop) (hprobe : probe (middle start stop) = .gt) :
    search probe start stop =
      ((search probe (middle start stop + 1) stop).1,
        middle start stop :: (search probe (middle start stop + 1) stop).2) := by
  rw [search, dif_pos h, hprobe]

theorem search_of_eq (h : start < stop) (hprobe : probe (middle start stop) = .eq) :
    search probe start stop = (.hit (middle start stop), [middle start stop]) := by
  rw [search, dif_pos h, hprobe]

/-- What is known where the search of `[start, stop)` ends. -/
def Ends (probe : Nat → Ordering) (start stop : Nat) : Outcome → Prop
  | .hit mid => start ≤ mid ∧ mid < stop ∧ probe mid = .eq
  | .miss place => start ≤ place ∧ place ≤ stop ∧ (start < place → probe (place - 1) = .gt) ∧
      (place < stop → probe place = .lt)

theorem Ends.of_left {mid : Nat} {outcome : Outcome} (hmid : mid < stop)
    (hprobe : probe mid = .lt) (h : Ends probe start mid outcome) :
    Ends probe start stop outcome := by
  cases outcome with
  | hit m => exact ⟨h.1, Nat.lt_trans h.2.1 hmid, h.2.2⟩
  | miss place =>
      obtain ⟨hle, hplace, hbefore, hat⟩ := h
      refine ⟨hle, Nat.le_trans hplace (Nat.le_of_lt hmid), hbefore, fun _ => ?_⟩
      obtain hlt | rfl := Nat.lt_or_eq_of_le hplace
      · exact hat hlt
      · exact hprobe

theorem Ends.of_right {mid : Nat} {outcome : Outcome} (hmid : start ≤ mid)
    (hprobe : probe mid = .gt) (h : Ends probe (mid + 1) stop outcome) :
    Ends probe start stop outcome := by
  cases outcome with
  | hit m => exact ⟨Nat.le_trans (Nat.le_succ_of_le hmid) h.1, h.2⟩
  | miss place =>
      obtain ⟨hle, hplace, hbefore, hat⟩ := h
      refine ⟨Nat.le_trans (Nat.le_succ_of_le hmid) hle, hplace, fun _ => ?_, hat⟩
      obtain hlt | rfl := Nat.lt_or_eq_of_le hle
      · exact hbefore hlt
      · exact hprobe

theorem ends_search (probe : Nat → Ordering) (h : start ≤ stop) :
    Ends probe start stop (search probe start stop).1 := by
  fun_induction search probe start stop with
  | case1 start stop hlt hprobe rest ih =>
      exact (ih (le_middle start stop)).of_left (middle_lt hlt) hprobe
  | case2 start stop hlt hprobe rest ih =>
      exact (ih (middle_lt hlt)).of_right (le_middle start stop) hprobe
  | case3 start stop hlt hprobe => exact ⟨le_middle start stop, middle_lt hlt, hprobe⟩
  | case4 start stop hge =>
      have hstop : start = stop := Nat.le_antisymm h (Nat.le_of_not_lt hge)
      exact ⟨Nat.le_refl _, h, fun hlt => absurd hlt (Nat.lt_irrefl _),
        fun hlt => absurd hlt hge⟩

/-- Only places in the window are probed. -/
theorem lt_of_mem_probes {place : Nat} (h : place ∈ (search probe start stop).2) :
    place < stop := by
  fun_induction search probe start stop with
  | case1 start stop hlt hprobe rest ih =>
      obtain rfl | h := List.mem_cons.mp h
      · exact middle_lt hlt
      · exact Nat.lt_trans (ih h) (middle_lt hlt)
  | case2 start stop hlt hprobe rest ih =>
      obtain rfl | h := List.mem_cons.mp h
      · exact middle_lt hlt
      · exact ih h
  | case3 start stop hlt hprobe =>
      rw [List.mem_singleton.mp h]
      exact middle_lt hlt
  | case4 => cases h

end BinarySearch
