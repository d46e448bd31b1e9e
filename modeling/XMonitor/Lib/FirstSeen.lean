import Mathlib.Data.List.Induction
import Mathlib.Data.List.Nodup
import Mathlib.Data.List.Perm.Subperm

/-!
# First occurrences

The distinct elements of a list that satisfy a condition, in the order in which they
occur first. A scan that appends what it does not know yet to a list builds it up this
way.
-/

variable {α : Type*} [DecidableEq α]

def firstSeen (p : α → Prop) [DecidablePred p] (xs : List α) : List α :=
  xs.foldl (fun seen x => if p x ∧ x ∉ seen then seen ++ [x] else seen) []

variable {p : α → Prop} [DecidablePred p]

theorem firstSeen_concat (xs : List α) (x : α) :
    firstSeen p (xs ++ [x]) =
      if p x ∧ x ∉ firstSeen p xs then firstSeen p xs ++ [x] else firstSeen p xs := by
  rw [firstSeen, List.foldl_append]
  rfl

theorem mem_firstSeen {xs : List α} {x : α} : x ∈ firstSeen p xs ↔ x ∈ xs ∧ p x := by
  induction xs using List.reverseRecOn with
  | nil => simp [firstSeen]
  | append_singleton xs y ih =>
      rw [firstSeen_concat, List.mem_append, List.mem_singleton]
      split
      · rename_i hnew
        rw [List.mem_append, List.mem_singleton, ih]
        constructor
        · rintro (⟨hx, hp⟩ | rfl)
          · exact ⟨.inl hx, hp⟩
          · exact ⟨.inr rfl, hnew.1⟩
        · rintro ⟨hx | rfl, hp⟩
          · exact .inl ⟨hx, hp⟩
          · exact .inr rfl
      · rename_i hold
        constructor
        · intro hx
          obtain ⟨hx, hp⟩ := ih.mp hx
          exact ⟨.inl hx, hp⟩
        · rintro ⟨hx | rfl, hp⟩
          · exact ih.mpr ⟨hx, hp⟩
          · by_contra hx
            exact hold ⟨hp, hx⟩

theorem nodup_firstSeen (xs : List α) : (firstSeen p xs).Nodup := by
  induction xs using List.reverseRecOn with
  | nil => exact List.nodup_nil
  | append_singleton xs y ih =>
      rw [firstSeen_concat]
      split
      · rename_i hnew
        refine List.nodup_append.mpr ⟨ih, List.nodup_singleton y, ?_⟩
        intro x hx y' hy' heq
        rw [heq, List.mem_singleton.mp hy'] at hx
        exact hnew.2 hx
      · exact ih

/-- The first new elements can be appended to a list that has no repetition. -/
theorem nodup_append_take_firstSeen {old : List α} (hold : old.Nodup)
    (hnew : ∀ x ∈ old, ¬p x) (xs : List α) (n : Nat) :
    (old ++ (firstSeen p xs).take n).Nodup := by
  refine List.nodup_append.mpr
    ⟨hold, (nodup_firstSeen xs).sublist (List.take_sublist _ _), ?_⟩
  intro x hx x' hx' heq
  have hp := (mem_firstSeen.mp (List.mem_of_mem_take hx')).2
  exact hnew x hx (heq ▸ hp)

/-- What a scan sees is in an old list, or new. -/
theorem firstSeen_perm {q : α → Prop} [DecidablePred q] {old : List α} (hold : old.Nodup)
    (hp : ∀ x ∈ old, p x) (hq : ∀ x, q x ↔ p x ∧ x ∉ old) (xs : List α)
    [DecidablePred fun x => x ∈ xs] :
    (firstSeen p xs).Perm ((old.filter fun x => x ∈ xs) ++ firstSeen q xs) := by
  have hkept : (old.filter fun x => x ∈ xs).Nodup := hold.filter _
  have hnew : ∀ x ∈ old.filter fun x => x ∈ xs, ¬q x :=
    fun x hx hqx => ((hq x).mp hqx).2 (List.mem_filter.mp hx).1
  have hnodup := nodup_append_take_firstSeen hkept hnew xs (firstSeen q xs).length
  rw [List.take_length] at hnodup
  refine (List.perm_ext_iff_of_nodup (nodup_firstSeen _) hnodup).mpr fun x => ?_
  rw [mem_firstSeen, List.mem_append, List.mem_filter, mem_firstSeen, decide_eq_true_eq, hq]
  constructor
  · rintro ⟨hx, hpx⟩
    by_cases hmem : x ∈ old
    · exact .inl ⟨hmem, hx⟩
    · exact .inr ⟨hx, hpx, hmem⟩
  · rintro (⟨hmem, hx⟩ | ⟨hx, hpx, -⟩)
    · exact ⟨hx, hp x hmem⟩
    · exact ⟨hx, hpx⟩
