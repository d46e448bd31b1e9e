import Mathlib.Data.List.AList

/-!
# Counting the entries of an association list

How the number of entries with some property changes when a key is erased or inserted.
A counter that is kept beside a table is correct if it follows these equations.
-/

namespace AList

variable {κ : Type*} {β : κ → Type*} [DecidableEq κ]

/-- The number of entries that satisfy `p`. -/
def countEntries (p : Sigma β → Bool) (s : AList β) : Nat := s.entries.countP p

/-- The contribution of the entry of one key. -/
def countAt (p : Sigma β → Bool) (s : AList β) (k : κ) : Nat :=
  (s.lookup k).elim 0 fun v => if p ⟨k, v⟩ then 1 else 0

variable {p : Sigma β → Bool}

theorem countAt_of_lookup_none {s : AList β} {k : κ} (h : s.lookup k = none) :
    s.countAt p k = 0 := by
  rw [countAt, h]
  rfl

theorem countAt_of_lookup {s : AList β} {k : κ} {v : β k} (h : s.lookup k = some v) :
    s.countAt p k = if p ⟨k, v⟩ then 1 else 0 := by
  rw [countAt, h]
  rfl

/-- Erasing a key removes the contribution of its entry. -/
theorem countEntries_erase_add (s : AList β) (k : κ) :
    (s.erase k).countEntries p + s.countAt p k = s.countEntries p := by
  obtain ⟨entries, hnodup⟩ := s
  change (entries.kerase k).countP p +
    (entries.dlookup k).elim 0 (fun v => if p ⟨k, v⟩ then 1 else 0) = entries.countP p
  induction entries with
  | nil => rfl
  | cons e entries ih =>
      obtain ⟨k', v⟩ := e
      have htail := (List.nodupKeys_cons.mp hnodup).2
      by_cases hk : k = k'
      · subst hk
        have hkerase : List.kerase k (⟨k, v⟩ :: entries) = entries := List.kerase_cons_eq rfl
        rw [hkerase, List.dlookup_cons_eq, List.countP_cons]
        rfl
      · rw [List.kerase_cons_ne hk, List.dlookup_cons_ne _ _ hk, List.countP_cons,
          List.countP_cons, ← ih htail]
        omega

theorem countEntries_insert (s : AList β) (k : κ) (v : β k) :
    (s.insert k v).countEntries p = (s.erase k).countEntries p + if p ⟨k, v⟩ then 1 else 0 := by
  change (s.insert k v).entries.countP p = (s.entries.kerase k).countP p + _
  rw [entries_insert, List.countP_cons]

/-- An entry is counted. -/
theorem countEntries_pos {s : AList β} {k : κ} {v : β k} (h : s.lookup k = some v)
    (hp : p ⟨k, v⟩ = true) : 0 < s.countEntries p := by
  have hcount := countEntries_erase_add s k (p := p)
  rw [countAt_of_lookup h, if_pos hp] at hcount
  omega

end AList
