import Mathlib.Algebra.GroupWithZero.Nat
import Mathlib.Algebra.BigOperators.Group.Finset.Basic
import Mathlib.Algebra.Order.BigOperators.Group.Finset
import Mathlib.Data.Finset.Card

/-!
# Hash maps of bounded size

A map with at most `cap` keys, as the kernel offers to its programs and to user
space. An update fails only when it would add a key to a full map; a lookup and a
deletion always work. `total` adds up a weight over the entries, which is how
counting arguments see a map.
-/

structure BpfHash (κ ν : Type*) [DecidableEq κ] (cap : Nat) where
  lookup : κ → Option ν
  keys : Finset κ
  mem_keys : ∀ k, k ∈ keys ↔ (lookup k).isSome = true
  card_le : keys.card ≤ cap

namespace BpfHash

variable {κ ν : Type*} [DecidableEq κ] {cap : Nat}

def empty : BpfHash κ ν cap where
  lookup _ := none
  keys := ∅
  mem_keys := by simp
  card_le := by simp

/-- Insert or overwrite, if the key is there or there is room for it. -/
def update (m : BpfHash κ ν cap) (k : κ) (v : ν) : Option (BpfHash κ ν cap) :=
  if h : (insert k m.keys).card ≤ cap then
    some
      { lookup := fun k' => if k' = k then some v else m.lookup k'
        keys := insert k m.keys
        mem_keys := by
          intro k'
          by_cases hk : k' = k
          · simp [hk]
          · simp [hk, m.mem_keys k']
        card_le := h }
  else none

def delete (m : BpfHash κ ν cap) (k : κ) : BpfHash κ ν cap where
  lookup k' := if k' = k then none else m.lookup k'
  keys := m.keys.erase k
  mem_keys := by
    intro k'
    by_cases hk : k' = k
    · simp [hk]
    · simp [hk, m.mem_keys k']
  card_le := Nat.le_trans (Finset.card_erase_le) m.card_le

/-- Keep the entries with a property. -/
def filter (m : BpfHash κ ν cap) (p : κ → ν → Bool) : BpfHash κ ν cap where
  lookup k := (m.lookup k).filter (p k)
  keys := {k ∈ m.keys | ((m.lookup k).filter (p k)).isSome}
  mem_keys := by
    intro k
    rw [Finset.mem_filter, and_iff_right_iff_imp, m.mem_keys]
    cases m.lookup k <;> simp
  card_le := (Finset.card_filter_le _ _).trans m.card_le

@[simp] theorem lookup_empty (k : κ) : (empty : BpfHash κ ν cap).lookup k = none := rfl

@[simp] theorem keys_empty : (empty : BpfHash κ ν cap).keys = ∅ := rfl

@[simp] theorem lookup_delete (m : BpfHash κ ν cap) (k k' : κ) :
    (m.delete k).lookup k' = if k' = k then none else m.lookup k' := rfl

@[simp] theorem keys_delete (m : BpfHash κ ν cap) (k : κ) :
    (m.delete k).keys = m.keys.erase k := rfl

variable {m m' : BpfHash κ ν cap} {k : κ} {v : ν}

theorem lookup_filter_eq_some {p : κ → ν → Bool} :
    (m.filter p).lookup k = some v ↔ m.lookup k = some v ∧ p k v = true :=
  Option.filter_eq_some_iff

theorem mem_keys_of_lookup (h : m.lookup k = some v) : k ∈ m.keys := by
  simp [m.mem_keys, h]

theorem lookup_eq_none_iff : m.lookup k = none ↔ k ∉ m.keys := by
  simp [m.mem_keys]

theorem keys_eq_empty_iff : m.keys = ∅ ↔ ∀ k, m.lookup k = none := by
  simp only [Finset.eq_empty_iff_forall_notMem, lookup_eq_none_iff]

theorem lookup_of_update (h : m.update k v = some m') (k' : κ) :
    m'.lookup k' = if k' = k then some v else m.lookup k' := by
  rw [update] at h
  split at h
  · cases h
    rfl
  · cases h

theorem keys_of_update (h : m.update k v = some m') : m'.keys = insert k m.keys := by
  rw [update] at h
  split at h
  · cases h
    rfl
  · cases h

/-- A key that is there can always be overwritten. -/
theorem exists_update_of_mem (h : k ∈ m.keys) (v : ν) : ∃ m', m.update k v = some m' := by
  have hcard : (insert k m.keys).card ≤ cap := by
    rw [Finset.insert_eq_of_mem h]
    exact m.card_le
  exact ⟨_, dif_pos hcard⟩

theorem exists_update_of_card (h : m.keys.card < cap) (k : κ) (v : ν) :
    ∃ m', m.update k v = some m' := by
  have hcard : (insert k m.keys).card ≤ cap := (Finset.card_insert_le k m.keys).trans h
  exact ⟨_, dif_pos hcard⟩

/-- The key is there, or there is room to add it. -/
def HasRoom (m : BpfHash κ ν cap) (k : κ) : Prop := k ∈ m.keys ∨ m.keys.card < cap

theorem exists_update (h : m.HasRoom k) (v : ν) : ∃ m', m.update k v = some m' := by
  obtain h | h := h
  · exact exists_update_of_mem h v
  · exact exists_update_of_card h k v

theorem hasRoom_of_update (h : m.update k v = some m') : m.HasRoom k := by
  rw [update] at h
  split at h
  next hle =>
    by_cases hk : k ∈ m.keys
    · exact .inl hk
    · right
      rw [Finset.card_insert_of_notMem hk] at hle
      exact hle
  · cases h

/-- An update whose result the program ignores. -/
def put (m : BpfHash κ ν cap) (k : κ) (v : ν) : BpfHash κ ν cap := (m.update k v).getD m

/-- A key that was not added to a full map was not there before. -/
theorem lookup_put (m : BpfHash κ ν cap) (k : κ) (v : ν) :
    (∀ k', (m.put k v).lookup k' = if k' = k then some v else m.lookup k') ∨
      m.lookup k = none ∧ m.put k v = m := by
  cases h : m.update k v with
  | some m' =>
      left
      rw [put, h]
      exact lookup_of_update h
  | none =>
      refine .inr ⟨?_, by rw [put, h]; rfl⟩
      rw [lookup_eq_none_iff]
      intro hk
      obtain ⟨m', hm'⟩ := exists_update_of_mem hk v
      rw [h] at hm'
      cases hm'

theorem lookup_put_of_hasRoom (h : m.HasRoom k) (v : ν) (k' : κ) :
    (m.put k v).lookup k' = if k' = k then some v else m.lookup k' := by
  obtain ⟨m', hm'⟩ := exists_update h v
  rw [put, hm']
  exact lookup_of_update hm' k'

theorem put_of_not_hasRoom (h : ¬ m.HasRoom k) (v : ν) : m.put k v = m := by
  cases hm : m.update k v with
  | some m' => exact absurd (hasRoom_of_update hm) h
  | none => rw [put, hm, Option.getD_none]

theorem lookup_put_self (h : m.keys.card < cap) (k : κ) (v : ν) :
    (m.put k v).lookup k = some v := by
  rw [lookup_put_of_hasRoom (.inr h), if_pos rfl]

theorem lookup_put_ne {k' : κ} (hne : k' ≠ k) : (m.put k v).lookup k' = m.lookup k' := by
  obtain h | ⟨-, h⟩ := lookup_put m k v
  · rw [h, if_neg hne]
  · rw [h]

/-- Every entry is the one put there or an entry of another key of before. -/
theorem of_lookup_put {k' : κ} {v' : ν} (h : (m.put k v).lookup k' = some v') :
    k' = k ∧ v' = v ∨ k' ≠ k ∧ m.lookup k' = some v' := by
  obtain hput | ⟨hnone, hput⟩ := lookup_put m k v
  · rw [hput] at h
    split at h
    · next heq => exact .inl ⟨heq, (Option.some.inj h).symm⟩
    · next hne => exact .inr ⟨hne, h⟩
  · rw [hput] at h
    refine .inr ⟨?_, h⟩
    rintro rfl
    rw [hnone] at h
    cases h

/-- The value of a key, which is inserted if it is not there and there is room for it. -/
def lookupOrTryInit (m : BpfHash κ ν cap) (k : κ) (v : ν) : Option (BpfHash κ ν cap × ν) :=
  match m.lookup k with
  | some v' => some (m, v')
  | none => (m.update k v).map fun m' => (m', v)

/-- A weight of the entries, added up. -/
def total (m : BpfHash κ ν cap) (f : κ → ν → Nat) : Nat :=
  ∑ k ∈ m.keys, (m.lookup k).elim 0 (f k)

@[simp] theorem total_empty (f : κ → ν → Nat) : (empty : BpfHash κ ν cap).total f = 0 := by
  simp [total]

theorem total_of_update {f : κ → ν → Nat} (h : m.update k v = some m') (hk : k ∉ m.keys) :
    m'.total f = f k v + m.total f := by
  rw [total, keys_of_update h, Finset.sum_insert hk, total]
  congr 1
  · simp [lookup_of_update h]
  · apply Finset.sum_congr rfl
    intro k' hk'
    have hne : k' ≠ k := fun heq => hk (heq ▸ hk')
    simp [lookup_of_update h, hne]

theorem total_delete {f : κ → ν → Nat} (h : m.lookup k = some v) :
    f k v + (m.delete k).total f = m.total f := by
  rw [total, total, keys_delete, ← Finset.add_sum_erase _ _ (mem_keys_of_lookup h), h]
  congr 1
  apply Finset.sum_congr rfl
  intro k' hk'
  simp [Finset.ne_of_mem_erase hk']

theorem total_congr {f g : κ → ν → Nat} (h : ∀ k v, m.lookup k = some v → f k v = g k v) :
    m.total f = m.total g := by
  apply Finset.sum_congr rfl
  intro k hk
  obtain ⟨v, hv⟩ := Option.isSome_iff_exists.mp ((m.mem_keys k).mp hk)
  simp [hv, h k v hv]

/-- The weight of one entry grows by one. -/
theorem total_add_one {f g : κ → ν → Nat} (h : m.lookup k = some v) (hk : g k v = f k v + 1)
    (hne : ∀ k' v', k' ≠ k → m.lookup k' = some v' → g k' v' = f k' v') :
    m.total g = m.total f + 1 := by
  have hrest : (m.delete k).total g = (m.delete k).total f := by
    apply total_congr
    intro k' v' h'
    rw [lookup_delete] at h'
    split at h'
    · cases h'
    · exact hne k' v' ‹_› h'
  rw [← total_delete h, ← total_delete h, hk, hrest, Nat.add_right_comm]

theorem le_total {f : κ → ν → Nat} (h : m.lookup k = some v) : f k v ≤ m.total f := by
  rw [← total_delete h]
  exact Nat.le_add_right _ _

theorem total_le {f : κ → ν → Nat} {b : Nat} (h : ∀ k v, m.lookup k = some v → f k v ≤ b) :
    m.total f ≤ cap * b := by
  calc m.total f ≤ ∑ _k ∈ m.keys, b := by
        apply Finset.sum_le_sum
        intro k hk
        obtain ⟨v, hv⟩ := Option.isSome_iff_exists.mp ((m.mem_keys k).mp hk)
        simpa [hv] using h k v hv
    _ = m.keys.card * b := by simp
    _ ≤ cap * b := Nat.mul_le_mul_right b m.card_le

end BpfHash
