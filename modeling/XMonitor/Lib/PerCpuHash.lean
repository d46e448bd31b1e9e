import Mathlib.Algebra.Notation.Pi.Defs
import Mathlib.Logic.Function.Basic
import XMonitor.Lib.BpfHash

/-!
# Hash maps with a value for each CPU

A program sees and changes the value of the CPU that it runs on. When it adds a key, the
other CPUs get zero; when it overwrites one, they keep what they have; and a deletion
takes the values of all.
-/

abbrev PerCpuHash (κ ν Cpu : Type*) [DecidableEq κ] (cap : Nat) := BpfHash κ (Cpu → ν) cap

namespace PerCpuHash

variable {κ ν Cpu : Type*} [DecidableEq κ] {cap : Nat}

/-- The value of a CPU. -/
def get (m : PerCpuHash κ ν Cpu cap) (cpu : Cpu) (k : κ) : Option ν :=
  (m.lookup k).map fun values => values cpu

variable {m m' : PerCpuHash κ ν Cpu cap} {cpu : Cpu} {k : κ} {v : ν}

theorem get_eq_some_iff :
    m.get cpu k = some v ↔ ∃ values, m.lookup k = some values ∧ values cpu = v :=
  Option.map_eq_some_iff

theorem get_delete_self : PerCpuHash.get (m.delete k) cpu k = none := by
  rw [get, BpfHash.lookup_delete, if_pos rfl]
  rfl

variable [DecidableEq Cpu]

/-- A program on a CPU writes through its pointer to a value. -/
def modify (m : PerCpuHash κ ν Cpu cap) (cpu : Cpu) (k : κ) (f : ν → ν) :
    PerCpuHash κ ν Cpu cap :=
  match m.lookup k with
  | some values => m.put k (Function.update values cpu (f (values cpu)))
  | none => m

variable [Zero ν]

/-- An update from a CPU whose result the program ignores. -/
def set (m : PerCpuHash κ ν Cpu cap) (cpu : Cpu) (k : κ) (v : ν) : PerCpuHash κ ν Cpu cap :=
  m.put k (Function.update ((m.lookup k).getD 0) cpu v)

/-- The map with the key, which is inserted from a CPU if it is not there. -/
def lookupOrTryInit (m : PerCpuHash κ ν Cpu cap) (cpu : Cpu) (k : κ) (v : ν) :
    Option (PerCpuHash κ ν Cpu cap) :=
  match m.lookup k with
  | some _ => some m
  | none => m.update k (Function.update 0 cpu v)

theorem lookup_set (h : m.HasRoom k) (cpu : Cpu) (v : ν) (k' : κ) :
    (m.set cpu k v).lookup k' =
      if k' = k then some (Function.update ((m.lookup k).getD 0) cpu v) else m.lookup k' :=
  BpfHash.lookup_put_of_hasRoom h _ k'

/-- After an update, a value is the new one, zero, or a value of before. -/
theorem of_get_set {cpu' : Cpu} {k' : κ} {v' : ν} (h : (m.set cpu k v).get cpu' k' = some v') :
    v' = v ∨ v' = 0 ∨ m.get cpu' k' = some v' := by
  obtain ⟨values, hvalues, rfl⟩ := get_eq_some_iff.mp h
  obtain ⟨rfl, rfl⟩ | ⟨-, hold⟩ := BpfHash.of_lookup_put hvalues
  · by_cases hcpu : cpu' = cpu
    · left
      rw [hcpu, Function.update_self]
    · right
      rw [Function.update_of_ne hcpu]
      cases hk : m.lookup k' with
      | none => exact .inl rfl
      | some values => exact .inr (get_eq_some_iff.mpr ⟨values, hk, rfl⟩)
  · exact .inr (.inr (get_eq_some_iff.mpr ⟨values, hold, rfl⟩))

/-- The CPU reads what it has written. -/
theorem get_set_self (h : m.HasRoom k) (cpu : Cpu) (v : ν) :
    (m.set cpu k v).get cpu k = some v := by
  rw [get, lookup_set h, if_pos rfl, Option.map_some, Function.update_self]

theorem lookup_set_ne {k' : κ} (hk : k' ≠ k) : (m.set cpu k v).lookup k' = m.lookup k' :=
  BpfHash.lookup_put_ne hk

theorem keys_of_lookupOrTryInit (h : m.lookupOrTryInit cpu k v = some m') : k ∈ m'.keys := by
  rw [lookupOrTryInit] at h
  split at h
  next values hvalues =>
    cases h
    exact BpfHash.mem_keys_of_lookup hvalues
  next =>
    rw [BpfHash.keys_of_update h]
    exact Finset.mem_insert_self k _

theorem hasRoom_iff_lookupOrTryInit (cpu : Cpu) (v : ν) :
    m.HasRoom k ↔ ∃ m', m.lookupOrTryInit cpu k v = some m' := by
  rw [lookupOrTryInit]
  cases hk : m.lookup k with
  | some values => exact iff_of_true (.inl (BpfHash.mem_keys_of_lookup hk)) ⟨m, rfl⟩
  | none =>
      constructor
      · intro h
        exact BpfHash.exists_update h _
      · rintro ⟨m', hm'⟩
        exact BpfHash.hasRoom_of_update hm'

/-- A key that is inserted with zero reads as zero everywhere, as it did before. -/
theorem getD_lookupOrTryInit (h : m.lookupOrTryInit cpu k 0 = some m') (cpu' : Cpu) (k' : κ) :
    (m'.get cpu' k').getD 0 = (m.get cpu' k').getD 0 := by
  rw [lookupOrTryInit] at h
  split at h
  · cases h
    rfl
  next hk =>
    rw [get, get, BpfHash.lookup_of_update h]
    split
    next heq =>
      have hzero : Function.update (0 : Cpu → ν) cpu 0 = 0 := Function.update_eq_self cpu _
      rw [heq, hk, Option.map_some, hzero]
      rfl
    next => rfl

theorem getD_modify (h : k ∈ m.keys) (cpu cpu' : Cpu) (k' : κ) (f : ν → ν) :
    ((m.modify cpu k f).get cpu' k').getD 0 =
      if k' = k ∧ cpu' = cpu then f ((m.get cpu k).getD 0) else (m.get cpu' k').getD 0 := by
  obtain ⟨values, hvalues⟩ := Option.isSome_iff_exists.mp ((m.mem_keys k).mp h)
  rw [modify, hvalues, get, BpfHash.lookup_put_of_hasRoom (.inl h)]
  by_cases hk : k' = k
  · by_cases hcpu : cpu' = cpu
    · simp [hk, hcpu, get, hvalues]
    · simp [hk, hcpu, get, hvalues]
  · simp [hk, get]

end PerCpuHash
