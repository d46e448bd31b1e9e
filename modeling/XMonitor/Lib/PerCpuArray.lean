import Mathlib.Data.List.Basic
import Mathlib.Logic.Function.Basic

/-!
# Per-CPU array maps

Every CPU has its own copy of every slot, and all slots exist from the start. A program updates a
slot of the CPU that it runs on through the pointer that the lookup returns.
-/

namespace XMonitor.Lib

structure PerCpuArray (Cpu ν : Type*) (n : Nat) where
  slots : Cpu → Fin n → ν

namespace PerCpuArray

variable {Cpu ν : Type*} {n : Nat}

def lookup (m : PerCpuArray Cpu ν n) (cpu : Cpu) (key : UInt32) : Option ν :=
  if h : key.toNat < n then some (m.slots cpu ⟨key.toNat, h⟩) else none

theorem lookup_of_lt (m : PerCpuArray Cpu ν n) (cpu : Cpu) {key : UInt32} (h : key.toNat < n) :
    m.lookup cpu key = some (m.slots cpu ⟨key.toNat, h⟩) := dif_pos h

/-- `BPF_NOEXIST` asks for a new element, and an array has none. -/
def updateNoExist (m : PerCpuArray Cpu ν n) (_cpu : Cpu) (_key : UInt32) (_value : ν) :
    PerCpuArray Cpu ν n := m

variable [DecidableEq Cpu]

def modify (m : PerCpuArray Cpu ν n) (cpu : Cpu) (key : UInt32) (f : ν → ν) :
    PerCpuArray Cpu ν n where
  slots c i := if c = cpu ∧ i.val = key.toNat then f (m.slots c i) else m.slots c i

theorem lookup_modify (m : PerCpuArray Cpu ν n) (cpu cpu' : Cpu) (key key' : UInt32) (f : ν → ν) :
    (m.modify cpu key f).lookup cpu' key' =
      if cpu' = cpu ∧ key' = key then (m.lookup cpu' key').map f else m.lookup cpu' key' := by
  have hkey : key'.toNat = key.toNat ↔ key' = key := UInt32.toNat_inj
  unfold lookup modify
  split
  · simp only [hkey, Option.map_some]
    split <;> rfl
  · simp

end PerCpuArray

end XMonitor.Lib
