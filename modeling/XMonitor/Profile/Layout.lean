import Mathlib.Algebra.GroupWithZero.Nat
import Mathlib.Logic.Function.Basic

/-!
# Records shared by the exporter and the kernel programs

The structures of `bpf_and_user.h` that the profile program's maps hold, as both
sides see them: the exporter fills the tables, the kernel programs search them.
Addresses, registers and hashes are machine words. A fixed C array is a function
on its indices; every write to one is checked against the declared length where
it happens, and slots that were never written hold zero values.

`row_pos`, `row_count` and the table counter are natural numbers. The writer
bounds them by the array lengths, so their 32-bit representation never wraps; the
one place where the kernel subtracts from a zero counter says so there.
-/

namespace XMonitor

/-- `XM_PER_PROCESS_ASSOC_MODULE_COUNT`. -/
def perProcessAssocModuleCount : Nat := 56

/-- `XM_PER_MODULE_FDE_TABLE_COUNT`. -/
def perModuleFdeTableCount : Nat := 8192

/-- `XM_PER_MODULE_FDE_ROWS_COUNT`. -/
def perModuleFdeRowsCount : Nat := 45 * 1024

/-- `XM_MAX_STACK_DEPTH_PER_PROGRAM`. -/
def maxStackDepthPerProgram : Nat := 7

/-- `MX_MAX_TAIL_CALL_COUNT`. -/
def maxTailCallCount : Nat := 18

/-- `PERF_MAX_STACK_DEPTH`. -/
def perfMaxStackDepth : Nat := 127

/-- `INT_MAX`, which marks a register that is not saved at a CFA offset. -/
def int32Max : Int32 := 2147483647

/-- `AMD64_Rbp`. -/
def amd64Rbp : UInt64 := 6

/-- `AMD64_Rsp`. -/
def amd64Rsp : UInt64 := 7

/-- `struct xm_profile_dw_cfa`. -/
structure DwCfa where
  offset : Int64 := 0
  reg : UInt64 := 0
deriving DecidableEq, Repr, Inhabited

/-- `struct xm_profile_fde_table_row`. -/
structure FdeTableRow where
  loc : UInt64 := 0
  cfa : DwCfa := {}
  rbpCfaOffset : Int32 := 0
  raCfaOffset : Int32 := 0
deriving DecidableEq, Repr, Inhabited

/-- `struct xm_profile_fde_table_info`. -/
structure FdeTableInfo where
  start : UInt64 := 0
  end_ : UInt64 := 0
  rowPos : Nat := 0
  rowCount : Nat := 0
deriving DecidableEq, Repr, Inhabited

/-- `struct xm_profile_module_fde_tables`. -/
structure ModuleFdeTables where
  refCount : UInt32 := 0
  fdeTableCount : Nat := 0
  fdeInfos : Nat → FdeTableInfo := fun _ => {}
  fdeRows : Nat → FdeTableRow := fun _ => {}

/-- `enum module_type`. -/
inductive ModuleType
  | unknown
  | exec
  | so
deriving DecidableEq, Repr, Inhabited

/-- `struct xm_profile_proc_maps_module`. -/
structure ProcMapsModule where
  startAddr : UInt64 := 0
  endAddr : UInt64 := 0
  buildIdHash : UInt64 := 0
  type : ModuleType := .unknown
deriving DecidableEq, Repr, Inhabited

/-- `struct xm_profile_pid_maps`. -/
structure PidMaps where
  modules : Nat → ProcMapsModule := fun _ => {}
  moduleCount : Nat := 0

namespace ModuleFdeTables

/-- The infos that are in use, in slot order. -/
def infos (t : ModuleFdeTables) : List FdeTableInfo :=
  (List.range t.fdeTableCount).map t.fdeInfos

/-- The rows of one info, in slot order. -/
def rowsOf (t : ModuleFdeTables) (info : FdeTableInfo) : List FdeTableRow :=
  (List.range info.rowCount).map fun k => t.fdeRows (info.rowPos + k)

@[simp] theorem length_infos (t : ModuleFdeTables) : t.infos.length = t.fdeTableCount := by
  simp [infos]

@[simp] theorem length_rowsOf (t : ModuleFdeTables) (info : FdeTableInfo) :
    (t.rowsOf info).length = info.rowCount := by
  simp [rowsOf]

theorem getElem_infos (t : ModuleFdeTables) (i : Nat) (h : i < t.infos.length) :
    t.infos[i] = t.fdeInfos i := by
  simp [infos]

theorem getElem_rowsOf (t : ModuleFdeTables) (info : FdeTableInfo) (k : Nat)
    (h : k < (t.rowsOf info).length) : (t.rowsOf info)[k] = t.fdeRows (info.rowPos + k) := by
  simp [rowsOf]

end ModuleFdeTables

end XMonitor
