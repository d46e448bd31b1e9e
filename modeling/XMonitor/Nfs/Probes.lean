import XMonitor.Lib.PerCpuHash
import XMonitor.Utils.Durations

/-!
# The probes of NFS operations

The programs of `xm_nfs` run at the entry and the return of `nfs_file_open`,
`nfs_file_read`, `nfs_file_write` and `nfs_getattr`. The entry keeps the time and the
device number of the inode under the thread, and the return looks it up, adds its latency
to the histogram of the device and deletes it.

Both maps have a value for each CPU. The type of the operation is not part of an entry.
-/

namespace XMonitor.Nfs

open XMonitor

/-- `enum xm_nfs_op_type`. -/
inductive OpType where
  | none
  | open_
  | read
  | write
  | getattr
  | max

def OpType.val : OpType → Nat
  | none => 0
  | open_ => 1
  | read => 2
  | write => 3
  | getattr => 4
  | max => 5

/-- The functions that have probes. -/
inductive NfsFunc where
  | fileOpen
  | fileRead
  | fileWrite
  | getattr
deriving DecidableEq

/-- The type that the probes of a function pass on. -/
def NfsFunc.opType : NfsFunc → OpType
  | fileOpen => .open_
  | fileRead => .read
  | fileWrite => .write
  | getattr => .getattr

/-- `struct xm_blk_num`. -/
structure BlkNum where
  major : Int32
  minor : Int32
deriving DecidableEq

/-- `__xm_get_blk_num`, of an inode with a device number. -/
def getBlkNum (iRdev : UInt32) : BlkNum where
  major := (iRdev >>> 20).toInt32
  minor := (iRdev &&& 0xFFFFF).toInt32

/-- `struct xm_nfs_op_tracing_data`. -/
structure OpTracingData where
  ts : UInt64
  blkNum : BlkNum
deriving DecidableEq

instance : Zero OpTracingData := ⟨0, 0, 0⟩

def statSlotCount : Nat := 20

def statTableTotalSlotCount : Nat := (OpType.max.val - 1) * statSlotCount

/-- `struct xm_nfs_oplat_stat`. -/
structure OplatStat where
  slots : Fin statTableTotalSlotCount → UInt32

instance : Zero OplatStat := ⟨⟨fun _ => 0⟩⟩

/-- `__sync_fetch_and_add` of 1 to a slot. -/
def OplatStat.fetchAndAdd (stat : OplatStat) (slot : Nat) : OplatStat where
  slots i := if i.val = slot then stat.slots i + 1 else stat.slots i

section Maps

variable (Cpu : Type*)

abbrev OpTracingMap := PerCpuHash UInt32 OpTracingData Cpu 10240

abbrev OplatHistMap := PerCpuHash BlkNum OplatStat Cpu 256

structure Maps where
  opTracing : OpTracingMap Cpu
  oplatHist : OplatHistMap Cpu

end Maps

variable {Cpu : Type*} [DecidableEq Cpu]

/-- `__record_nfs_op_entry`. -/
def recordNfsOpEntry (cpu : Cpu) (tid iRdev : UInt32) (nowNs : UInt64) (s : Maps Cpu) : Maps Cpu :=
  { s with opTracing := s.opTracing.set cpu tid { ts := nowNs, blkNum := getBlkNum iRdev } }

/-- The part of `__record_nfs_op_exit` for an entry that was found. -/
def addSample (opType : OpType) (cpu : Cpu) (nowNs : UInt64) (data : OpTracingData)
    (hist : OplatHistMap Cpu) : OplatHistMap Cpu :=
  match PerCpuHash.lookupOrTryInit hist cpu data.blkNum 0 with
  | none => hist
  | some hist =>
      let delta := nowNs - data.ts
      if 0 ≤ delta.toInt64 then
        -- a larger logarithm goes to the last slot
        let slot := logSlot (statSlotCount - 1) (delta / 1000)
        if OpType.none.val < opType.val ∧ opType.val < OpType.max.val then
          let slot := (opType.val - 1) * statSlotCount + slot.val
          if slot < statTableTotalSlotCount then
            PerCpuHash.modify hist cpu data.blkNum fun stat => stat.fetchAndAdd slot
          else hist
        else hist
      else hist

/-- `__record_nfs_op_exit`. -/
def recordNfsOpExit (opType : OpType) (cpu : Cpu) (tid : UInt32) (nowNs : UInt64) (s : Maps Cpu) :
    Maps Cpu :=
  match PerCpuHash.get s.opTracing cpu tid with
  | some data =>
      { opTracing := s.opTracing.delete tid
        oplatHist := addSample opType cpu nowNs data s.oplatHist }
  | none => s

/-- A probe that runs for a thread on a CPU, where the clock reads `nowNs`. -/
inductive Probe (Cpu : Type*) where
  | entry (func : NfsFunc) (cpu : Cpu) (tid iRdev : UInt32) (nowNs : UInt64)
  | exit (func : NfsFunc) (cpu : Cpu) (tid : UInt32) (nowNs : UInt64)

def run (s : Maps Cpu) : Probe Cpu → Maps Cpu
  | .entry _ cpu tid iRdev nowNs => recordNfsOpEntry cpu tid iRdev nowNs s
  | .exit func cpu tid nowNs => recordNfsOpExit func.opType cpu tid nowNs s

end XMonitor.Nfs
