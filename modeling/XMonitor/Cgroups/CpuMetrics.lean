import XMonitor.Apps.Match
import XMonitor.Cgroups.Memory
import XMonitor.Utils.ProcfileOpen

/-!
# CPU metrics of the cgroups

A collection for a cgroup goes through the files of its CPU controller. A file that cannot be
opened ends it, except for those about the usage. The counters of the kernel are passed on as
differences to the values that have been read last.

A file that can be opened and not be read is closed by `procfile_readall`, and then asked for its
lines through the null pointer.
-/

namespace XMonitor.Cgroups

open Procfile

/-- The metrics of a cgroup that a collection changes, those of a CPU with its number as label. -/
inductive CpuMetric
  | v1CpuShares | v1CpuCfsPeriodUs | v1CpuCfsQuotaUs | v1CpuacctStatUserUserhzs
  | v1CpuacctStatSystemUserhzs | v1CpuStatNrPeriods | v1CpuStatNrThrottled
  | v1CpuStatThrottledTimeNs | v1CpuacctUsageNs | v1CpuacctUsageUserNs | v1CpuacctUsageSystemNs
  | v1CpuacctUsageNsPerCpu (cpu : CString) | v1CpuacctUsageUserNsPerCpu (cpu : CString)
  | v1CpuacctUsageSystemNsPerCpu (cpu : CString)
  | v2CpuMax | v2CpuStatNrPeriods | v2CpuStatNrThrottled | v2CpuStatThrottledUsec
  | v2CpuStatUsageUsec | v2CpuStatUserUsec | v2CpuStatSystemUsec
deriving DecidableEq

/-- The values of `struct sys_cgroup_counters` that are remembered once for a cgroup. -/
inductive CpuCounter
  | cpuStatNrPeriods | cpuStatNrThrottled | cpuStatThrottledTime | cpuStatUsageTime
  | cpuStatUsageUserTime | cpuStatUsageSystemTime
deriving DecidableEq

/-- `struct sys_cgroup_usage_per_cpu`. -/
structure UsagePerCpu where
  usageNs : UInt64 := 0
  usageUserNs : UInt64 := 0
  usageSystemNs : UInt64 := 0
deriving DecidableEq

/-- The part of `struct sys_cgroup_counters` that is about the CPU. -/
structure CpuObj where
  counters : CpuCounter → UInt64
  usagePerCpus : List UsagePerCpu

/-- A `double` that is an integer, or the quotient of two of them. -/
inductive CpuValue
  | whole (value : Nat)
  | quotient (dividend divisor : Nat)
deriving DecidableEq

/-- A call to the metrics library. -/
inductive CpuOutput
  | gaugeSet (metric : CpuMetric) (value : CpuValue)
  | counterAdd (metric : CpuMetric) (value : Nat)
deriving DecidableEq

/-- What a collection finds where the name of a file leads to that it splits into lines. -/
inductive LinesSource (α : Type)
  | noName
  | notOpened
  | notRead
  | read (content : α)

def LinesSource.map {α β : Type} (f : α → β) : LinesSource α → LinesSource β
  | .noName => .noName
  | .notOpened => .notOpened
  | .notRead => .notRead
  | .read content => .read (f content)

/-- The files of a cgroup at the time of a collection. -/
structure CpuFiles where
  cpuacctCpuStat : LinesSource (List UInt8) := .noName
  cpuacctCpuacctStat : LinesSource (List UInt8) := .noName
  cpuacctCpuShares : SourceFile UInt64 := .noName
  cpuacctCpuCfsPeriodUs : SourceFile UInt64 := .noName
  cpuacctCpuCfsQuotaUs : SourceFile UInt64 := .noName
  cpuacctUsageAll : LinesSource (List UInt8) := .noName
  cpuacctUsage : SourceFile UInt64 := .noName
  cpuacctUsageUser : SourceFile UInt64 := .noName
  cpuacctUsageSys : SourceFile UInt64 := .noName
  unifiedCpuMax : SourceFile CString := .noName
  unifiedCpuStat : LinesSource (List UInt8) := .noName

/-- What a part of a collection leaves, and whether the collection has returned there. -/
structure CpuPart where
  obj : CpuObj
  outputs : List CpuOutput := []
  returned : Bool := false

/-- A part of a collection. It is none where a null pointer is followed, or an index is not in its
array. -/
def CpuCollect : Type := CpuObj → Option CpuPart

namespace CpuCollect

/-- A part that does nothing. -/
def skip : CpuCollect := fun obj => some { obj }

/-- One part, and then the other one unless the collection has returned. -/
def andThen (p q : CpuCollect) : CpuCollect := fun obj => do
  let first ← p obj
  if first.returned then some first
  else
    let second ← q first.obj
    some { second with outputs := first.outputs ++ second.outputs }

end CpuCollect

/-- The types of the bytes of a file that is opened without separators. -/
def cpuTypes : UInt8 → PfChar := procfileSetSeparators none

/-- `procfile_reopen` and `procfile_readall`, and what is done with the lines. -/
def withLines (file : LinesSource (List UInt8)) (returned : Bool)
    (p : ProcFile → CpuCollect) : CpuCollect := fun obj =>
  match file with
  | .noName => some { obj }
  | .notOpened => some { obj, returned }
  | .notRead => none
  | .read content => p (fileLines cpuTypes content) obj

/-- Read the value of a line for the first key that its first word begins with. -/
def readKey {α : Type} [DecidableEq α] (keys : List (String × α)) (values : α → UInt64)
    (line : List CString) : α → UInt64 :=
  match keys.find? fun key => key.1.toList <+: lineword line 0 with
  | some key => Function.update values key.2 (str2uint64 (lineword line 1))
  | none => values

/-- Read the values of all lines. -/
def readKeys {α : Type} [DecidableEq α] (keys : List (String × α)) (lines : ProcFile) :
    α → UInt64 :=
  lines.foldl (readKey keys) fun _ => 0

/-- Add to counters what values are above the remembered ones, and remember the values. -/
def addDifferences (sets : List (CpuMetric × CpuCounter)) (values : CpuCounter → UInt64)
    (obj : CpuObj) : CpuPart where
  obj :=
    { obj with
      counters := fun c => if c ∈ sets.map Prod.snd then values c else obj.counters c }
  outputs := sets.map fun set =>
    .counterAdd set.1 (doubleOfUInt64 (values set.2 - obj.counters set.2))

/-! ## Version 1 -/

/-- The counters from `cpu.stat`. -/
def cpuStatV1 : List (CpuMetric × CpuCounter) :=
  [(.v1CpuStatNrPeriods, .cpuStatNrPeriods), (.v1CpuStatNrThrottled, .cpuStatNrThrottled),
    (.v1CpuStatThrottledTimeNs, .cpuStatThrottledTime)]

def cpuStatV1Keys : List (String × CpuCounter) :=
  [("nr_periods", .cpuStatNrPeriods), ("nr_throttled", .cpuStatNrThrottled),
    ("throttled_time", .cpuStatThrottledTime)]

/-- A file that is too short is reported, and its values are those of the variables in front of
the loop. -/
def collectCpuStatV1 (file : LinesSource (List UInt8)) : CpuCollect :=
  withLines file true fun lines obj =>
    let values := if 3 ≤ lines.length then readKeys cpuStatV1Keys lines else fun _ => 0
    some (addDifferences cpuStatV1 values obj)

/-- The gauges from `cpuacct.stat`. -/
def cpuacctStatKeys : List (String × CpuMetric) :=
  [("user", .v1CpuacctStatUserUserhzs), ("system", .v1CpuacctStatSystemUserhzs)]

def collectCpuacctStat (file : LinesSource (List UInt8)) : CpuCollect :=
  withLines file true fun lines obj =>
    if 2 ≤ lines.length then
      let values := readKeys cpuacctStatKeys lines
      let outputs := cpuacctStatKeys.map fun key =>
        .gaugeSet key.2 (.whole (doubleOfUInt64 (values key.2)))
      some { obj, outputs }
    else some { obj }

/-- A gauge from a file with one number. -/
def collectGauge (metric : CpuMetric) (file : SourceFile UInt64) : CpuCollect := fun obj =>
  match file with
  | .noName => some { obj }
  | .failed => some { obj, returned := true }
  | .read value => some { obj, outputs := [.gaugeSet metric (.whole (doubleOfUInt64 value))] }

/-- A line of `cpuacct.usage_all`, for an index into the array. -/
def collectUsageLine (index : Nat) (line : List CString) : CpuCollect := fun obj =>
  if 3 ≤ line.length then do
    let last ← obj.usagePerCpus[index]?
    let cpuId := lineword line 0
    let usageUserNs := str2uint64 (lineword line 1)
    let usageSystemNs := str2uint64 (lineword line 2)
    let usageNs := usageUserNs + usageSystemNs
    let usagePerCpus := obj.usagePerCpus.set index { usageNs, usageUserNs, usageSystemNs }
    let outputs :=
      [.counterAdd (.v1CpuacctUsageNsPerCpu cpuId) (doubleOfUInt64 (usageNs - last.usageNs)),
        .counterAdd (.v1CpuacctUsageUserNsPerCpu cpuId)
          (doubleOfUInt64 (usageUserNs - last.usageUserNs)),
        .counterAdd (.v1CpuacctUsageSystemNsPerCpu cpuId)
          (doubleOfUInt64 (usageSystemNs - last.usageSystemNs))]
    some { obj := { obj with usagePerCpus }, outputs }
  else some { obj }

/-- The lines behind the header. The index is the one of the line, without the header. -/
def collectUsageLines : Nat → ProcFile → CpuCollect
  | _, [] => .skip
  | index, line :: lines =>
      (collectUsageLine index line).andThen (collectUsageLines (index + 1) lines)

/-- `cpuacct.usage_all`, for the number of CPUs that the array has been allocated for. -/
def collectUsageAll (cpuCoresNum : UInt32) (file : LinesSource (List UInt8)) : CpuCollect :=
  withLines file false fun lines =>
    if (cpuCoresNum + 1).toNat ≤ lines.length then collectUsageLines 0 (lines.drop 1)
    else .skip

/-- A counter from a file with one number. -/
def collectUsage (set : CpuMetric × CpuCounter) (file : SourceFile UInt64) : CpuCollect :=
  fun obj =>
    match file with
    | .noName | .failed => some { obj }
    | .read value => some (addDifferences [set] (fun _ => value) obj)

/-- The gauges of `__collect_cgroup_v1_cpu_metrics` in front of the usage of each CPU. -/
def collectV1Gauges (files : CpuFiles) : CpuCollect :=
  (collectCpuacctStat files.cpuacctCpuacctStat).andThen
    ((collectGauge .v1CpuShares files.cpuacctCpuShares).andThen
      ((collectGauge .v1CpuCfsPeriodUs files.cpuacctCpuCfsPeriodUs).andThen
        (collectGauge .v1CpuCfsQuotaUs files.cpuacctCpuCfsQuotaUs)))

/-- Its counters behind the usage of each CPU. -/
def collectV1Usage (files : CpuFiles) : CpuCollect :=
  (collectUsage (.v1CpuacctUsageNs, .cpuStatUsageTime) files.cpuacctUsage).andThen
    ((collectUsage (.v1CpuacctUsageUserNs, .cpuStatUsageUserTime) files.cpuacctUsageUser).andThen
      (collectUsage (.v1CpuacctUsageSystemNs, .cpuStatUsageSystemTime) files.cpuacctUsageSys))

/-- `__collect_cgroup_v1_cpu_metrics`. -/
def collectCgroupV1CpuMetrics (cpuCoresNum : UInt32) (files : CpuFiles) : CpuCollect :=
  (collectCpuStatV1 files.cpuacctCpuStat).andThen
    ((collectV1Gauges files).andThen
      ((collectUsageAll cpuCoresNum files.cpuacctUsageAll).andThen (collectV1Usage files)))

/-! ## Version 2 -/

/-- The quota in CPUs, where the word `max` stands for none. -/
def cpuMaxValue (line : CString) : CpuValue :=
  if line.take 3 = "max".toList then .whole 0
  else
    match Apps.strsplitToNums line 2 with
    | [quota, period] =>
        .quotient (doubleOfUInt64 (UInt64.ofNat quota)) (doubleOfUInt64 (UInt64.ofNat period))
    | _ => .whole 0

/-- `cpu.max`, where an empty file counts as one that cannot be read. -/
def collectCpuMax (file : SourceFile CString) : CpuCollect := fun obj =>
  match file with
  | .noName => some { obj }
  | .failed | .read [] => some { obj, returned := true }
  | .read line => some { obj, outputs := [.gaugeSet .v2CpuMax (cpuMaxValue line)] }

/-- The counters from `cpu.stat`, in the order of their lines. -/
def cpuStatV2 : List (CpuMetric × CpuCounter) :=
  [(.v2CpuStatUsageUsec, .cpuStatUsageTime), (.v2CpuStatUserUsec, .cpuStatUsageUserTime),
    (.v2CpuStatSystemUsec, .cpuStatUsageSystemTime), (.v2CpuStatNrPeriods, .cpuStatNrPeriods),
    (.v2CpuStatNrThrottled, .cpuStatNrThrottled), (.v2CpuStatThrottledUsec, .cpuStatThrottledTime)]

/-- The line that a value is read from. -/
def cpuStatV2Line : CpuCounter → Nat
  | .cpuStatUsageTime => 0
  | .cpuStatUsageUserTime => 1
  | .cpuStatUsageSystemTime => 2
  | .cpuStatNrPeriods => 3
  | .cpuStatNrThrottled => 4
  | .cpuStatThrottledTime => 5

def collectCpuStatV2 (file : LinesSource (List UInt8)) : CpuCollect :=
  withLines file true fun lines obj =>
    if lines.length < 6 then some { obj, returned := true }
    else
      let values := fun c => str2uint64 (lineword (lines.getD (cpuStatV2Line c) []) 1)
      some (addDifferences cpuStatV2 values obj)

/-- `__collect_cgroup_v2_cpu_metrics`. -/
def collectCgroupV2CpuMetrics (files : CpuFiles) : CpuCollect :=
  (collectCpuMax files.unifiedCpuMax).andThen (collectCpuStatV2 files.unifiedCpuStat)

/-! ## Rounds -/

section Rounds

variable (cgType : CgType) (cpuCoresNum : UInt32)

/-- `init_cgroup_obj_cpu_metrics`, for a new object. -/
def initCgroupObjCpuMetrics : CpuObj where
  counters := fun _ => 0
  usagePerCpus :=
    match cgType with
    | .v1 => List.replicate cpuCoresNum.toNat {}
    | .v2 => []

/-- `collect_cgroup_obj_cpu_metrics`. -/
def collectCgroupObjCpuMetrics (files : CpuFiles) : CpuCollect :=
  match cgType with
  | .v1 => collectCgroupV1CpuMetrics cpuCoresNum files
  | .v2 => collectCgroupV2CpuMetrics files

/-- An object, and the calls that have been made for it. -/
structure CpuState where
  obj : CpuObj
  outputs : List CpuOutput := []

def cpuRound (st : CpuState) (files : CpuFiles) : Option CpuState := do
  let part ← collectCgroupObjCpuMetrics cgType cpuCoresNum files st.obj
  some { obj := part.obj, outputs := st.outputs ++ part.outputs }

/-- The state behind some rounds. -/
def cpuRun (rounds : List CpuFiles) : Option CpuState :=
  rounds.foldlM (cpuRound cgType cpuCoresNum)
    { obj := initCgroupObjCpuMetrics cgType cpuCoresNum }

/-- What a call adds to a counter. -/
def CpuOutput.adds (metric : CpuMetric) : CpuOutput → Nat
  | .gaugeSet _ _ => 0
  | .counterAdd metric' value => if metric' = metric then value else 0

/-- What has been added to a counter. -/
def addedTo (metric : CpuMetric) (outputs : List CpuOutput) : Nat :=
  (outputs.map (CpuOutput.adds metric)).sum

def CpuState.total (st : CpuState) (metric : CpuMetric) : Nat := addedTo metric st.outputs

end Rounds

end XMonitor.Cgroups
