import XMonitor.Lib.BpfHash
import XMonitor.Utils.Durations
import XMonitor.Utils.Strings
import Mathlib.Logic.Function.Basic

/-!
# The scheduler programs

The programs of `xm_cpu_sched` run at tracepoints of the scheduler. They remember when a
task was put on a run queue and when it left the processor. At a switch they sort the
time that the next task spent on the run queue into a histogram, and report the time it
spent off the processor if that lies in a window. Tasks that exit are reported as well.

An event carries what the program reads while it runs: the tasks, the clock each time it
is read, and the record that the ring buffer reserves, with the bytes it holds already.
-/

namespace XMonitor.Sched

open XMonitor

def maxThreadCount : Nat := 10240

def taskRunning : UInt64 := 0
def taskDead : UInt64 := 0x80
def taskWakekill : UInt64 := 0x100
def taskStopped : UInt64 := 0x4

/-- What the programs read of a `struct task_struct`. -/
structure Task where
  pid : UInt32
  tgid : UInt32
  pgid : UInt32
  pidns : UInt32
  kthread : Bool
  state : UInt64
  exitState : UInt32
  comm : CString
deriving DecidableEq

/-- The constants that are set when the programs are loaded. -/
structure Filter where
  scopeType : Int
  scopeValue : UInt64
  offcpuMinDurationNanosecs : Int
  offcpuMaxDurationNanosecs : Int
  offcpuTaskType : Int

/-- `enum xm_cpu_sched_evt_type`. -/
inductive EvtType where
  | none
  | runqlat
  | offcpu
  | hungTask
  | processExit
deriving DecidableEq

/-- `struct xm_cpu_sched_evt_data`. -/
structure EvtData where
  offcpuDurationMillsecs : UInt64
  evtType : EvtType
  tid : UInt32
  pid : UInt32
  comm : CString
deriving DecidableEq

/-- `struct xm_runqlat_hist`. -/
abbrev RunqlatHist := Fin 20 → UInt32

def histKey : UInt32 := 0xFFFFFFFF

structure State where
  runqlatStart : BpfHash UInt32 UInt64 maxThreadCount
  runqlatHists : BpfHash UInt32 RunqlatHist 1
  offcpuStart : BpfHash UInt32 UInt64 maxThreadCount
  /-- The records submitted to the ring buffer, oldest first. -/
  sent : List EvtData

def State.init : State where
  runqlatStart := BpfHash.empty
  runqlatHists := BpfHash.empty
  offcpuStart := BpfHash.empty
  sent := []

/-- The scope test of `__insert_cs_start_map`, which lets an unknown small type pass. -/
def Filter.inScope (f : Filter) (ts : Task) : Bool :=
  if f.scopeType = 2 then ts.pidns = f.scopeValue.toUInt32
  else if f.scopeType = 4 then ts.tgid = f.scopeValue.toUInt32
  else if f.scopeType = 5 then ts.pgid = f.scopeValue.toUInt32
  else !(5 < f.scopeType)

def Filter.ofTaskType (f : Filter) (ts : Task) : Bool :=
  f.offcpuTaskType = 0 || (f.offcpuTaskType = 1 && !ts.kthread) ||
    (f.offcpuTaskType = 2 && ts.kthread)

/-- `__insert_cs_start_map`, which reads the clock only for a task in scope. -/
def insertCsStartMap (f : Filter) (ts : Task) (evtType : EvtType) (nowNs : UInt64)
    (s : State) : State :=
  if f.inScope ts then
    match evtType with
    | .runqlat => { s with runqlatStart := s.runqlatStart.put ts.pid nowNs }
    | .offcpu =>
        if f.ofTaskType ts then { s with offcpuStart := s.offcpuStart.put ts.pid nowNs } else s
    | _ => s
  else s

/-- One more sample in a slot. -/
def RunqlatHist.add (hist : RunqlatHist) (slot : Fin 20) : RunqlatHist :=
  Function.update hist slot (hist slot + 1)

/-- The slot of a duration in microseconds, where the last one takes the longer ones too. -/
def runqlatSlot (us : Int) : Fin 20 := logSlot 19 (UInt64.ofNat us.toNat)

theorem runqlatSlot_val {us : Int} (h : us.toNat < 2 ^ 64) :
    (runqlatSlot us).val = min us.toNat.log2 19 := by
  rw [runqlatSlot, logSlot_val, UInt64.toNat_ofNat_of_lt' h]

/-- The sample of `__statistics_runqlat`, left out if the duration is negative or there is
no room for the histogram. -/
def sampleRunqlat (wakeupToRun : Int) (s : State) : State :=
  if wakeupToRun < 0 then s
  else
    match s.runqlatHists.lookupOrTryInit histKey (fun _ => 0) with
    | none => s
    | some (hists, hist) =>
        { s with runqlatHists := hists.put histKey (hist.add (runqlatSlot (wakeupToRun / 1000))) }

/-- `__statistics_runqlat`. -/
def statisticsRunqlat (pid : UInt32) (nowNs : UInt64) (s : State) : State :=
  match s.runqlatStart.lookup pid with
  | none => s
  | some wakeupNs =>
      let s := sampleRunqlat (duration nowNs wakeupNs) s
      { s with runqlatStart := s.runqlatStart.delete pid }

/-- `bpf_probe_read_str` into the name of a record. -/
def readComm (comm : CString) : CString := comm.take 15

def offcpuEvt (ts : Task) (offcpuDuration : Int) : EvtData where
  offcpuDurationMillsecs := UInt64.ofNat (offcpuDuration / 1000000).toNat
  evtType := .offcpu
  tid := ts.pid
  pid := ts.tgid
  comm := readComm ts.comm

/-- The durations that are reported. -/
def Filter.inWindow (f : Filter) (offcpuDuration : Int) : Bool :=
  f.offcpuMinDurationNanosecs ≤ offcpuDuration && offcpuDuration ≤ f.offcpuMaxDurationNanosecs

/-- `__process_return_to_cpu_task`, with the record that it can reserve. -/
def processReturnToCpuTask (f : Filter) (ts : Task) (nowNs : UInt64) (reserved : Option EvtData)
    (s : State) : State :=
  match s.offcpuStart.lookup ts.pid with
  | none => s
  | some offcpuNs =>
      let d := duration nowNs offcpuNs
      let reported := !(d ≤ 0) && f.inWindow d && reserved.isSome
      { s with
        offcpuStart := s.offcpuStart.delete ts.pid
        sent := if reported then s.sent ++ [offcpuEvt ts d] else s.sent }

/-- A switch leads from one task to another, and the clock is read in this order. -/
structure Switch where
  prev : Task
  next : Task
  distinct : next.pid ≠ 0 → prev.pid ≠ next.pid
  runqlatNs : UInt64
  nowNs : UInt64
  offcpuNs : UInt64
  reserved : Option EvtData

/-- The test that ends `btf_tracepoint__xm_sched_switch` early. -/
def Task.goesAway (prev : Task) : Bool :=
  prev.exitState ≠ 0 || prev.state &&& (taskDead ||| taskWakekill ||| taskStopped) ≠ 0

/-- Both stamps of a task are dropped. -/
def State.forget (s : State) (pid : UInt32) : State :=
  { s with
    offcpuStart := s.offcpuStart.delete pid
    runqlatStart := s.runqlatStart.delete pid }

/-- A task that is still running is put back on the run queue. -/
def requeueRunning (f : Filter) (sw : Switch) (s : State) : State :=
  if sw.prev.state = taskRunning then insertCsStartMap f sw.prev .runqlat sw.runqlatNs s else s

/-- The end of `btf_tracepoint__xm_sched_switch`, for the task that is about to run. -/
def switchIn (f : Filter) (sw : Switch) (s : State) : State :=
  if sw.next.pid ≠ 0 then
    let s := statisticsRunqlat sw.next.pid sw.nowNs s
    processReturnToCpuTask f sw.next sw.nowNs sw.reserved s
  else s

/-- `btf_tracepoint__xm_sched_switch`. -/
def schedSwitch (f : Filter) (sw : Switch) (s : State) : State :=
  let s := requeueRunning f sw s
  if sw.prev.goesAway then s.forget sw.prev.pid
  else switchIn f sw (insertCsStartMap f sw.prev .offcpu sw.offcpuNs s)

/-- A record of `evtType` for a task, which leaves the duration of the reserved record. -/
def taskEvt (evtType : EvtType) (ts : Task) (reserved : EvtData) : EvtData :=
  { reserved with
    evtType := evtType
    tid := ts.pid
    pid := ts.tgid
    comm := readComm ts.comm }

def State.submit (s : State) (evtType : EvtType) (ts : Task) (reserved : Option EvtData) : State :=
  { s with sent := s.sent ++ reserved.toList.map (taskEvt evtType ts) }

/-- `btf_tracepoint__xm_sched_process_hang`. -/
def schedProcessHang (ts : Task) (reserved : Option EvtData) (s : State) : State :=
  s.submit .hungTask ts reserved

/-- `btf_tracepoint__xm_sched_process_exit`. -/
def schedProcessExit (ts : Task) (reserved : Option EvtData) (s : State) : State :=
  (s.submit .processExit ts reserved).forget ts.pid

inductive Event where
  | wakeup (ts : Task) (nowNs : UInt64)
  | wakeupNew (ts : Task) (nowNs : UInt64)
  | switch (sw : Switch)
  | processHang (ts : Task) (reserved : Option EvtData)
  | processExit (ts : Task) (reserved : Option EvtData)

def step (f : Filter) (s : State) : Event → State
  | .wakeup ts nowNs => insertCsStartMap f ts .runqlat nowNs s
  | .wakeupNew ts nowNs => insertCsStartMap f ts .runqlat nowNs s
  | .switch sw => schedSwitch f sw s
  | .processHang ts reserved => schedProcessHang ts reserved s
  | .processExit ts reserved => schedProcessExit ts reserved s

/-- The state after some events. -/
def run (f : Filter) (events : List Event) : State := events.foldl (step f) State.init

@[simp] theorem run_nil (f : Filter) : run f [] = State.init := rfl

@[simp] theorem run_snoc (f : Filter) (events : List Event) (e : Event) :
    run f (events ++ [e]) = step f (run f events) e := by
  rw [run, List.foldl_append]
  rfl

/-- The histogram, which is zero before its first sample. -/
def State.hist (s : State) : RunqlatHist := (s.runqlatHists.lookup histKey).getD fun _ => 0

/-! ## What the functions change -/

section Insert

variable (f : Filter) (ts : Task) (nowNs : UInt64) (s : State)

@[simp] theorem insert_runqlatHists (evtType : EvtType) :
    (insertCsStartMap f ts evtType nowNs s).runqlatHists = s.runqlatHists := by
  cases evtType <;> simp only [insertCsStartMap] <;> repeat' split
  all_goals rfl

@[simp] theorem insert_sent (evtType : EvtType) :
    (insertCsStartMap f ts evtType nowNs s).sent = s.sent := by
  cases evtType <;> simp only [insertCsStartMap] <;> repeat' split
  all_goals rfl

@[simp] theorem insert_runqlat_offcpuStart :
    (insertCsStartMap f ts .runqlat nowNs s).offcpuStart = s.offcpuStart := by
  rw [insertCsStartMap]
  split <;> rfl

@[simp] theorem insert_offcpu_runqlatStart :
    (insertCsStartMap f ts .offcpu nowNs s).runqlatStart = s.runqlatStart := by
  simp only [insertCsStartMap]
  repeat' split
  all_goals rfl

theorem insert_runqlat_runqlatStart :
    (insertCsStartMap f ts .runqlat nowNs s).runqlatStart = s.runqlatStart.put ts.pid nowNs ∨
      (insertCsStartMap f ts .runqlat nowNs s).runqlatStart = s.runqlatStart := by
  rw [insertCsStartMap]
  split
  · exact .inl rfl
  · exact .inr rfl

variable {f ts nowNs s}

theorem insert_offcpu_offcpuStart (hscope : f.inScope ts = true) (htype : f.ofTaskType ts = true) :
    (insertCsStartMap f ts .offcpu nowNs s).offcpuStart = s.offcpuStart.put ts.pid nowNs := by
  simp only [insertCsStartMap, if_pos hscope, if_pos htype]

end Insert

section Requeue

variable (f : Filter) (sw : Switch) (s : State)

@[simp] theorem requeue_runqlatHists : (requeueRunning f sw s).runqlatHists = s.runqlatHists := by
  rw [requeueRunning]
  split
  · apply insert_runqlatHists
  · rfl

@[simp] theorem requeue_sent : (requeueRunning f sw s).sent = s.sent := by
  rw [requeueRunning]
  split
  · apply insert_sent
  · rfl

@[simp] theorem requeue_offcpuStart : (requeueRunning f sw s).offcpuStart = s.offcpuStart := by
  rw [requeueRunning]
  split
  · apply insert_runqlat_offcpuStart
  · rfl

theorem requeue_runqlatStart :
    (requeueRunning f sw s).runqlatStart = s.runqlatStart.put sw.prev.pid sw.runqlatNs ∨
      (requeueRunning f sw s).runqlatStart = s.runqlatStart := by
  rw [requeueRunning]
  split
  · exact insert_runqlat_runqlatStart f sw.prev sw.runqlatNs s
  · exact .inr rfl

end Requeue

@[simp] theorem forget_runqlatStart (s : State) (pid : UInt32) :
    (s.forget pid).runqlatStart = s.runqlatStart.delete pid := rfl

@[simp] theorem forget_offcpuStart (s : State) (pid : UInt32) :
    (s.forget pid).offcpuStart = s.offcpuStart.delete pid := rfl

@[simp] theorem forget_runqlatHists (s : State) (pid : UInt32) :
    (s.forget pid).runqlatHists = s.runqlatHists := rfl

@[simp] theorem forget_sent (s : State) (pid : UInt32) : (s.forget pid).sent = s.sent := rfl

@[simp] theorem sampleRunqlat_runqlatStart (d : Int) (s : State) :
    (sampleRunqlat d s).runqlatStart = s.runqlatStart := by
  rw [sampleRunqlat]
  repeat' split
  all_goals rfl

@[simp] theorem sampleRunqlat_offcpuStart (d : Int) (s : State) :
    (sampleRunqlat d s).offcpuStart = s.offcpuStart := by
  rw [sampleRunqlat]
  repeat' split
  all_goals rfl

@[simp] theorem sampleRunqlat_sent (d : Int) (s : State) : (sampleRunqlat d s).sent = s.sent := by
  rw [sampleRunqlat]
  repeat' split
  all_goals rfl

section SwitchIn

variable (f : Filter) (sw : Switch) (s : State)

theorem statisticsRunqlat_runqlatStart (pid : UInt32) (nowNs : UInt64) (k : UInt32) :
    (statisticsRunqlat pid nowNs s).runqlatStart.lookup k =
      if k = pid then none else s.runqlatStart.lookup k := by
  rw [statisticsRunqlat]
  split
  next h =>
    split
    next hk => rw [hk, h]
    next => rfl
  next => simp

@[simp] theorem statisticsRunqlat_offcpuStart (pid : UInt32) (nowNs : UInt64) :
    (statisticsRunqlat pid nowNs s).offcpuStart = s.offcpuStart := by
  rw [statisticsRunqlat]
  split <;> simp

@[simp] theorem statisticsRunqlat_sent (pid : UInt32) (nowNs : UInt64) :
    (statisticsRunqlat pid nowNs s).sent = s.sent := by
  rw [statisticsRunqlat]
  split <;> simp

theorem statisticsRunqlat_runqlatHists (pid : UInt32) (nowNs : UInt64) :
    (statisticsRunqlat pid nowNs s).runqlatHists =
      (s.runqlatStart.lookup pid).elim s.runqlatHists fun wakeupNs =>
        (sampleRunqlat (duration nowNs wakeupNs) s).runqlatHists := by
  rw [statisticsRunqlat]
  split
  next h => rw [h]; rfl
  next h => rw [h]; rfl

variable (ts : Task) (nowNs : UInt64) (reserved : Option EvtData)

@[simp] theorem processReturn_runqlatStart :
    (processReturnToCpuTask f ts nowNs reserved s).runqlatStart = s.runqlatStart := by
  rw [processReturnToCpuTask]
  split <;> rfl

@[simp] theorem processReturn_runqlatHists :
    (processReturnToCpuTask f ts nowNs reserved s).runqlatHists = s.runqlatHists := by
  rw [processReturnToCpuTask]
  split <;> rfl

theorem processReturn_offcpuStart (k : UInt32) :
    (processReturnToCpuTask f ts nowNs reserved s).offcpuStart.lookup k =
      if k = ts.pid then none else s.offcpuStart.lookup k := by
  rw [processReturnToCpuTask]
  split
  next h =>
    split
    next hk => rw [hk, h]
    next => rfl
  next => simp

theorem switchIn_runqlatStart (k : UInt32) :
    (switchIn f sw s).runqlatStart.lookup k =
      if sw.next.pid ≠ 0 ∧ k = sw.next.pid then none else s.runqlatStart.lookup k := by
  rw [switchIn]
  split
  next h => simp [h, statisticsRunqlat_runqlatStart]
  next h => simp [h]

theorem switchIn_offcpuStart (k : UInt32) :
    (switchIn f sw s).offcpuStart.lookup k =
      if sw.next.pid ≠ 0 ∧ k = sw.next.pid then none else s.offcpuStart.lookup k := by
  rw [switchIn]
  split
  next h => simp [h, processReturn_offcpuStart]
  next h => simp [h]

end SwitchIn

/-- Only the exit of a task is reported as one. -/
theorem mem_sent_of_step {f : Filter} {s : State} {e : Event}
    (he : ∀ ts reserved, e ≠ .processExit ts reserved) {evtData : EvtData}
    (h : evtData ∈ (step f s e).sent) (hexit : evtData.evtType = .processExit) :
    evtData ∈ s.sent := by
  cases e with
  | wakeup ts nowNs =>
      rw [step, insert_sent] at h
      exact h
  | wakeupNew ts nowNs =>
      rw [step, insert_sent] at h
      exact h
  | switch sw =>
      simp only [step, schedSwitch] at h
      split at h
      · rw [forget_sent, requeue_sent] at h
        exact h
      · rw [switchIn] at h
        split at h
        · simp only [processReturnToCpuTask] at h
          split at h
          · rw [statisticsRunqlat_sent, insert_sent, requeue_sent] at h
            exact h
          · simp only [statisticsRunqlat_sent, insert_sent, requeue_sent] at h
            split at h
            · obtain h | h := List.mem_append.mp h
              · exact h
              · rw [List.mem_singleton.mp h] at hexit
                cases hexit
            · exact h
        · rw [insert_sent, requeue_sent] at h
          exact h
  | processHang ts reserved =>
      obtain h | h := List.mem_append.mp h
      · exact h
      · obtain ⟨r, -, rfl⟩ := List.mem_map.mp h
        cases hexit
  | processExit ts reserved => exact absurd rfl (he ts reserved)

end XMonitor.Sched
