import XMonitor.Utils.ProcfileOpen

/-!
# The CPU usage of a process

`collector_process_cpu_usage` reads `/proc/<pid>/stat` and takes numbers from fixed words of its
first line. The name of the process stands in parentheses and may hold any bytes but a zero and
a newline, so where the words are depends on whether the types of `(` and `)` have been set.
-/

namespace XMonitor.Process

open Procfile

/-- The open file of a status. Its separators are the default ones, up to the parentheses. -/
structure StatFile where
  separators : UInt8 → PfChar
  others : ∀ c, c ≠ 40 → c ≠ 41 → separators c = procfileSetSeparators none c

/-- `procfile_open(ps->stat_full_filename, NULL, ..)`. -/
def StatFile.opened : StatFile := ⟨procfileSetSeparators none, fun _ _ _ => rfl⟩

theorem defaultType_cases (c : UInt8) :
    procfileSetSeparators none c = .isSeparator ∨ procfileSetSeparators none c = .isNewline ∨
      procfileSetSeparators none c = .isWord := by
  rw [procfileSetSeparators, defSepsType]
  repeat' split
  · exact .inl rfl
  · exact .inr (.inl rfl)
  · exact .inl rfl
  · exact .inr (.inr rfl)

/-- `procfile_set_open_close(ps->pf_proc_pid_stat, "(", ")")`. -/
def StatFile.setOpenClose (pf : StatFile) : StatFile where
  separators := procfileSetOpenClose pf.separators [40] [41]
  others c hopen hclose := by
    have htype := pf.others c hopen hclose
    rw [procfileSetOpenClose, htype]
    obtain h | h | h := defaultType_cases c
    all_goals simp [h, hopen, hclose]

/-- What `collector_process_cpu_usage` uses of `struct process_status`. The comm is an array of
64 bytes, of which one is the zero. -/
structure ProcessStatus (Seconds : Type) where
  pfProcPidStat : Option StatFile
  ppid : Int32
  comm : CString
  comm_lt : comm.length < 64
  minfltRaw : UInt64
  cminfltRaw : UInt64
  majfltRaw : UInt64
  cmajfltRaw : UInt64
  utimeRaw : UInt64
  stimeRaw : UInt64
  cutimeRaw : UInt64
  cstimeRaw : UInt64
  processCpuJiffies : UInt64
  numThreads : Int32
  startTime : Seconds

/-- `str2int32_t`. -/
def str2int32 : CString → Int32
  | '-' :: s => -scanDigits Int32.ofNat 0 s
  | s => scanDigits Int32.ofNat 0 s

/-- `strlcpy(dst, src, XM_PROC_COMM_SIZE)`. -/
def strlcpyComm (src : CString) : CString := src.take 63

variable {Seconds : Type} (perHz : Nat → Seconds)

/-- What is taken from the words of the first line. The division of a `double` by `system_hz`
is given. -/
def ProcessStatus.takeWords (ps : ProcessStatus Seconds) (pf : StatFile) (line : List CString) :
    ProcessStatus Seconds :=
  let comm := lineword line 1
  let gtime := str2uint64 (lineword line 42)
  let cgtime := str2uint64 (lineword line 43)
  let utimeRaw := str2uint64 (lineword line 13) - gtime
  let stimeRaw := str2uint64 (lineword line 14)
  let cutimeRaw := str2uint64 (lineword line 15) - cgtime
  let cstimeRaw := str2uint64 (lineword line 16)
  { pfProcPidStat := some pf
    ppid := (str2uint32 (lineword line 3)).toInt32
    comm := if comm ≠ ps.comm then strlcpyComm comm else ps.comm
    comm_lt := by
      split
      · rw [strlcpyComm, List.length_take]
        omega
      · exact ps.comm_lt
    minfltRaw := str2uint64 (lineword line 9)
    cminfltRaw := str2uint64 (lineword line 10)
    majfltRaw := str2uint64 (lineword line 11)
    cmajfltRaw := str2uint64 (lineword line 12)
    utimeRaw
    stimeRaw
    cutimeRaw
    cstimeRaw
    processCpuJiffies := utimeRaw + stimeRaw + cutimeRaw + cstimeRaw
    numThreads := str2int32 (lineword line 19)
    startTime := perHz (doubleOfUInt64 (str2uint64 (lineword line 21))) }

/-- `collector_process_cpu_usage`, which opens the file on the first call. The parentheses are
set where the file has been open before the call. Opening and reading may fail. -/
def collectorProcessCpuUsage (ps : ProcessStatus Seconds) (opens : Bool)
    (content : Option (List UInt8)) : ProcessStatus Seconds × Int :=
  let setQuotes := ps.pfProcPidStat.isNone
  let pf := if ps.pfProcPidStat.isNone ∧ opens then some StatFile.opened else ps.pfProcPidStat
  match pf with
  | none => (ps, -1)
  | some pf =>
      let pf := if setQuotes = false then pf.setOpenClose else pf
      match content with
      | none => ({ ps with pfProcPidStat := none }, -1)
      | some content =>
          (ps.takeWords perHz pf ((fileLines pf.separators content).getD 0 []), 0)

/-- What the kernel prints for a process. The numbers that are not used have no names. -/
structure StatLine where
  pid : Nat
  comm : List UInt8
  comm_ne : ∀ c ∈ comm, c ≠ 0 ∧ c ≠ 10
  state : UInt8
  state_letter : 65 ≤ state ∧ state ≤ 122
  ppid : Nat
  ppid_lt : ppid < 2 ^ 31
  pgrp : Int
  session : Int
  ttyNr : Int
  tpgid : Int
  flags : Int
  minflt : UInt64
  cminflt : UInt64
  majflt : UInt64
  cmajflt : UInt64
  utime : UInt64
  stime : UInt64
  cutime : UInt64
  cstime : UInt64
  priority : Int
  nice : Int
  numThreads : Nat
  numThreads_lt : numThreads < 2 ^ 31
  itrealvalue : Int
  starttime : UInt64
  memoryAndSignals : List Int
  memoryAndSignals_length : memoryAndSignals.length = 20
  guestTime : UInt64
  cguestTime : UInt64
  addresses : List Int
  addresses_length : addresses.length = 7
  exitCode : Int

namespace StatLine

variable (l : StatLine)

/-- The numbers in front of the last one. -/
def numbers : List Int :=
  [(l.ppid : Int), l.pgrp, l.session, l.ttyNr, l.tpgid, l.flags, l.minflt.toNat, l.cminflt.toNat,
    l.majflt.toNat, l.cmajflt.toNat, l.utime.toNat, l.stime.toNat, l.cutime.toNat,
    l.cstime.toNat, l.priority, l.nice, l.numThreads, l.itrealvalue, l.starttime.toNat] ++
    l.memoryAndSignals ++ [(l.guestTime.toNat : Int), l.cguestTime.toNat] ++ l.addresses

/-- The state and the numbers, with the blanks between them. -/
def fields : List Separated := ([l.state], 32) :: l.numbers.map fun n => (decimalInt n, 32)

/-- The name in its parentheses. -/
def name : List UInt8 := 40 :: l.comm ++ [41]

/-- The line. -/
def text : List UInt8 :=
  decimal l.pid ++ 32 :: (l.name ++ 32 :: lineText l.fields (decimalInt l.exitCode))

end StatLine

/-- The status has the comm, the parent, the four counters of faults, the times, the number of
threads and the start of the line. The time of guests is not part of the user times, and the
start is in seconds. -/
structure StatLine.TakenBy (l : StatLine) (ps : ProcessStatus Seconds) : Prop where
  comm : ps.comm = cString l.comm
  ppid : ps.ppid = Int32.ofNat l.ppid
  minflt : ps.minfltRaw = l.minflt
  cminflt : ps.cminfltRaw = l.cminflt
  majflt : ps.majfltRaw = l.majflt
  cmajflt : ps.cmajfltRaw = l.cmajflt
  utime : ps.utimeRaw = l.utime - l.guestTime
  stime : ps.stimeRaw = l.stime
  cutime : ps.cutimeRaw = l.cutime - l.cguestTime
  cstime : ps.cstimeRaw = l.cstime
  numThreads : ps.numThreads = Int32.ofNat l.numThreads
  startTime : ps.startTime = perHz (doubleOfUInt64 l.starttime)

/-- The numbers that a status has where the line has no words for them. -/
structure StatLine.NoNumbers (l : StatLine) : Prop where
  ppid : l.ppid = 0
  minflt : l.minflt = 0
  cminflt : l.cminflt = 0
  majflt : l.majflt = 0
  cmajflt : l.cmajflt = 0
  utime : l.utime = l.guestTime
  stime : l.stime = 0
  cutime : l.cutime = l.cguestTime
  cstime : l.cstime = 0
  numThreads : l.numThreads = 0
  startTime : perHz (doubleOfUInt64 l.starttime) = perHz 0

/-- A name that its parentheses keep together: it does not begin with one, and every `)` in it
closes a `(` of it. A carriage return would end the line. -/
structure KeptTogether (comm : List UInt8) : Prop where
  noReturn : 13 ∉ comm
  first : comm.head? ≠ some 40
  closes : ∀ n, (comm.take n).count 41 ≤ (comm.take n).count 40

/-- When the words of a line are where they are looked for. Where the parentheses have been set,
every `(` of the name has to be closed by it, too. In the two other cases a name of 63 bytes is
cut where it ends by the size of the array. -/
def StatLine.Readable (l : StatLine) (ps : ProcessStatus Seconds) : Prop :=
  match ps.pfProcPidStat with
  | none => l.comm = List.replicate 63 40
  | some _ =>
      KeptTogether l.comm ∧
        (l.comm.length ≤ 63 ∧ l.comm.count 40 = l.comm.count 41 ∨
          l.comm.length = 63 ∧ l.comm.count 40 ≠ l.comm.count 41 ∧ l.NoNumbers perHz)

end XMonitor.Process
