import XMonitor.Lib.DoubleBuffer
import XMonitor.Utils.Strings

/-!
# Collecting `/proc/diskstats`

Each line of the file is one block device. The collector keeps an `io_device` for each,
with the samples of the last two rounds in which it appeared, and adds what has
happened in between to the counters of the device.

The totals of seconds are quotients of floating-point numbers and left out, and so are the
gauges of `iostat` here. What is kept of the library of metrics is the list of values that are
added to each counter.
-/

namespace XMonitor.Disk

open scoped DoubleBuffer

/-- `struct io_stats`, without the two flush fields that nothing fills. -/
structure IoStats where
  rdIos : UInt64 := 0
  rdMerges : UInt64 := 0
  rdSectors : UInt64 := 0
  rdTicks : UInt64 := 0
  wrIos : UInt64 := 0
  wrMerges : UInt64 := 0
  wrSectors : UInt64 := 0
  wrTicks : UInt64 := 0
  iosPgr : UInt64 := 0
  iosTotalTicks : UInt64 := 0
  weightedIoTicks : UInt64 := 0
  dcIos : UInt64 := 0
  dcMerges : UInt64 := 0
  dcSectors : UInt64 := 0
  dcTicks : UInt64 := 0
  deriving DecidableEq

/-- `struct io_device`. The two indices are computed modulo 2. -/
structure IoDevice where
  major : UInt32
  minor : UInt32
  deviceHash : UInt32
  sectorSize : Int32
  stats : Fin 2 → IoStats
  currStatsId : Fin 2
  prevStatsId : Fin 2

/-- What `__get_device` compares. -/
def IoDevice.key (dev : IoDevice) : UInt32 × UInt32 × UInt32 :=
  (dev.major, dev.minor, dev.deviceHash)

def IoDevice.buffer (dev : IoDevice) : DoubleBuffer IoStats :=
  ⟨dev.stats, dev.currStatsId, dev.prevStatsId⟩

/-- A line of the file, and what `get_block_device_sector_size` returns for its device. -/
structure Line where
  words : List CString
  sectorSize : Int32

namespace Line

def major (line : Line) : UInt32 := str2uint32 (lineword line.words 0)

def minor (line : Line) : UInt32 := str2uint32 (lineword line.words 1)

def devName (line : Line) : CString := lineword line.words 2

/-- Lines with fewer words are skipped. -/
def IsDevice (line : Line) : Prop := 14 ≤ line.words.length

instance (line : Line) : Decidable line.IsDevice := inferInstanceAs (Decidable (_ ≤ _))

end Line

def bkrdHash (key : CString) : UInt32 :=
  key.foldl (fun hash c => hash * 131 + UInt32.ofNat c.toNat) 0

def Line.key (line : Line) : UInt32 × UInt32 × UInt32 :=
  (line.major, line.minor, bkrdHash line.devName)

def kernelSectorSize : Int32 := 512

/-- The device that `__get_device` adds to its list. -/
def newDevice (line : Line) : IoDevice where
  major := line.major
  minor := line.minor
  deviceHash := bkrdHash line.devName
  sectorSize := if line.sectorSize < 0 then kernelSectorSize else line.sectorSize
  stats := fun _ => {}
  currStatsId := 0
  prevStatsId := 0

def findDevice (devs : List IoDevice) (key : UInt32 × UInt32 × UInt32) : Option IoDevice :=
  devs.find? fun dev => dev.key = key

/-- `__get_device`: the list afterwards and the device. -/
def getDevice (devs : List IoDevice) (line : Line) : List IoDevice × IoDevice :=
  match findDevice devs line.key with
  | some dev => (devs, dev)
  | none => (devs ++ [newDevice line], newDevice line)

/-- Write through the pointer to a device of the list. Keys in the list are distinct. -/
def putDevice (devs : List IoDevice) (dev : IoDevice) : List IoDevice :=
  devs.map fun d => if d.key = dev.key then dev else d

/-- Fill `*curr_devstats` from the words of a line. -/
def readStats (old : IoStats) (words : List CString) : IoStats :=
  let word := fun i => str2uint64 (lineword words i)
  let stats := { old with
    rdIos := word 3, wrIos := word 7, rdMerges := word 4, wrMerges := word 8,
    rdSectors := word 5, wrSectors := word 9, rdTicks := word 6, wrTicks := word 10,
    iosPgr := word 11, iosTotalTicks := word 12, weightedIoTicks := word 13 }
  if 13 < words.length then
    { stats with
      dcIos := word 14, dcMerges := word 15, dcSectors := word 16, dcTicks := word 17 }
  else stats

/-- The sample that a line states. -/
def Line.stats (line : Line) : IoStats := readStats {} line.words

/-- The counters that a device has, except for those of seconds. -/
inductive DiskCounter where
  | readsCompleted
  | readsMerged
  | readBytes
  | writesCompleted
  | writesMerged
  | writesBytes
  | discardsCompleted
  | discardsMerged
  | discardedSectors
  deriving DecidableEq

namespace DiskCounter

/-- The counters in the order of the source. -/
def all : List DiskCounter :=
  [readsCompleted, readsMerged, readBytes, writesCompleted, writesMerged, writesBytes,
    discardsCompleted, discardsMerged, discardedSectors]

/-- The field that a counter follows. -/
def field : DiskCounter → IoStats → UInt64
  | readsCompleted => IoStats.rdIos
  | readsMerged => IoStats.rdMerges
  | readBytes => IoStats.rdSectors
  | writesCompleted => IoStats.wrIos
  | writesMerged => IoStats.wrMerges
  | writesBytes => IoStats.wrSectors
  | discardsCompleted => IoStats.dcIos
  | discardsMerged => IoStats.dcMerges
  | discardedSectors => IoStats.dcSectors

/-- What the change of the field is multiplied by, as `uint64_t`. -/
def factor (sectorSize : Int32) : DiskCounter → UInt64
  | readBytes => sectorSize.toInt64.toUInt64
  | writesBytes => sectorSize.toInt64.toUInt64
  | _ => 1

end DiskCounter

/-- One call of `prom_counter_add`. -/
structure CounterAdd where
  metric : DiskCounter
  device : CString
  value : Nat
  deriving DecidableEq

/-- One call for each counter of a device. -/
def addEach (name : CString) (value : DiskCounter → Nat) : List CounterAdd :=
  DiskCounter.all.map fun c => ⟨c, name, value c⟩

/-- What is added for the first sample of a device. -/
def firstAdds (name : CString) (sectorSize : Int32) (curr : IoStats) : List CounterAdd :=
  addEach name fun c => doubleOfUInt64 (c.field curr * c.factor sectorSize)

def deltaAdds (name : CString) (sectorSize : Int32) (prev curr : IoStats) : List CounterAdd :=
  addEach name fun c => doubleOfUInt64 ((c.field curr - c.field prev) * c.factor sectorSize)

/-- The two samples from which the metrics of one interval are computed. -/
structure Computation where
  device : CString
  prevDevstats : IoStats
  currDevstats : IoStats
  deriving DecidableEq

structure State where
  iodevList : List IoDevice := []
  /-- The calls of `prom_counter_add` so far. -/
  added : List CounterAdd := []
  computed : List Computation := []

/-- The part of the loop body that works on the device of the line: the device
afterwards, what is added and what is computed. -/
def collectDevice (dev : IoDevice) (line : Line) :
    IoDevice × List CounterAdd × List Computation :=
  let curr := readStats (dev.stats dev.currStatsId) line.words
  let dev := { dev with stats := Function.update dev.stats dev.currStatsId curr }
  if dev.currStatsId = 0 ∧ dev.prevStatsId = 0 then
    ({ dev with currStatsId := dev.currStatsId + 1 },
      firstAdds line.devName dev.sectorSize curr, [])
  else
    let prev := dev.stats dev.prevStatsId
    ({ dev with prevStatsId := dev.currStatsId, currStatsId := dev.currStatsId + 1 },
      deltaAdds line.devName dev.sectorSize prev curr, [⟨line.devName, prev, curr⟩])

/-- The loop body of `collector_proc_diskstats`. -/
def collectLine (st : State) (line : Line) : State :=
  if line.words.length < 14 then st
  else
    let found := getDevice st.iodevList line
    let result := collectDevice found.2 line
    { iodevList := putDevice found.1 result.1
      added := st.added ++ result.2.1
      computed := st.computed ++ result.2.2 }

/-- One round, for the lines of the file. -/
def collectorProcDiskstats (st : State) (file : List Line) : State := file.foldl collectLine st

/-- The state after some rounds. -/
def run (rounds : List (List Line)) : State := rounds.foldl collectorProcDiskstats {}

theorem run_eq_foldl (rounds : List (List Line)) :
    run rounds = rounds.flatten.foldl collectLine {} := by
  rw [List.foldl_flatten]
  rfl

/-- The part of some calls that goes to one counter of a device. -/
def addedTo (c : DiskCounter) (name : CString) (adds : List CounterAdd) : Nat :=
  ((adds.filter fun a => a.metric = c ∧ a.device = name).map CounterAdd.value).sum

/-- What has been added to one counter of a device. -/
def State.total (st : State) (c : DiskCounter) (name : CString) : Nat := addedTo c name st.added

/-! ## The list of devices -/

theorem findDevice_putDevice (devs : List IoDevice) (dev : IoDevice)
    (key : UInt32 × UInt32 × UInt32) :
    findDevice (putDevice devs dev) key =
      (findDevice devs key).map fun d => if d.key = dev.key then dev else d := by
  rw [findDevice, putDevice, List.find?_map]
  congr 1
  apply congrArg (List.find? · devs)
  funext d
  by_cases hd : d.key = dev.key
  · simp [hd]
  · simp [hd]

theorem key_of_findDevice {devs : List IoDevice} {key : UInt32 × UInt32 × UInt32}
    {dev : IoDevice} (h : findDevice devs key = some dev) : dev.key = key := by
  simpa using List.find?_some h

theorem getDevice_key (devs : List IoDevice) (line : Line) :
    (getDevice devs line).2.key = line.key := by
  rw [getDevice]
  split
  case h_1 dev h => exact key_of_findDevice h
  case h_2 => rfl

/-- The device of the line is in the list, and the others are as before. -/
theorem findDevice_getDevice (devs : List IoDevice) (line : Line)
    (key : UInt32 × UInt32 × UInt32) :
    findDevice (getDevice devs line).1 key =
      if key = line.key then some (getDevice devs line).2 else findDevice devs key := by
  rw [getDevice]
  split
  case h_1 dev h =>
    split
    case isTrue hkey => rw [hkey, h]
    case isFalse => rfl
  case h_2 h =>
    change List.find? _ _ = _
    rw [List.find?_append]
    split
    case isTrue hkey =>
      subst hkey
      change (findDevice devs line.key).or _ = _
      rw [h, Option.none_or]
      exact List.find?_cons_of_pos (decide_eq_true (rfl : (newDevice line).key = line.key))
    case isFalse hkey =>
      change (findDevice devs key).or _ = _
      rw [List.find?_cons_of_neg, List.find?_nil, Option.or_none]
      intro heq
      exact hkey (of_decide_eq_true heq).symm

/-- The lookup of a device after a line. -/
theorem findDevice_collectLine {st : State} {line : Line} (hline : line.IsDevice)
    (key : UInt32 × UInt32 × UInt32) :
    findDevice (collectLine st line).iodevList key =
      if key = line.key then
        some (collectDevice (getDevice st.iodevList line).2 line).1
      else findDevice st.iodevList key := by
  have hkey : (collectDevice (getDevice st.iodevList line).2 line).1.key = line.key := by
    rw [← getDevice_key st.iodevList line, collectDevice]
    split <;> rfl
  rw [collectLine, if_neg (Nat.not_lt.mpr hline)]
  change findDevice (putDevice _ _) key = _
  rw [findDevice_putDevice, findDevice_getDevice, hkey]
  split
  case isTrue h => rw [Option.map_some, if_pos (getDevice_key st.iodevList line)]
  case isFalse h =>
    cases hfind : findDevice st.iodevList key with
    | none => rfl
    | some dev =>
        have hne : dev.key ≠ line.key := by
          rw [key_of_findDevice hfind]
          exact h
        rw [Option.map_some, if_neg hne]

/-! ## One device -/

/-- Nothing of the sample before last is left in the slot. -/
theorem readStats_eq {line : Line} (hline : line.IsDevice) (old : IoStats) :
    readStats old line.words = line.stats := by
  have hlen : 13 < line.words.length := hline
  rw [Line.stats, readStats, readStats, if_pos hlen, if_pos hlen]

theorem buffer_collectDevice {line : Line} (hline : line.IsDevice) (dev : IoDevice) :
    (collectDevice dev line).1.buffer = dev.buffer.push line.stats := by
  rw [collectDevice, readStats_eq hline, DoubleBuffer.push]
  split
  case isTrue h =>
    rw [if_pos (show (dev.buffer.write line.stats).IsFirst from h)]
    rfl
  case isFalse h =>
    rw [if_neg (show ¬(dev.buffer.write line.stats).IsFirst from h)]
    rfl

theorem sectorSize_collectDevice (dev : IoDevice) (line : Line) :
    (collectDevice dev line).1.sectorSize = dev.sectorSize := by
  rw [collectDevice]
  split <;> rfl

/-- All calls for a line are for its device. -/
theorem exists_addEach (dev : IoDevice) (line : Line) :
    ∃ value, (collectDevice dev line).2.1 = addEach line.devName value := by
  rw [collectDevice]
  split
  · simp only [firstAdds]
    exact ⟨_, rfl⟩
  · simp only [deltaAdds]
    exact ⟨_, rfl⟩

/-- A new device has no samples. -/
theorem last_newDevice (line : Line) : (newDevice line).buffer.last = none :=
  DoubleBuffer.last_fresh {}

/-- What a line adds and computes follows from the last sample of its device. -/
theorem collectDevice_first {dev : IoDevice} {line : Line} (hline : line.IsDevice)
    (hlast : dev.buffer.last = none) :
    (collectDevice dev line).2 = (firstAdds line.devName dev.sectorSize line.stats, []) := by
  have hfirst : dev.currStatsId = 0 ∧ dev.prevStatsId = 0 :=
    DoubleBuffer.isFirst_iff_last.mpr hlast
  rw [collectDevice, readStats_eq hline, if_pos hfirst]

theorem collectDevice_next {dev : IoDevice} {line : Line} {prev : IoStats}
    (hline : line.IsDevice) (hvalid : dev.buffer.Valid) (hlast : dev.buffer.last = some prev) :
    (collectDevice dev line).2 =
      (deltaAdds line.devName dev.sectorSize prev line.stats,
        [⟨line.devName, prev, line.stats⟩]) := by
  have hfirst : ¬dev.buffer.IsFirst := by
    rw [DoubleBuffer.isFirst_iff_last, hlast]
    exact Option.some_ne_none prev
  have hprev := DoubleBuffer.write_prev hvalid hfirst line.stats
  rw [hlast] at hprev
  obtain rfl := Option.some.inj hprev
  have hnot : ¬(dev.currStatsId = 0 ∧ dev.prevStatsId = 0) := hfirst
  rw [collectDevice, readStats_eq hline, if_neg hnot]
  rfl

end XMonitor.Disk
