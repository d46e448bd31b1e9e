import XMonitor.Cgroups.Discovery
import XMonitor.Utils.Arl

/-!
# Memory metrics of the cgroups

A collection for a cgroup reads its `memory.stat` into static variables, which are shared
by all cgroups, and exports the variables as metrics of the cgroup. Which lines it reads
is decided by the keyword list of the cgroup.
-/

namespace XMonitor.Cgroups

/-- The static variables that keywords of `memory.stat` are read into. -/
inductive MemStat
  | cacheBytes | rssBytes | rssHugeBytes | shmemBytes | mappedFileBytes | dirtyBytes
  | writebackBytes | swapBytes | pgpgin | pgpgout | pgfault | pgmajfault | inactiveAnonBytes
  | activeAnonBytes | inactiveFileBytes | activeFileBytes | unevictableBytes
  | hierarchicalMemoryLimitBytes | totalCacheBytes | totalRssBytes | totalRssHugeBytes
  | totalShmemBytes | totalMappedFileBytes | totalDirtyBytes | totalWritebackBytes
  | totalSwapBytes | totalPgpgin | totalPgpgout | totalPgfault | totalPgmajfault
  | totalInactiveAnonBytes | totalActiveAnonBytes | totalInactiveFileBytes
  | totalActiveFileBytes | totalUnevictableBytes | anonBytes | fileBytes | kernelBytes
  | kernelStackBytes | slabBytes | sockBytes | anonThpBytes | fileWritebackBytes
  | fileDirtyBytes
deriving DecidableEq

/-- The keywords that `init_cgroup_obj_memory_metrics` expects, with their variables. -/
def memStatKeywords : CgType → List (String × MemStat)
  | .v1 =>
      [("cache", .cacheBytes), ("rss", .rssBytes), ("rss_huge", .rssHugeBytes),
        ("shmem", .shmemBytes), ("mapped_file", .mappedFileBytes), ("dirty", .dirtyBytes),
        ("writeback", .writebackBytes), ("swap", .swapBytes), ("pgpgin", .pgpgin),
        ("pgpgout", .pgpgout), ("pgfault", .pgfault), ("pgmajfault", .pgmajfault),
        ("inactive_anon", .inactiveAnonBytes), ("active_anon", .activeAnonBytes),
        ("inactive_file", .inactiveFileBytes), ("active_file", .activeFileBytes),
        ("unevictable", .unevictableBytes),
        ("hierarchical_memory_limit", .hierarchicalMemoryLimitBytes),
        ("total_cache", .totalCacheBytes), ("total_rss", .totalRssBytes),
        ("total_rss_huge", .totalRssHugeBytes), ("total_shmem", .totalShmemBytes),
        ("total_mapped_file", .totalMappedFileBytes), ("total_dirty", .totalDirtyBytes),
        ("total_writeback", .totalWritebackBytes), ("total_swap", .totalSwapBytes),
        ("total_pgpgin", .totalPgpgin), ("total_pgpgout", .totalPgpgout),
        ("total_pgfault", .totalPgfault), ("total_pgmajfault", .totalPgmajfault),
        ("total_inactive_anon", .totalInactiveAnonBytes),
        ("total_active_anon", .totalActiveAnonBytes),
        ("total_inactive_file", .totalInactiveFileBytes),
        ("total_active_file", .totalActiveFileBytes),
        ("total_unevictable", .totalUnevictableBytes)]
  | .v2 =>
      [("anon", .anonBytes), ("file", .fileBytes), ("kernel", .kernelBytes),
        ("kernel_stack", .kernelStackBytes), ("slab", .slabBytes), ("sock", .sockBytes),
        ("anon_thp", .anonThpBytes), ("file_writeback", .fileWritebackBytes),
        ("file_dirty", .fileDirtyBytes), ("pgfault", .pgfault), ("pgmajfault", .pgmajfault),
        ("inactive_anon", .inactiveAnonBytes), ("active_anon", .activeAnonBytes),
        ("inactive_file", .inactiveFileBytes), ("active_file", .activeFileBytes),
        ("unevictable", .unevictableBytes)]

/-- An export of a variable, to the metric that is named after a variable: `prom_gauge_set`
with the value, or `prom_counter_add` with the difference to the value exported last. -/
inductive MemStatExport
  | gauge (metric stat : MemStat)
  | counter (metric stat : MemStat)

/-- The variable that is exported. -/
def MemStatExport.source : MemStatExport → MemStat
  | .gauge _ stat | .counter _ stat => stat

/-- The exports after `memory.stat` has been read. The second and the third of version 2 go
to the same gauge, and the gauge of `anon` is never set. -/
def memStatExports : CgType → List MemStatExport
  | .v1 =>
      [.gauge .cacheBytes .cacheBytes, .gauge .rssBytes .rssBytes,
        .gauge .rssHugeBytes .rssHugeBytes, .gauge .shmemBytes .shmemBytes,
        .gauge .mappedFileBytes .mappedFileBytes, .gauge .dirtyBytes .dirtyBytes,
        .gauge .writebackBytes .writebackBytes, .gauge .swapBytes .swapBytes,
        .counter .pgpgin .pgpgin, .counter .pgpgout .pgpgout, .counter .pgfault .pgfault,
        .counter .pgmajfault .pgmajfault, .gauge .inactiveAnonBytes .inactiveAnonBytes,
        .gauge .activeAnonBytes .activeAnonBytes, .gauge .inactiveFileBytes .inactiveFileBytes,
        .gauge .activeFileBytes .activeFileBytes, .gauge .unevictableBytes .unevictableBytes,
        .gauge .hierarchicalMemoryLimitBytes .hierarchicalMemoryLimitBytes,
        .gauge .totalCacheBytes .totalCacheBytes, .gauge .totalRssBytes .totalRssBytes,
        .gauge .totalRssHugeBytes .totalRssHugeBytes, .gauge .totalShmemBytes .totalShmemBytes,
        .gauge .totalMappedFileBytes .totalMappedFileBytes,
        .gauge .totalDirtyBytes .totalDirtyBytes,
        .gauge .totalWritebackBytes .totalWritebackBytes,
        .gauge .totalSwapBytes .totalSwapBytes, .counter .totalPgpgin .totalPgpgin,
        .counter .totalPgpgout .totalPgpgout, .counter .totalPgfault .totalPgfault,
        .counter .totalPgmajfault .totalPgmajfault,
        .gauge .totalInactiveAnonBytes .totalInactiveAnonBytes,
        .gauge .totalActiveAnonBytes .totalActiveAnonBytes,
        .gauge .totalInactiveFileBytes .totalInactiveFileBytes,
        .gauge .totalActiveFileBytes .totalActiveFileBytes,
        .gauge .totalUnevictableBytes .totalUnevictableBytes]
  | .v2 =>
      [.gauge .fileBytes .anonBytes, .gauge .kernelBytes .fileBytes,
        .gauge .kernelBytes .kernelBytes, .gauge .kernelStackBytes .kernelStackBytes,
        .gauge .slabBytes .slabBytes, .gauge .sockBytes .sockBytes,
        .gauge .anonThpBytes .anonThpBytes, .gauge .fileWritebackBytes .fileWritebackBytes,
        .gauge .fileDirtyBytes .fileDirtyBytes, .gauge .inactiveAnonBytes .inactiveAnonBytes,
        .gauge .activeAnonBytes .activeAnonBytes, .gauge .inactiveFileBytes .inactiveFileBytes,
        .gauge .activeFileBytes .activeFileBytes, .gauge .unevictableBytes .unevictableBytes,
        .counter .pgfault .pgfault, .counter .pgmajfault .pgmajfault]

/-- The metrics of a cgroup that a collection sets. -/
inductive MemoryMetric
  | stat (cgType : CgType) (metric : MemStat)
  | pressureLevel | usageInBytes | limitInBytes | failcnt | maxUsageInBytes
  | currentInBytes | maxInBytes
deriving DecidableEq

/-- A call to the metrics library, with the value as a `double`. -/
inductive MemoryOutput
  | gaugeSet (metric : MemoryMetric) (value : Nat)
  | counterAdd (metric : MemoryMetric) (value : Nat)
deriving DecidableEq

/-- What a collection finds where a file name leads to: the name may be missing, and opening
or reading may fail. -/
inductive SourceFile (α : Type)
  | noName
  | failed
  | read (content : α)

/-- Which of the three event descriptors have been signalled. -/
structure PressureEvents where
  critical : Bool
  medium : Bool
  low : Bool

/-- The files of a cgroup at the time of a collection, and its pressure events if it has all
three descriptors. -/
structure MemoryFiles where
  stat : SourceFile ProcFile
  pressure : Option PressureEvents := none
  usageInBytes : SourceFile UInt64 := .noName
  limitInBytes : SourceFile UInt64 := .noName
  failcnt : SourceFile UInt64 := .noName
  maxUsageInBytes : SourceFile UInt64 := .noName
  current : SourceFile UInt64 := .noName
  max : SourceFile CString := .noName

/-- The memory part of `struct xm_cgroup_obj`. -/
structure MemoryObj where
  arlBaseMemStat : ArlBase MemStat
  counters : MemStat → UInt64

/-- What a collection leaves: the static variables, the object, and the calls it made. -/
structure Collected where
  statics : MemStat → UInt64
  obj : MemoryObj
  outputs : List MemoryOutput

variable (cgType : CgType)

/-- `init_cgroup_obj_memory_metrics`, for a new object. -/
def initCgroupObjMemoryMetrics : MemoryObj where
  arlBaseMemStat := (memStatKeywords cgType).foldl
    (fun base keyword => arlExpect base keyword.1.toList (some keyword.2)) (arlCreate 60)
  counters := fun _ => 0

/-- `arl_callback_str2ull`. -/
def arlCallbackStr2ull (statics : MemStat → UInt64) (call : MemStat × CString) :
    MemStat → UInt64 :=
  Function.update statics call.1 (str2uint64 call.2)

/-- Export the variables and remember the counters. -/
def exportMemStat (statics counters : MemStat → UInt64) :
    List MemStatExport → (MemStat → UInt64) × List MemoryOutput
  | [] => (counters, [])
  | .gauge metric stat :: es =>
      let (counters, outputs) := exportMemStat statics counters es
      (counters, .gaugeSet (.stat cgType metric) (doubleOfUInt64 (statics stat)) :: outputs)
  | .counter metric stat :: es =>
      let increment := statics stat - counters stat
      let (counters, outputs) :=
        exportMemStat statics (Function.update counters stat (statics stat)) es
      (counters, .counterAdd (.stat cgType metric) (doubleOfUInt64 increment) :: outputs)

/-- Read the lines of `memory.stat` and export. -/
def collectLines (statics : MemStat → UInt64) (obj : MemoryObj) (lines : ProcFile) :
    Collected :=
  let (base, calls) := arlScan (arlBegin obj.arlBaseMemStat) lines
  let statics := calls.foldl arlCallbackStr2ull statics
  let (counters, outputs) := exportMemStat cgType statics obj.counters (memStatExports cgType)
  { statics, obj := { arlBaseMemStat := base, counters }, outputs }

/-- The part of a collection that is about `memory.stat`. -/
def collectMemStat (statics : MemStat → UInt64) (obj : MemoryObj) :
    SourceFile ProcFile → Collected
  | .noName | .failed => { statics, obj, outputs := [] }
  | .read lines =>
      if lines.length < 1 then { statics, obj, outputs := [] }
      else collectLines cgType statics obj lines

/-- The gauge of a file with one number. -/
def fileGauge (metric : MemoryMetric) : SourceFile UInt64 → List MemoryOutput
  | .noName | .failed => []
  | .read value => [.gaugeSet metric (doubleOfUInt64 value)]

def pressureGauge : Option PressureEvents → List MemoryOutput
  | none => []
  | some events =>
      let memPressure :=
        if events.critical then 7 else if events.medium then 3 else if events.low then 1 else 0
      [.gaugeSet .pressureLevel memPressure]

/-- `__collect_cgroup_v1_memory_metrics`, which returns when `memory.stat` cannot be read. -/
def collectCgroupV1MemoryMetrics (statics : MemStat → UInt64) (obj : MemoryObj)
    (files : MemoryFiles) : Collected :=
  let collected := collectMemStat .v1 statics obj files.stat
  let rest :=
    match files.stat with
    | .failed => []
    | .noName | .read _ =>
        fileGauge .usageInBytes files.usageInBytes ++
          fileGauge .limitInBytes files.limitInBytes ++
          fileGauge .failcnt files.failcnt ++
          fileGauge .maxUsageInBytes files.maxUsageInBytes
  { collected with outputs := pressureGauge files.pressure ++ collected.outputs ++ rest }

/-- `memory.max`, where the word `max` stands for no limit and is exported as zero. -/
def maxBytes (line : CString) : UInt64 :=
  if line.take 3 = "max".toList then 0 else str2uint64 line

/-- `__collect_cgroup_v2_memory_metrics`, which returns when one of the first two files
cannot be read. -/
def collectCgroupV2MemoryMetrics (statics : MemStat → UInt64) (obj : MemoryObj)
    (files : MemoryFiles) : Collected :=
  match files.current with
  | .failed => { statics, obj, outputs := [] }
  | .noName | .read _ =>
      let currentGauge := fileGauge .currentInBytes files.current
      match files.max with
      | .failed => { statics, obj, outputs := currentGauge }
      | .noName =>
          let collected := collectMemStat .v2 statics obj files.stat
          { collected with outputs := currentGauge ++ collected.outputs }
      | .read line =>
          let collected := collectMemStat .v2 statics obj files.stat
          let maxGauge := .gaugeSet .maxInBytes (doubleOfUInt64 (maxBytes line))
          { collected with outputs := currentGauge ++ [maxGauge] ++ collected.outputs }

/-- `collect_cgroup_obj_memory_metrics`. -/
def collectCgroupObjMemoryMetrics (statics : MemStat → UInt64) (obj : MemoryObj)
    (files : MemoryFiles) : Collected :=
  match cgType with
  | .v1 => collectCgroupV1MemoryMetrics statics obj files
  | .v2 => collectCgroupV2MemoryMetrics statics obj files

/-! ## What a collection depends on -/

/-- The lines of a file that has some. -/
def readableLines : SourceFile ProcFile → Option ProcFile
  | .noName | .failed => none
  | .read lines => if lines.length < 1 then none else some lines

/-- The lines of `memory.stat` that a collection gets to read and export. -/
def MemoryFiles.statLines (files : MemoryFiles) : Option ProcFile :=
  match cgType, files.current, files.max with
  | .v1, _, _ => readableLines files.stat
  | .v2, .failed, _ => none
  | .v2, _, .failed => none
  | .v2, _, _ => readableLines files.stat

/-- The variables that a collection writes when it reads lines. -/
def writtenStats (base : ArlBase MemStat) (lines : ProcFile) : List MemStat :=
  (arlScan (arlBegin base) lines).2.map Prod.fst

variable {cgType}

theorem collectLines_statics (statics : MemStat → UInt64) (obj : MemoryObj) (lines : ProcFile) :
    (collectLines cgType statics obj lines).statics =
      (arlScan (arlBegin obj.arlBaseMemStat) lines).2.foldl arlCallbackStr2ull statics := rfl

theorem collectMemStat_of_none {file : SourceFile ProcFile} (h : readableLines file = none)
    (statics : MemStat → UInt64) (obj : MemoryObj) :
    collectMemStat cgType statics obj file = ⟨statics, obj, []⟩ := by
  cases file with
  | noName => rfl
  | failed => rfl
  | read lines =>
      have hempty : lines.length < 1 := by
        by_contra hlines
        rw [readableLines, if_neg hlines] at h
        exact nomatch h
      rw [collectMemStat, if_pos hempty]

theorem collectMemStat_of_some {file : SourceFile ProcFile} {lines : ProcFile}
    (h : readableLines file = some lines) (statics : MemStat → UInt64) (obj : MemoryObj) :
    collectMemStat cgType statics obj file = collectLines cgType statics obj lines := by
  cases file with
  | noName => exact nomatch h
  | failed => exact nomatch h
  | read content =>
      rw [readableLines] at h
      rw [collectMemStat]
      split at h
      · exact nomatch h
      · rename_i hlines
        rw [if_neg hlines, Option.some.inj h]

/-- A collection returns early, or makes calls that only depend on its files before and
after those for `memory.stat`. -/
theorem collect_cases (cgType : CgType) (files : MemoryFiles) :
    (files.statLines cgType = none ∧ ∃ outputs, ∀ statics obj,
      collectCgroupObjMemoryMetrics cgType statics obj files = ⟨statics, obj, outputs⟩) ∨
    (files.statLines cgType = readableLines files.stat ∧ ∃ before after, ∀ statics obj,
      collectCgroupObjMemoryMetrics cgType statics obj files =
        { collectMemStat cgType statics obj files.stat with
          outputs :=
            before ++ (collectMemStat cgType statics obj files.stat).outputs ++ after }) := by
  obtain ⟨stat, pressure, _, _, _, _, current, max⟩ := files
  cases cgType with
  | v1 => exact .inr ⟨rfl, pressureGauge pressure, _, fun _ _ => rfl⟩
  | v2 =>
      cases current with
      | failed => exact .inl ⟨rfl, [], fun _ _ => rfl⟩
      | noName =>
          cases max with
          | failed => exact .inl ⟨rfl, _, fun _ _ => rfl⟩
          | noName =>
              refine .inr ⟨rfl, [], [], fun _ _ => ?_⟩
              rw [List.append_nil]
              rfl
          | read line =>
              refine .inr ⟨rfl, [.gaugeSet .maxInBytes (doubleOfUInt64 (maxBytes line))], [],
                fun _ _ => ?_⟩
              rw [List.append_nil]
              rfl
      | read value =>
          cases max with
          | failed => exact .inl ⟨rfl, _, fun _ _ => rfl⟩
          | noName =>
              refine .inr ⟨rfl, fileGauge .currentInBytes (.read value), [], fun _ _ => ?_⟩
              rw [List.append_nil]
              rfl
          | read line =>
              refine .inr ⟨rfl, fileGauge .currentInBytes (.read value) ++
                [.gaugeSet .maxInBytes (doubleOfUInt64 (maxBytes line))], [], fun _ _ => ?_⟩
              rw [List.append_nil]
              rfl

/-- A collection that does not get to the lines only depends on its files. -/
theorem collect_of_statLines_none {files : MemoryFiles} (h : files.statLines cgType = none) :
    ∃ outputs, ∀ statics obj,
      collectCgroupObjMemoryMetrics cgType statics obj files = ⟨statics, obj, outputs⟩ := by
  obtain ⟨-, hearly⟩ | ⟨hlines, before, after, hcollect⟩ := collect_cases cgType files
  · exact hearly
  · refine ⟨before ++ after, fun statics obj => ?_⟩
    rw [hcollect, collectMemStat_of_none (hlines.symm.trans h), List.append_nil]

/-- A collection that gets to the lines makes the calls for them among calls that only
depend on its files. -/
theorem collect_of_statLines_some {files : MemoryFiles} {lines : ProcFile}
    (h : files.statLines cgType = some lines) :
    ∃ before after, ∀ statics obj,
      (collectCgroupObjMemoryMetrics cgType statics obj files).statics =
          (collectLines cgType statics obj lines).statics ∧
        (collectCgroupObjMemoryMetrics cgType statics obj files).obj =
          (collectLines cgType statics obj lines).obj ∧
        (collectCgroupObjMemoryMetrics cgType statics obj files).outputs =
          before ++ (collectLines cgType statics obj lines).outputs ++ after := by
  obtain ⟨hnone, -⟩ | ⟨hlines, before, after, hcollect⟩ := collect_cases cgType files
  · rw [hnone] at h
    exact nomatch h
  · refine ⟨before, after, fun statics obj => ?_⟩
    rw [hcollect, collectMemStat_of_some (hlines.symm.trans h)]
    exact ⟨rfl, rfl, rfl⟩

/-! ## The keyword lists -/

/-- The keywords of a version, as they are compared with the words of a file. -/
def expectedKeywords (cgType : CgType) : List (CString × MemStat) :=
  (memStatKeywords cgType).map fun keyword => (keyword.1.toList, keyword.2)

theorem nodup_memStatKeywords (cgType : CgType) :
    ((memStatKeywords cgType).map Prod.fst).Nodup := by
  cases cgType with
  | v1 => simp [memStatKeywords]
  | v2 => simp [memStatKeywords]

theorem nodup_expectedKeywords (cgType : CgType) :
    ((expectedKeywords cgType).map Prod.fst).Nodup := by
  rw [expectedKeywords, List.map_map]
  change ((memStatKeywords cgType).map (String.toList ∘ Prod.fst)).Nodup
  rw [← List.map_map]
  exact (nodup_memStatKeywords cgType).map fun _ _ h => String.toList_inj.mp h

/-- Every variable that is exported has a keyword. -/
theorem exists_keyword {cgType : CgType} {stat : MemStat}
    (h : stat ∈ (memStatExports cgType).map MemStatExport.source) :
    ∃ keyword, (keyword, stat) ∈ expectedKeywords cgType := by
  have hall : ∀ stat ∈ (memStatExports cgType).map MemStatExport.source,
      stat ∈ (expectedKeywords cgType).map Prod.snd := by
    cases cgType with
    | v1 => decide
    | v2 => decide
  obtain ⟨⟨keyword, _⟩, hmem, rfl⟩ := List.mem_map.mp (hall stat h)
  exact ⟨keyword, hmem⟩

/-- A new object expects the keywords of its version. -/
theorem initCgroupObjMemoryMetrics_expects (cgType : CgType) :
    (initCgroupObjMemoryMetrics cgType).arlBaseMemStat.Expects (expectedKeywords cgType) := by
  have h := (arlCreate_expects (δ := MemStat) 60).foldl_arlExpect
    (nodup_expectedKeywords cgType) fun _ _ => List.not_mem_nil
  rw [List.append_nil, expectedKeywords, List.foldl_map] at h
  exact h

/-- The keyword list of an object keeps its keywords. -/
theorem collect_expects {files : MemoryFiles} {statics : MemStat → UInt64} {obj : MemoryObj}
    {keywords : List (CString × MemStat)} (h : obj.arlBaseMemStat.Expects keywords) :
    (collectCgroupObjMemoryMetrics cgType statics obj files).obj.arlBaseMemStat.Expects
      keywords := by
  cases hlines : files.statLines cgType with
  | none =>
      obtain ⟨outputs, hcollect⟩ := collect_of_statLines_none hlines
      rw [hcollect]
      exact h
  | some lines =>
      obtain ⟨before, after, hcollect⟩ := collect_of_statLines_some hlines
      obtain ⟨-, hobj, -⟩ := hcollect statics obj
      rw [hobj]
      exact h.arlBegin.arlScan lines

end XMonitor.Cgroups
