import Mathlib.Data.List.Induction
import XMonitor.Utils.ArlComplete

/-!
# The gauges of `/proc/meminfo`

A collection reads the lines of the file into variables, as its keyword list directs, and sets a
gauge for most of them and for four differences. The kernel counts reserved huge pages as free
ones; the gauge of used huge pages subtracts both numbers.

The numbers are words of 64 bits. A gauge gets them as `double`, which keeps their order.
-/

namespace XMonitor.Meminfo

/-- The static variables that keywords of the file are read into. -/
inductive MeminfoVar
  | memTotal | memFree | memAvailable | buffers | cached | swapCached | active | inactive
  | activeAnon | inactiveAnon | activeFile | inactiveFile | unevictable | mlocked | swapTotal
  | swapFree | dirty | writeback | anonPages | mapped | shmem | slab | slabReclaimble
  | slabUnreclaim | kernelStack | pageTables | nfsUnstable | bounce | writebackTmp | commitLimit
  | committedAs | vmallocTotal | vmallocUsed | vmallocChunk | memPercpu | hardwareCorrupted
  | anonHugePages | shmemHugePages | hugePagesTotal | hugePagesFree | hugePagesRsvd
  | hugePagesSurp
deriving DecidableEq

/-- The keywords that `init_collector_proc_meminfo` expects, with their variables. -/
def meminfoKeywords : List (String × MeminfoVar) :=
  [("MemTotal", .memTotal), ("MemFree", .memFree), ("MemAvailable", .memAvailable),
    ("Buffers", .buffers), ("Cached", .cached), ("SwapCached", .swapCached),
    ("Active", .active), ("Inactive", .inactive), ("Active(anon)", .activeAnon),
    ("Inactive(anon)", .inactiveAnon), ("Active(file)", .activeFile),
    ("Inactive(file)", .inactiveFile), ("Unevictable", .unevictable), ("Mlocked", .mlocked),
    ("SwapTotal", .swapTotal), ("SwapFree", .swapFree), ("Dirty", .dirty),
    ("Writeback", .writeback), ("AnonPages", .anonPages), ("Mapped", .mapped),
    ("Shmem", .shmem), ("Slab", .slab), ("SReclaimable", .slabReclaimble),
    ("SUnreclaim", .slabUnreclaim), ("KernelStack", .kernelStack), ("PageTables", .pageTables),
    ("NFS_Unstable", .nfsUnstable), ("Bounce", .bounce), ("WritebackTmp", .writebackTmp),
    ("CommitLimit", .commitLimit), ("Committed_AS", .committedAs),
    ("VmallocTotal", .vmallocTotal), ("VmallocUsed", .vmallocUsed),
    ("VmallocChunk", .vmallocChunk), ("Percpu", .memPercpu),
    ("HardwareCorrupted", .hardwareCorrupted), ("AnonHugePages", .anonHugePages),
    ("ShmemHugePages", .shmemHugePages), ("HugePages_Total", .hugePagesTotal),
    ("HugePages_Free", .hugePagesFree), ("HugePages_Rsvd", .hugePagesRsvd),
    ("HugePages_Surp", .hugePagesSurp)]

def expectedKeywords : List (CString × MeminfoVar) :=
  meminfoKeywords.map fun keyword => (keyword.1.toList, keyword.2)

/-- The gauges: those of a variable, and the four that are computed. -/
inductive MeminfoMetric
  | of (var : MeminfoVar)
  | memused
  | memcached
  | swapused
  | hugepagesused
deriving DecidableEq

/-- A call of `prom_gauge_set`. -/
abbrev GaugeSet := MeminfoMetric × UInt64

/-- What a collection sets, from the variables. -/
def exportMeminfo (vars : MeminfoVar → UInt64) : List GaugeSet :=
  let shown (var : MeminfoVar) : GaugeSet := (.of var, vars var)
  let memCached := vars .cached + vars .slabReclaimble - vars .shmem
  let memUsed := vars .memTotal - vars .memFree - memCached - vars .buffers
  let swapUsed := vars .swapTotal - vars .swapFree
  let hugePagesUsed := vars .hugePagesTotal - vars .hugePagesFree - vars .hugePagesRsvd
  [shown .memTotal, shown .memFree, (.memused, memUsed), (.memcached, memCached),
    shown .buffers, shown .memAvailable, shown .active, shown .inactive, shown .activeAnon,
    shown .inactiveAnon, shown .activeFile, shown .inactiveFile, shown .unevictable,
    shown .mlocked, shown .anonPages, shown .mapped, shown .shmem, shown .swapTotal,
    (.swapused, swapUsed), shown .swapFree, shown .hardwareCorrupted, shown .commitLimit,
    shown .committedAs, shown .dirty, shown .writeback, shown .writebackTmp,
    shown .nfsUnstable, shown .bounce, shown .slab, shown .kernelStack, shown .pageTables,
    shown .vmallocUsed, shown .memPercpu, shown .slabReclaimble, shown .slabUnreclaim,
    (.hugepagesused, hugePagesUsed), shown .hugePagesFree, shown .hugePagesRsvd,
    shown .hugePagesSurp, shown .anonHugePages, shown .shmemHugePages]

/-- The keyword list and the variables, which a collection leaves to the next one. -/
structure State where
  arlBase : ArlBase MeminfoVar
  vars : MeminfoVar → UInt64

def initCollectorProcMeminfo : State where
  arlBase := arlExpectAll 3 expectedKeywords
  vars := fun _ => 0

/-- `arl_callback_str2ull`. -/
def arlCallbackStr2ull (vars : MeminfoVar → UInt64) (call : MeminfoVar × CString) :
    MeminfoVar → UInt64 :=
  Function.update vars call.1 (str2uint64 call.2)

/-- `collector_proc_meminfo`, with what `procfile_readall` finds: the lines of the file, cut at
blanks, tabs and colons, or nothing if it fails. -/
def collectorProcMeminfo (s : State) : Option ProcFile → State × List GaugeSet
  | none => (s, [])
  | some lines =>
      let (arlBase, calls) := arlScan (arlBegin s.arlBase) lines
      let vars := calls.foldl arlCallbackStr2ull s.vars
      ({ arlBase, vars }, exportMeminfo vars)

/-- The state after some collections. -/
def run (files : List (Option ProcFile)) : State :=
  files.foldl (fun s lines => (collectorProcMeminfo s lines).1) initCollectorProcMeminfo

/-- The value of the key of a variable in a file. -/
def value (lines : ProcFile) (var : MeminfoVar) : UInt64 :=
  sourceValue expectedKeywords (sourcePairs lines) var

/-- All expected keys are in a file, each of them once. -/
def HasKeysOnce (lines : ProcFile) : Prop := Once expectedKeywords (sourcePairs lines)

instance : DecidablePred HasKeysOnce := fun lines =>
  inferInstanceAs (Decidable (∀ keyword ∈ expectedKeywords.map Prod.fst,
    ((sourcePairs lines).map Prod.fst).count keyword = 1))

/-- What the accounting of the kernel says of the numbers. -/
structure Accounted (vars : MeminfoVar → UInt64) : Prop where
  shmem : vars .shmem ≤ vars .cached
  mem : (vars .memFree).toNat + (vars .buffers).toNat + (vars .cached).toNat +
    (vars .slabReclaimble).toNat ≤ (vars .memTotal).toNat + (vars .shmem).toNat
  swap : vars .swapFree ≤ vars .swapTotal
  hugeFree : vars .hugePagesFree ≤ vars .hugePagesTotal
  hugeRsvd : vars .hugePagesRsvd ≤ vars .hugePagesFree

/-- The computed gauges, with the number that each is a part of. -/
def derivedGauges : List (MeminfoMetric × MeminfoVar) :=
  [(.memused, .memTotal), (.memcached, .memTotal), (.swapused, .swapTotal),
    (.hugepagesused, .hugePagesTotal)]

/-- Every computed gauge is set once, to a part of its number. -/
def Bounded (vars : MeminfoVar → UInt64) (sets : List GaugeSet) : Prop :=
  ∀ gauge ∈ derivedGauges, ∃ part, (sets.filter fun set => set.1 = gauge.1) = [(gauge.1, part)] ∧
    part ≤ vars gauge.2

/-! ## The differences -/

variable {vars : MeminfoVar → UInt64}

theorem toNat_sub_sub {a b c : UInt64} (h : b.toNat + c.toNat ≤ a.toNat) :
    (a - b - c).toNat = a.toNat - b.toNat - c.toNat := by
  have hb : b ≤ a := UInt64.le_iff_toNat_le.mpr (by omega)
  have hab := UInt64.toNat_sub_of_le _ _ hb
  have hc : c ≤ a - b := UInt64.le_iff_toNat_le.mpr (by omega)
  rw [UInt64.toNat_sub_of_le _ _ hc, hab]

/-- The page cache without shared memory, with the slabs that can be reclaimed. -/
theorem Accounted.toNat_memCached (h : Accounted vars) :
    (vars .cached + vars .slabReclaimble - vars .shmem).toNat =
      (vars .cached).toNat + (vars .slabReclaimble).toNat - (vars .shmem).toNat := by
  have hshmem := UInt64.le_iff_toNat_le.mp h.shmem
  have hmem := h.mem
  have htotal := (vars .memTotal).toNat_lt
  have hcached := (vars .cached).toNat_lt
  rw [UInt64.toNat_sub, UInt64.toNat_add]
  omega

theorem Accounted.memCached_le (h : Accounted vars) :
    vars .cached + vars .slabReclaimble - vars .shmem ≤ vars .memTotal := by
  have hmem := h.mem
  rw [UInt64.le_iff_toNat_le, h.toNat_memCached]
  omega

theorem Accounted.memUsed_le (h : Accounted vars) :
    vars .memTotal - vars .memFree - (vars .cached + vars .slabReclaimble - vars .shmem) -
      vars .buffers ≤ vars .memTotal := by
  have hmem := h.mem
  have hcached := h.toNat_memCached
  generalize vars .cached + vars .slabReclaimble - vars .shmem = memCached at hcached ⊢
  have hfree : (vars .memFree).toNat + memCached.toNat ≤ (vars .memTotal).toNat := by
    have hshmem := UInt64.le_iff_toNat_le.mp h.shmem
    omega
  have hrest := toNat_sub_sub hfree
  have hbuffers : vars .buffers ≤ vars .memTotal - vars .memFree - memCached := by
    have hshmem := UInt64.le_iff_toNat_le.mp h.shmem
    rw [UInt64.le_iff_toNat_le, hrest]
    omega
  rw [UInt64.le_iff_toNat_le, UInt64.toNat_sub_of_le _ _ hbuffers, hrest]
  omega

theorem Accounted.swapUsed_le (h : Accounted vars) :
    vars .swapTotal - vars .swapFree ≤ vars .swapTotal := by
  rw [UInt64.le_iff_toNat_le, UInt64.toNat_sub_of_le _ _ h.swap]
  exact Nat.sub_le _ _

/-- Subtracting the reserved pages too stays in range, or goes around the words exactly. -/
theorem Accounted.hugePagesUsed_le_iff (h : Accounted vars) :
    vars .hugePagesTotal - vars .hugePagesFree - vars .hugePagesRsvd ≤ vars .hugePagesTotal ↔
      (vars .hugePagesFree).toNat + (vars .hugePagesRsvd).toNat ≤ (vars .hugePagesTotal).toNat ∨
        2 ^ 64 ≤ (vars .hugePagesFree).toNat + (vars .hugePagesRsvd).toNat := by
  have hfree := UInt64.toNat_sub_of_le _ _ h.hugeFree
  have hfreeLe := UInt64.le_iff_toNat_le.mp h.hugeFree
  have hrsvdLe := UInt64.le_iff_toNat_le.mp h.hugeRsvd
  have htotal := (vars .hugePagesTotal).toNat_lt
  rw [UInt64.le_iff_toNat_le, UInt64.toNat_sub, hfree]
  omega

/-- Only the gauge of the used huge pages can be too large. -/
theorem bounded_exportMeminfo_iff (h : Accounted vars) :
    Bounded vars (exportMeminfo vars) ↔
      (vars .hugePagesFree).toNat + (vars .hugePagesRsvd).toNat ≤ (vars .hugePagesTotal).toNat ∨
        2 ^ 64 ≤ (vars .hugePagesFree).toNat + (vars .hugePagesRsvd).toNat := by
  rw [← h.hugePagesUsed_le_iff, Bounded]
  simp only [derivedGauges, List.forall_mem_cons]
  constructor
  · rintro ⟨-, -, -, ⟨part, hset, hle⟩, -⟩
    obtain ⟨-, rfl⟩ := Prod.mk.inj (List.singleton_inj.mp hset)
    exact hle
  · intro hle
    exact ⟨⟨_, rfl, h.memUsed_le⟩, ⟨_, rfl, h.memCached_le⟩, ⟨_, rfl, h.swapUsed_le⟩,
      ⟨_, rfl, hle⟩, List.forall_mem_nil _⟩

/-! ## Collections -/

theorem nodup_expectedKeywords : (expectedKeywords.map Prod.fst).Nodup := by
  have hstrings : (meminfoKeywords.map Prod.fst).Nodup := by simp [meminfoKeywords]
  rw [expectedKeywords, List.map_map]
  change (meminfoKeywords.map (String.toList ∘ Prod.fst)).Nodup
  rw [← List.map_map]
  exact hstrings.map fun _ _ h => String.toList_inj.mp h

/-- Every variable has a keyword. -/
theorem mem_expectedKeywords (var : MeminfoVar) : var ∈ expectedKeywords.map Prod.snd := by
  cases var <;> decide

/-- A collection of a file with all keys, after others of that kind. -/
theorem collectorProcMeminfo_of_once {s : State} (hs : s.arlBase.Settled expectedKeywords)
    {lines : ProcFile} (honce : HasKeysOnce lines) :
    (collectorProcMeminfo s (some lines)).1.arlBase.Settled expectedKeywords ∧
      (collectorProcMeminfo s (some lines)).2 = exportMeminfo (value lines) := by
  obtain ⟨hsettled, hcalls⟩ := hs.read_once (by decide) nodup_expectedKeywords honce
  rw [← arlScan_eq_arlRead] at hsettled hcalls
  refine ⟨hsettled, ?_⟩
  have hvars : (arlScan (arlBegin s.arlBase) lines).2.foldl arlCallbackStr2ull s.vars =
      value lines := by
    funext var
    rw [hcalls]
    exact honce.stored_sourceValue nodup_expectedKeywords (by decide) (mem_expectedKeywords var) _
  exact congrArg exportMeminfo hvars

theorem settled_run {files : List (Option ProcFile)}
    (honce : ∀ lines, some lines ∈ files → HasKeysOnce lines) :
    (run files).arlBase.Settled expectedKeywords := by
  induction files using List.reverseRecOn with
  | nil => exact arlExpectAll_settled 3 nodup_expectedKeywords
  | append_singleton files file ih =>
      have hsettled := ih fun lines hmem => honce lines (List.mem_append_left _ hmem)
      rw [run, List.foldl_append]
      cases file with
      | none => exact hsettled
      | some lines =>
          have hlast := honce lines (List.mem_append_right _ (List.mem_singleton_self _))
          exact (collectorProcMeminfo_of_once hsettled hlast).1

/-- In every run of collections of files with all keys, the computed gauges are parts of their
numbers exactly if the free and the reserved huge pages together are not more than all, or are at
least `2 ^ 64`. -/
theorem gauges_bounded_iff {past : List (Option ProcFile)} {lines : ProcFile}
    (hpast : ∀ lines, some lines ∈ past → HasKeysOnce lines) (honce : HasKeysOnce lines)
    (h : Accounted (value lines)) :
    Bounded (value lines) (collectorProcMeminfo (run past) (some lines)).2 ↔
      (value lines .hugePagesFree).toNat + (value lines .hugePagesRsvd).toNat ≤
          (value lines .hugePagesTotal).toNat ∨
        2 ^ 64 ≤ (value lines .hugePagesFree).toNat + (value lines .hugePagesRsvd).toNat := by
  rw [(collectorProcMeminfo_of_once (settled_run hpast) honce).2]
  exact bounded_exportMeminfo_iff h

/-! ## Files -/

/-- The lines of a file with some numbers. -/
def linesOf (numbers : MeminfoVar → Nat) : ProcFile :=
  expectedKeywords.map fun keyword =>
    [keyword.1, Nat.toDigits 10 (numbers keyword.2), ['k', 'B']]

theorem sourcePairs_linesOf (numbers : MeminfoVar → Nat) :
    sourcePairs (linesOf numbers) =
      expectedKeywords.map fun keyword => (keyword.1, Nat.toDigits 10 (numbers keyword.2)) := by
  have hlong : ∀ line ∈ linesOf numbers, decide (2 ≤ line.length) = true := by
    intro line hline
    obtain ⟨keyword, -, rfl⟩ := List.mem_map.mp hline
    rfl
  rw [sourcePairs, List.filter_eq_self.mpr hlong, linesOf, List.map_map]
  rfl

theorem hasKeysOnce_linesOf (numbers : MeminfoVar → Nat) : HasKeysOnce (linesOf numbers) := by
  intro keyword hkeyword
  rw [sourcePairs_linesOf, List.map_map]
  exact List.count_eq_one_of_mem nodup_expectedKeywords hkeyword

theorem value_linesOf (numbers : MeminfoVar → Nat) (var : MeminfoVar) :
    value (linesOf numbers) var = .ofNat (numbers var) := by
  obtain ⟨⟨keyword, _⟩, hkeyword, rfl⟩ := List.mem_map.mp (mem_expectedKeywords var)
  rw [← str2uint64_toDigits]
  refine (hasKeysOnce_linesOf numbers).sourceValue_eq nodup_expectedKeywords (by decide) hkeyword ?_
  rw [sourcePairs_linesOf]
  exact List.mem_map_of_mem hkeyword

/-- The numbers of 10 huge pages, some of them free and some of these reserved. -/
def hugePages (free rsvd : Nat) : MeminfoVar → Nat
  | .memTotal => 8000
  | .memFree => 3000
  | .cached => 900
  | .shmem => 100
  | .hugePagesTotal => 10
  | .hugePagesFree => free
  | .hugePagesRsvd => rsvd
  | _ => 0

theorem accounted_someFree : Accounted (value (linesOf (hugePages 4 0))) := by
  rw [funext (value_linesOf _)]
  exact ⟨by decide, by decide, by decide, by decide, by decide⟩

theorem someFree_bounded :
    Bounded (value (linesOf (hugePages 4 0)))
      (collectorProcMeminfo (run [some (linesOf (hugePages 4 0))])
        (some (linesOf (hugePages 4 0)))).2 := by
  have honce := hasKeysOnce_linesOf (hugePages 4 0)
  refine (gauges_bounded_iff (fun lines hmem => ?_) honce accounted_someFree).mpr (.inl ?_)
  · obtain rfl := Option.some.inj (List.mem_singleton.mp hmem)
    exact honce
  · simp only [value_linesOf]
    decide

/-- All huge pages are free, and one of them is reserved. -/
theorem reserved_page_wraps : ¬ ∀ past lines,
    (∀ lines, some lines ∈ past → HasKeysOnce lines) → HasKeysOnce lines →
    Accounted (value lines) →
    Bounded (value lines) (collectorProcMeminfo (run past) (some lines)).2 := by
  intro h
  have honce := hasKeysOnce_linesOf (hugePages 10 1)
  have hnone : ∀ lines, some lines ∈ ([] : List (Option ProcFile)) → HasKeysOnce lines :=
    fun _ hmem => absurd hmem List.not_mem_nil
  have haccounted : Accounted (value (linesOf (hugePages 10 1))) := by
    rw [funext (value_linesOf _)]
    exact ⟨by decide, by decide, by decide, by decide, by decide⟩
  have hbounded := h [] _ hnone honce haccounted
  rw [(collectorProcMeminfo_of_once (settled_run hnone) honce).2,
    bounded_exportMeminfo_iff haccounted] at hbounded
  simp only [value_linesOf] at hbounded
  exact absurd hbounded (by decide)

end XMonitor.Meminfo
