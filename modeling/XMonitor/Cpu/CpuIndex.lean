import Mathlib.Data.Fintype.Card
import XMonitor.Utils.Strings

/-!
# Indices of CPUs

At start-up `get_cpu_cores_num` counts the lines of `/proc/stat` that are about a CPU,
and the per-CPU arrays get that many elements. The collectors later index them with the
numbers that stand in the names of the CPUs, in `/proc/stat` and in `/proc/schedstat`.

The two files list the CPUs that are online when they are read. So the indices are in
range for every later set of online CPUs exactly if all CPUs that can ever be online were
so at start-up, and these are numbered without a gap.
-/

namespace XMonitor.Cpu

/-- A CPU, as the kernel numbers them. -/
abbrev CpuId := Fin (2 ^ 31)

/-- The mark of the lines about CPUs. -/
def cpuMark : CString := "cpu".toList

/-- The name of a CPU in the files. -/
def cpuName (cpu : CpuId) : CString := cpuMark ++ Nat.toDigits 10 cpu

/-! ## The source -/

/-- The loop of `get_cpu_cores_num`. -/
def countCpuLines (cpuCoresNum : UInt32) : ProcFile → UInt32
  | [] => cpuCoresNum
  | line :: file =>
      if line.length = 0 then countCpuLines cpuCoresNum file
      else if cpuMark <+: lineword line 0 then countCpuLines (cpuCoresNum + 1) file
      else countCpuLines cpuCoresNum file

/-- `get_cpu_cores_num`, from the value it had; `none` if the file cannot be read. -/
def getCpuCoresNum (cpuCoresNum : UInt32) (stat : Option ProcFile) : UInt32 :=
  if 1 < cpuCoresNum then cpuCoresNum
  else
    match stat with
    | none => cpuCoresNum
    | some file =>
        let cpuCoresNum := countCpuLines 0 file - 1
        if cpuCoresNum < 1 then 1 else cpuCoresNum

/-- The index into `core_rdsets` that `collector_proc_stat` uses for a line. -/
def statIndex (line : List CString) : Option UInt32 :=
  let rowName := lineword line 0
  if cpuMark <+: rowName then
    if line.length < 10 then none
    else if rowName.length = 3 then none
    else some (str2uint32 (rowName.drop 3))
  else none

/-- All indices that `collector_proc_stat` uses. -/
def procStatIndices (file : ProcFile) : List UInt32 := file.filterMap statIndex

/-- The index into `schedstats` that `collector_proc_schedstat` uses for a line. -/
def schedstatIndex (line : List CString) : Option UInt32 :=
  let rowKey := lineword line 0
  if cpuMark <+: rowKey then
    if line.length < 10 then none else some (str2uint32 (rowKey.drop 3))
  else none

/-- All indices that `collector_proc_schedstat` uses. The last line is not read. -/
def procSchedstatIndices (file : ProcFile) : List UInt32 := file.dropLast.filterMap schedstatIndex

/-! ## The files of the kernel -/

/-- The first words of the lines about CPUs. -/
def cpuNames (file : ProcFile) : List CString :=
  (file.map fun line => lineword line 0).filter fun name => cpuMark <+: name

/-- `/proc/stat` while some CPUs are online: one line for all CPUs together and one for
each of them, with at least ten words. -/
structure IsStat (online : Finset CpuId) (file : ProcFile) : Prop where
  names : (cpuNames file : Multiset CString) = cpuMark ::ₘ online.val.map cpuName
  words : ∀ line ∈ file, cpuMark <+: lineword line 0 → 10 ≤ line.length

/-- `/proc/schedstat` while some CPUs are online. -/
structure IsSchedstat (online : Finset CpuId) (file : ProcFile) : Prop where
  names : (cpuNames file : Multiset CString) = online.val.map cpuName
  words : ∀ line ∈ file, cpuMark <+: lineword line 0 → 10 ≤ line.length

/-- The start-up of the program on a machine with some possible CPUs. The one that runs
the program is online. -/
structure Startup (possible : Finset CpuId) where
  online : Finset CpuId
  subset : online ⊆ possible
  nonempty : online.Nonempty
  stat : ProcFile
  isStat : IsStat online stat

/-- The length of the per-CPU arrays. -/
def Startup.cpuCoresNum {possible : Finset CpuId} (boot : Startup possible) : UInt32 :=
  getCpuCoresNum 1 (some boot.stat)

/-- A later round of the two collectors. CPUs may come and go between the two files. -/
structure CollectRound (possible : Finset CpuId) where
  statOnline : Finset CpuId
  stat_subset : statOnline ⊆ possible
  stat : ProcFile
  isStat : IsStat statOnline stat
  schedOnline : Finset CpuId
  sched_subset : schedOnline ⊆ possible
  schedstat : ProcFile
  isSchedstat : IsSchedstat schedOnline schedstat

def CollectRound.indices {possible : Finset CpuId} (round : CollectRound possible) :
    List UInt32 :=
  procStatIndices round.stat ++ procSchedstatIndices round.schedstat

/-- No round of any later history uses an index beyond the arrays. -/
def Startup.IndicesInRange {possible : Finset CpuId} (boot : Startup possible) : Prop :=
  ∀ history : List (CollectRound possible), ∀ round ∈ history, ∀ i ∈ round.indices,
    i < boot.cpuCoresNum

/-! ## Counting and indexing -/

theorem countCpuLines_eq (file : ProcFile) (n : UInt32) :
    countCpuLines n file = n + UInt32.ofNat (cpuNames file).length := by
  induction file generalizing n with
  | nil => simp [countCpuLines, cpuNames]
  | cons line file ih =>
      by_cases hmark : cpuMark <+: lineword line 0
      · have hlen : line.length ≠ 0 := by
          intro hlen
          rw [List.length_eq_zero_iff.mp hlen] at hmark
          exact absurd hmark (by decide)
        have hnames : (cpuNames (line :: file)).length = (cpuNames file).length + 1 := by
          simp [cpuNames, hmark]
        rw [countCpuLines, if_neg hlen, if_pos hmark, ih, hnames, UInt32.ofNat_add,
          UInt32.add_assoc, UInt32.add_comm 1]
        rfl
      · have hnames : cpuNames (line :: file) = cpuNames file := by
          simp [cpuNames, hmark]
        rw [countCpuLines, hnames, ih, if_neg hmark, ite_self]

/-- The arrays have an element for each CPU that is online at start-up. -/
theorem cpuCoresNum_toNat {possible : Finset CpuId} (boot : Startup possible) :
    boot.cpuCoresNum.toNat = boot.online.card := by
  have hlen : (cpuNames boot.stat).length = boot.online.card + 1 := by
    have hnames := congrArg Multiset.card boot.isStat.names
    simpa using hnames
  have hpos : 0 < boot.online.card := boot.nonempty.card_pos
  have hle : boot.online.card ≤ 2 ^ 31 := by
    have hcard := Finset.card_le_univ boot.online
    simpa using hcard
  have hcount : countCpuLines 0 boot.stat - 1 = UInt32.ofNat boot.online.card := by
    rw [countCpuLines_eq, hlen, UInt32.zero_add, UInt32.ofNat_add]
    exact UInt32.add_sub_cancel _ _
  have hnat : (UInt32.ofNat boot.online.card).toNat = boot.online.card := by
    rw [UInt32.toNat_ofNat', Nat.mod_eq_of_lt (by omega)]
  have hlarge : ¬ UInt32.ofNat boot.online.card < 1 := by
    rw [UInt32.lt_iff_toNat_lt, hnat]
    show ¬ boot.online.card < 1
    omega
  show (if countCpuLines 0 boot.stat - 1 < 1 then 1 else countCpuLines 0 boot.stat - 1).toNat = _
  rw [hcount, if_neg hlarge, hnat]

theorem drop_cpuName (cpu : CpuId) : (cpuName cpu).drop 3 = Nat.toDigits 10 cpu := rfl

theorem str2uint32_cpuName (cpu : CpuId) :
    str2uint32 ((cpuName cpu).drop 3) = UInt32.ofNat cpu := by
  rw [drop_cpuName, str2uint32_toDigits]

theorem length_cpuName_ne (cpu : CpuId) : (cpuName cpu).length ≠ 3 := by
  intro hlen
  have hdigits : (Nat.toDigits 10 cpu).length = 0 := by
    have happend : (cpuName cpu).length = 3 + (Nat.toDigits 10 cpu).length := List.length_append
    omega
  have hpos : 0 < (Nat.toDigits 10 (cpu : Nat)).length := Nat.length_toDigits_pos
  omega

theorem mem_cpuNames {file : ProcFile} {name : CString} :
    name ∈ cpuNames file ↔ cpuMark <+: name ∧ ∃ line ∈ file, lineword line 0 = name := by
  simp only [cpuNames, List.mem_filter, List.mem_map, decide_eq_true_eq]
  exact and_comm

theorem IsStat.mem_names {online : Finset CpuId} {file : ProcFile} (h : IsStat online file)
    {name : CString} :
    name ∈ cpuNames file ↔ name = cpuMark ∨ ∃ cpu ∈ online, cpuName cpu = name := by
  rw [← Multiset.mem_coe, h.names, Multiset.mem_cons, Multiset.mem_map]
  rfl

theorem IsSchedstat.mem_names {online : Finset CpuId} {file : ProcFile}
    (h : IsSchedstat online file) {name : CString} :
    name ∈ cpuNames file ↔ ∃ cpu ∈ online, cpuName cpu = name := by
  rw [← Multiset.mem_coe, h.names, Multiset.mem_map]
  rfl

/-- A round of `collector_proc_stat` uses the numbers of the CPUs that are online. -/
theorem mem_procStatIndices {online : Finset CpuId} {file : ProcFile} (h : IsStat online file)
    {i : UInt32} : i ∈ procStatIndices file ↔ ∃ cpu ∈ online, UInt32.ofNat cpu = i := by
  rw [procStatIndices, List.mem_filterMap]
  constructor
  · rintro ⟨line, hline, hindex⟩
    unfold statIndex at hindex
    simp only at hindex
    split_ifs at hindex with hmark hwords hlen
    obtain hall | ⟨cpu, hcpu, hname⟩ := h.mem_names.mp (mem_cpuNames.mpr ⟨hmark, line, hline, rfl⟩)
    · rw [hall] at hlen
      exact absurd rfl hlen
    · rw [← hname, str2uint32_cpuName] at hindex
      exact ⟨cpu, hcpu, Option.some.inj hindex⟩
  · rintro ⟨cpu, hcpu, rfl⟩
    obtain ⟨hmark, line, hline, hname⟩ := mem_cpuNames.mp (h.mem_names.mpr (.inr ⟨cpu, hcpu, rfl⟩))
    have hwords := h.words line hline (hname ▸ hmark)
    refine ⟨line, hline, ?_⟩
    rw [statIndex, hname, if_pos hmark, if_neg (by omega), if_neg (length_cpuName_ne cpu),
      str2uint32_cpuName]

/-- A round of `collector_proc_schedstat` uses numbers of CPUs that are online. -/
theorem mem_procSchedstatIndices {online : Finset CpuId} {file : ProcFile}
    (h : IsSchedstat online file) {i : UInt32} (hi : i ∈ procSchedstatIndices file) :
    ∃ cpu ∈ online, UInt32.ofNat cpu = i := by
  obtain ⟨line, hline, hindex⟩ := List.mem_filterMap.mp hi
  have hline := List.mem_of_mem_dropLast hline
  unfold schedstatIndex at hindex
  simp only at hindex
  split_ifs at hindex with hmark hwords
  obtain ⟨cpu, hcpu, hname⟩ := h.mem_names.mp (mem_cpuNames.mpr ⟨hmark, line, hline, rfl⟩)
  rw [← hname, str2uint32_cpuName] at hindex
  exact ⟨cpu, hcpu, Option.some.inj hindex⟩

/-! ## A round with given CPUs -/

/-- The line of a file about a CPU that has not been used yet. -/
def idleLine (name : CString) : List CString := name :: List.replicate 10 ['0']

/-- `/proc/stat` with idle CPUs. -/
def idleStat (online : List CpuId) : ProcFile :=
  idleLine cpuMark :: online.map fun cpu => idleLine (cpuName cpu)

theorem cpuNames_idleStat (cpus : List CpuId) :
    cpuNames (idleStat cpus) = cpuMark :: cpus.map cpuName := by
  have hnames : (idleStat cpus).map (fun line => lineword line 0) =
      cpuMark :: cpus.map cpuName := by
    simp only [idleStat, List.map_cons, List.map_map]
    rfl
  rw [cpuNames, hnames]
  apply List.filter_eq_self.mpr
  intro name hname
  apply decide_eq_true
  obtain rfl | hname := List.mem_cons.mp hname
  · exact List.prefix_rfl
  · obtain ⟨cpu, -, rfl⟩ := List.mem_map.mp hname
    exact List.prefix_append _ _

theorem isStat_idleStat {online : Finset CpuId} {cpus : List CpuId}
    (h : (cpus : Multiset CpuId) = online.val) : IsStat online (idleStat cpus) where
  names := by
    rw [cpuNames_idleStat, ← Multiset.cons_coe, ← h, Multiset.map_coe]
  words := by
    intro line hline _
    obtain rfl | hline := List.mem_cons.mp hline
    · exact Nat.le_succ 10
    · obtain ⟨cpu, -, rfl⟩ := List.mem_map.mp hline
      exact Nat.le_succ 10

/-- A round that finds the given CPUs in `/proc/stat` and none in `/proc/schedstat`. -/
def idleRound {possible : Finset CpuId} (online : Finset CpuId) (hsubset : online ⊆ possible)
    (cpus : List CpuId) (h : (cpus : Multiset CpuId) = online.val) : CollectRound possible where
  statOnline := online
  stat_subset := hsubset
  stat := idleStat cpus
  isStat := isStat_idleStat h
  schedOnline := ∅
  sched_subset := Finset.empty_subset possible
  schedstat := []
  isSchedstat := ⟨rfl, by simp⟩

theorem toNat_cpuId (cpu : CpuId) : (UInt32.ofNat cpu).toNat = cpu := by
  rw [UInt32.toNat_ofNat', Nat.mod_eq_of_lt (by omega)]

/-- Every index of a round is the number of a possible CPU. -/
theorem mem_indices {possible : Finset CpuId} {round : CollectRound possible} {i : UInt32}
    (h : i ∈ round.indices) : ∃ cpu ∈ possible, UInt32.ofNat cpu = i := by
  obtain h | h := List.mem_append.mp h
  · obtain ⟨cpu, hcpu, hi⟩ := (mem_procStatIndices round.isStat).mp h
    exact ⟨cpu, round.stat_subset hcpu, hi⟩
  · obtain ⟨cpu, hcpu, hi⟩ := mem_procSchedstatIndices round.isSchedstat h
    exact ⟨cpu, round.sched_subset hcpu, hi⟩

theorem lt_card_of_inRange {possible : Finset CpuId} {boot : Startup possible}
    (h : boot.IndicesInRange) {cpu : CpuId} (hcpu : cpu ∈ possible) : cpu < boot.online.card := by
  let round := idleRound possible (Finset.Subset.refl possible) possible.toList
    (Finset.coe_toList possible)
  have hmem : UInt32.ofNat cpu ∈ round.indices :=
    List.mem_append_left _ ((mem_procStatIndices round.isStat).mpr ⟨cpu, hcpu, rfl⟩)
  have hlt := h [round] round List.mem_cons_self _ hmem
  rw [UInt32.lt_iff_toNat_lt, toNat_cpuId, cpuCoresNum_toNat] at hlt
  exact hlt

/-- The indices are in range in every later history exactly if all possible CPUs are
online at start-up and have the numbers from zero to their count. -/
theorem indices_in_range_iff {possible : Finset CpuId} (boot : Startup possible) :
    boot.IndicesInRange ↔
      boot.online = possible ∧ ∀ cpu ∈ possible, (cpu : Nat) < possible.card := by
  constructor
  · intro h
    have hcard : possible.card ≤ (Finset.range boot.online.card).card := by
      apply Finset.card_le_card_of_injOn (fun cpu : CpuId => (cpu : Nat))
      · intro cpu hcpu
        exact Finset.mem_coe.mpr (Finset.mem_range.mpr (lt_card_of_inRange h hcpu))
      · intro cpu _ cpu' _ heq
        exact Fin.ext heq
    rw [Finset.card_range] at hcard
    have honline := Finset.eq_of_subset_of_card_le boot.subset hcard
    refine ⟨honline, fun cpu hcpu => ?_⟩
    rw [← honline]
    exact lt_card_of_inRange h hcpu
  · rintro ⟨honline, hrange⟩ history round _ i hi
    obtain ⟨cpu, hcpu, rfl⟩ := mem_indices hi
    rw [UInt32.lt_iff_toNat_lt, toNat_cpuId, cpuCoresNum_toNat, honline]
    exact hrange cpu hcpu

/-- A machine with four CPUs, of which the second is offline at start-up. -/
def secondOffline : Startup {0, 1, 2, 3} where
  online := {0, 2, 3}
  subset := by decide
  nonempty := ⟨0, by decide⟩
  stat := idleStat [0, 2, 3]
  isStat := isStat_idleStat rfl

/-- The arrays have three elements, and the fourth CPU has the index three. -/
theorem fourth_cpu_out_of_range : ¬ secondOffline.IndicesInRange := by
  intro h
  have hlt := h [idleRound {0, 2, 3} (by decide) [0, 2, 3] rfl] _ List.mem_cons_self 3 (by decide)
  exact absurd hlt (by decide)

end XMonitor.Cpu
