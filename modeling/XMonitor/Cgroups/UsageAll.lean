import XMonitor.Cgroups.CpuStat

/-!
# The usage of each CPU

`cpuacct.usage_all` has a header and a line for each possible CPU, and its lines are used as
indices into an array with an element for each CPU that was counted when the program started. A
collection asks that the file has at least one line more than there are elements. As the parser
counts one line behind the last newline, the array may have one element more than there are CPUs,
and then no line uses it. If there are more CPUs than elements, the lines of the others are used as
indices all the same.
-/

namespace XMonitor.Cgroups

open Procfile CpuCollect

/-- What the kernel has counted for a CPU. -/
structure CpuTimes where
  user : UInt64 := 0
  system : UInt64 := 0
deriving DecidableEq

/-- What is remembered for a CPU. -/
def CpuTimes.usage (times : CpuTimes) : UsagePerCpu where
  usageNs := times.user + times.system
  usageUserNs := times.user
  usageSystemNs := times.system

/-- The label of a CPU. -/
def cpuLabel (cpu : Nat) : CString := Nat.toDigits 10 cpu

theorem cpuLabel_injective : Function.Injective cpuLabel := by
  intro cpu cpu' h
  rw [← Nat.ofDigitChars_ten_toDigits (n := cpu), ← Nat.ofDigitChars_ten_toDigits (n := cpu')]
  exact congrArg (fun s => Nat.ofDigitChars 10 s 0) h

/-- The lines of the file, with the words in front of the last one. -/
def usageLines (cpus : List Nat) (times : Nat → CpuTimes) : List (List Separated × List UInt8) :=
  ([(ascii "cpu", 32), (ascii "user", 32)], ascii "system") ::
    cpus.map fun cpu => ([(decimal cpu, 32), (decimal (times cpu).user.toNat, 32)],
      decimal (times cpu).system.toNat)

def usageText (cpus : List Nat) (times : Nat → CpuTimes) : List UInt8 :=
  (usageLines cpus times).flatMap fun l => lineText l.1 l.2

/-- The words of a line. -/
def usageWords (cpu : Nat) (times : CpuTimes) : List CString :=
  [cpuLabel cpu, Nat.toDigits 10 times.user.toNat, Nat.toDigits 10 times.system.toNat]

theorem plain_usageLines {cpus : List Nat} {times : Nat → CpuTimes} :
    ∀ l ∈ usageLines cpus times, Plain cpuTypes l.1 l.2 := by
  rw [usageLines, List.forall_mem_cons]
  refine ⟨⟨rfl, by decide, by decide, by decide, by decide⟩, fun l hl => ?_⟩
  obtain ⟨cpu, -, rfl⟩ := List.mem_map.mp hl
  refine ⟨rfl, ?_, ?_, ?_, cpuTypes_of_mem_decimal⟩
  · exact List.forall_mem_cons.mpr
      ⟨decimal_ne_nil _, List.forall_mem_singleton.mpr (decimal_ne_nil _)⟩
  · exact List.forall_mem_cons.mpr
      ⟨cpuTypes_of_mem_decimal, List.forall_mem_singleton.mpr cpuTypes_of_mem_decimal⟩
  · exact List.forall_mem_cons.mpr ⟨rfl, List.forall_mem_singleton.mpr rfl⟩

theorem drop_fileLines_usageText (cpus : List Nat) (times : Nat → CpuTimes) :
    (fileLines cpuTypes (usageText cpus times)).drop 1 =
      (cpus.map fun cpu => usageWords cpu (times cpu)) ++ [[]] := by
  rw [fileLines, usageText, splitLines_of_plain _ _ _ plain_usageLines, usageLines]
  simp only [List.map_cons, List.map_append, List.map_map, List.cons_append, List.drop_succ_cons,
    List.drop_zero]
  congr 1
  refine List.map_congr_left fun cpu _ => ?_
  exact congrArg₂ List.cons (cString_decimal cpu) (congrArg₂ List.cons (cString_decimal _)
    (congrArg (fun w => [w]) (cString_decimal _)))

theorem length_fileLines_usageText (cpus : List Nat) (times : Nat → CpuTimes) :
    (fileLines cpuTypes (usageText cpus times)).length = cpus.length + 2 := by
  rw [fileLines, usageText, splitLines_of_plain _ _ _ plain_usageLines, usageLines]
  simp only [List.length_map, List.length_append, List.length_cons, List.length_nil]

theorem usageOfLine_usageWords (cpu : Nat) (times : CpuTimes) :
    usageOfLine (usageWords cpu times) = times.usage := by
  have huser : str2uint64 (lineword (usageWords cpu times) 1) = times.user := by
    change str2uint64 (Nat.toDigits 10 times.user.toNat) = times.user
    rw [str2uint64_toDigits, UInt64.ofNat_toNat]
  have hsystem : str2uint64 (lineword (usageWords cpu times) 2) = times.system := by
    change str2uint64 (Nat.toDigits 10 times.system.toNat) = times.system
    rw [str2uint64_toDigits, UInt64.ofNat_toNat]
  rw [usageOfLine, huser, hsystem]
  rfl

/-! ## Indices -/

/-- The lines of all CPUs are used as indices. -/
theorem usageFits_iff (cpus : List Nat) (times : Nat → CpuTimes) (cpuCoresNum : UInt32) :
    UsageFits cpuCoresNum (.read (usageText cpus times)) ↔ cpus.length ≤ cpuCoresNum.toNat := by
  rw [UsageFits, length_fileLines_usageText, drop_fileLines_usageText]
  constructor
  · intro h
    by_contra hless
    -- the array is too short, and so is the file long enough
    have hlines : (cpuCoresNum + 1).toNat ≤ cpus.length + 2 := by
      rw [UInt32.toNat_add]
      exact (Nat.mod_le _ _).trans (by
        change cpuCoresNum.toNat + 1 ≤ _
        omega)
    have hlt : cpus.length - 1 < cpus.length := by omega
    have hline : (cpus.map (fun cpu => usageWords cpu (times cpu)) ++ [[]])[cpus.length - 1]? =
        some (usageWords cpus[cpus.length - 1] (times cpus[cpus.length - 1])) := by
      rw [List.getElem?_append_left (by rwa [List.length_map]), List.getElem?_map,
        List.getElem?_eq_getElem hlt, Option.map_some]
    have hindex := h hlines (cpus.length - 1) _ hline (Nat.le_refl 3)
    omega
  · intro h _ i line hline hwords
    obtain hlt | hge := Nat.lt_or_ge i cpus.length
    · exact Nat.lt_of_lt_of_le hlt h
    · -- the line behind the last newline has no words
      rw [List.getElem?_append_right (by rwa [List.length_map])] at hline
      obtain rfl := List.mem_singleton.mp (List.mem_of_getElem? hline)
      exact absurd hwords (by decide)

/-! ## What is added -/

/-- The times of a CPU grow, to a sum that fits, by differences that are passed on as they are. -/
structure CpuTimes.Grows (last times : CpuTimes) : Prop where
  user_le : last.user ≤ times.user
  system_le : last.system ≤ times.system
  sum_lt : times.user.toNat + times.system.toNat < 2 ^ 64
  exact : ∀ set ∈ perCpuSets [], Exact (set.2 times.usage - set.2 last.usage)

/-- What is remembered for each CPU, and what has been added to its counters, are known times. -/
structure UsageTelescoped (cpus : List Nat) (known : Nat → CpuTimes) (obj : CpuObj)
    (outputs : List CpuOutput) : Prop where
  sum_lt : ∀ cpu ∈ cpus, (known cpu).user.toNat + (known cpu).system.toNat < 2 ^ 64
  usage : ∀ (i : Nat) cpu, cpus[i]? = some cpu → ∀ usage, obj.usagePerCpus[i]? = some usage →
    usage = (known cpu).usage
  total : ∀ cpu ∈ cpus, ∀ set ∈ perCpuSets (cpuLabel cpu),
    addedTo set.1 outputs = (set.2 (known cpu).usage).toNat

section Takes

variable {cpus : List Nat} {known times : Nat → CpuTimes}

theorem usageNs_toNat {times : CpuTimes} (h : times.user.toNat + times.system.toNat < 2 ^ 64) :
    times.usage.usageNs.toNat = times.user.toNat + times.system.toNat := by
  change (times.user + times.system).toNat = _
  rw [UInt64.toNat_add, Nat.mod_eq_of_lt h]

theorem CpuTimes.Grows.le {last times : CpuTimes} (h : last.Grows times) {cpu : CString} :
    ∀ set ∈ perCpuSets cpu, set.2 last.usage ≤ set.2 times.usage := by
  have huser : last.user.toNat ≤ times.user.toNat := h.user_le
  have hsystem : last.system.toNat ≤ times.system.toNat := h.system_le
  have hsum := h.sum_lt
  have husage : last.usage.usageNs ≤ times.usage.usageNs := by
    rw [UInt64.le_iff_toNat_le, usageNs_toNat h.sum_lt, usageNs_toNat (by omega)]
    omega
  simp only [perCpuSets, List.forall_mem_cons]
  exact ⟨husage, h.user_le, h.system_le, List.forall_mem_nil _⟩

theorem CpuTimes.Grows.exact_of_mem {last times : CpuTimes} (h : last.Grows times)
    {cpu : CString} : ∀ set ∈ perCpuSets cpu, Exact (set.2 times.usage - set.2 last.usage) := by
  have hexact := h.exact
  simp only [perCpuSets, List.forall_mem_cons] at hexact ⊢
  exact hexact

/-- The counters of different CPUs are different ones. -/
theorem notMem_perCpuSets {cpu cpu' : Nat} (h : cpu' ≠ cpu)
    {set : CpuMetric × (UsagePerCpu → UInt64)} (hset : set ∈ perCpuSets (cpuLabel cpu')) :
    set.1 ∉ (perCpuSets (cpuLabel cpu)).map Prod.fst := by
  have hlabel : cpuLabel cpu' ≠ cpuLabel cpu := fun heq => h (cpuLabel_injective heq)
  revert set
  simp only [perCpuSets, List.forall_mem_cons]
  simp [hlabel]

theorem UsageTelescoped.congr {known' : Nat → CpuTimes} {obj : CpuObj}
    {outputs : List CpuOutput} (h : UsageTelescoped cpus known obj outputs)
    (heq : ∀ cpu ∈ cpus, known cpu = known' cpu) : UsageTelescoped cpus known' obj outputs where
  sum_lt cpu hcpu := heq cpu hcpu ▸ h.sum_lt cpu hcpu
  usage i cpu hcpu := heq cpu (List.mem_of_getElem? hcpu) ▸ h.usage i cpu hcpu
  total cpu hcpu := heq cpu hcpu ▸ h.total cpu hcpu

/-- The line of a CPU takes its times on. -/
theorem takes_collectUsageLine (hnodup : cpus.Nodup) {i cpu : Nat} (hcpu : cpus[i]? = some cpu)
    {new : CpuTimes} (hgrows : (known cpu).Grows new) :
    Takes (UsageTelescoped cpus known) (UsageTelescoped cpus (Function.update known cpu new))
      (collectUsageLine i (usageWords cpu new)) := by
  intro obj outputs part h hpart
  obtain ⟨hshort, -⟩ | ⟨-, last, hlast, rfl⟩ := collectUsageLine_cases hpart
  · exact absurd hshort (by decide : ¬3 < 3)
  obtain rfl : last = (known cpu).usage := h.usage i cpu hcpu last hlast
  have hlt := (List.getElem?_eq_some_iff.mp hlast).1
  refine ⟨fun cpu' hcpu' => ?_, fun j cpu' hcpu' usage husage => ?_,
    fun cpu' hcpu' set hset => ?_⟩
  · by_cases heq : cpu' = cpu
    · rw [heq, Function.update_self]
      exact hgrows.sum_lt
    · rw [Function.update_of_ne heq]
      exact h.sum_lt cpu' hcpu'
  · change (obj.usagePerCpus.set i (usageOfLine (usageWords cpu new)))[j]? = some usage at husage
    rw [usageOfLine_usageWords] at husage
    by_cases hindex : i = j
    · obtain rfl : cpu = cpu' := Option.some.inj (hcpu.symm.trans (hindex ▸ hcpu'))
      rw [← hindex, List.getElem?_set_self hlt] at husage
      rw [Function.update_self, Option.some.inj husage]
    · have hne : cpu' ≠ cpu := by
        rintro rfl
        have hi := (List.getElem?_eq_some_iff.mp hcpu).1
        exact hindex ((List.getElem?_inj hi hnodup).mp (hcpu.trans hcpu'.symm))
      rw [List.getElem?_set_ne hindex] at husage
      rw [Function.update_of_ne hne]
      exact h.usage j cpu' hcpu' usage husage
  · rw [addedTo_append, h.total cpu' hcpu' set hset]
    by_cases heq : cpu' = cpu
    · obtain rfl := heq
      have hdifference := addedTo_counterAdd (nodup_perCpuSets (cpuLabel cpu')) hset fun set =>
        doubleOfUInt64 (set.2 (usageOfLine (usageWords cpu' new)) - set.2 (known cpu').usage)
      rw [Function.update_self]
      refine (congrArg _ hdifference).trans ?_
      rw [usageOfLine_usageWords]
      exact (hgrows.exact_of_mem set hset).add_sub (hgrows.le set hset)
    · rw [Function.update_of_ne heq]
      have hnone : addedTo set.1 (usageLinePart i (usageWords cpu new) obj
          (known cpu).usage).outputs = 0 :=
        addedTo_counterAdd_of_notMem (notMem_perCpuSets heq hset) fun set =>
          doubleOfUInt64 (set.2 (usageOfLine (usageWords cpu new)) - set.2 (known cpu).usage)
      rw [hnone, Nat.add_zero]

/-- The lines of the CPUs take their times on, one after the other. -/
theorem takes_collectUsageLines (hnodup : cpus.Nodup) (front rest : List Nat)
    (hcpus : cpus = front ++ rest) (hgrows : ∀ cpu ∈ rest, (known cpu).Grows (times cpu)) :
    Takes (UsageTelescoped cpus known)
      (UsageTelescoped cpus fun cpu => if cpu ∈ rest then times cpu else known cpu)
      (collectUsageLines front.length
        ((rest.map fun cpu => usageWords cpu (times cpu)) ++ [[]])) := by
  induction rest generalizing front known with
  | nil =>
      intro obj outputs part h hpart
      -- the line behind the last newline is skipped
      obtain rfl := Option.some.inj hpart
      change UsageTelescoped cpus _ obj (outputs ++ [])
      rw [List.append_nil]
      exact h.congr fun cpu _ => (if_neg List.not_mem_nil).symm
  | cons cpu rest ih =>
      have hcpu : cpus[front.length]? = some cpu := by
        rw [hcpus, List.getElem?_append_right (Nat.le_refl _), Nat.sub_self]
        rfl
      have hnotMem : cpu ∉ rest := by
        rw [hcpus] at hnodup
        exact (List.nodup_cons.mp (List.nodup_append.mp hnodup).2.1).1
      have hline := takes_collectUsageLine hnodup hcpu (hgrows cpu List.mem_cons_self)
      have hgrows' : ∀ cpu' ∈ rest,
          (Function.update known cpu (times cpu) cpu').Grows (times cpu') := by
        intro cpu' hcpu'
        have hne : cpu' ≠ cpu := fun heq => hnotMem (heq ▸ hcpu')
        rw [Function.update_of_ne hne]
        exact hgrows cpu' (List.mem_cons_of_mem cpu hcpu')
      have hcpus' : cpus = front ++ [cpu] ++ rest := by
        rw [hcpus, List.append_assoc]
        rfl
      have hrest := ih (front ++ [cpu]) hcpus' hgrows'
      rw [List.length_append, List.length_singleton] at hrest
      rw [List.map_cons, List.cons_append, collectUsageLines]
      refine hline.andThen_of_returned (P := True) ?_ (fun _ => ?_) fun hnot => absurd trivial hnot
      · intro obj part hpart
        obtain ⟨-, rfl⟩ | ⟨-, last, -, rfl⟩ := collectUsageLine_cases hpart
        · exact iff_of_true rfl trivial
        · exact iff_of_true rfl trivial
      · intro obj outputs part h hpart
        refine (hrest obj outputs part h hpart).congr fun cpu' _ => ?_
        by_cases hmem : cpu' ∈ rest
        · rw [if_pos hmem, if_pos (List.mem_cons_of_mem cpu hmem)]
        · rw [if_neg hmem]
          by_cases heq : cpu' = cpu
          · rw [heq, Function.update_self, if_pos List.mem_cons_self]
          · rw [Function.update_of_ne heq, if_neg fun h => (List.mem_cons.mp h).elim heq hmem]

/-- A file takes the times of all CPUs on, if it has as many lines as are asked for. -/
theorem takes_usageText (hnodup : cpus.Nodup) {cpuCoresNum : UInt32}
    (hlong : (cpuCoresNum + 1).toNat ≤ cpus.length + 2 ∨ ∀ cpu ∈ cpus, times cpu = {})
    (hgrows : ∀ cpu ∈ cpus, (known cpu).Grows (times cpu)) :
    Takes (UsageTelescoped cpus known) (UsageTelescoped cpus times)
      (if (cpuCoresNum + 1).toNat ≤ (fileLines cpuTypes (usageText cpus times)).length then
        collectUsageLines 0 ((fileLines cpuTypes (usageText cpus times)).drop 1)
      else .skip) := by
  rw [length_fileLines_usageText, drop_fileLines_usageText]
  intro obj outputs part h hpart
  split at hpart
  case isTrue =>
    have hall := takes_collectUsageLines hnodup [] cpus rfl hgrows obj outputs part h hpart
    exact hall.congr fun cpu hcpu => if_pos hcpu
  case isFalse hshort =>
    obtain rfl := Option.some.inj hpart
    rw [List.append_nil]
    refine h.congr fun cpu hcpu => ?_
    -- no time has ever been different from zero
    have hzero : times cpu = {} := hlong.resolve_left hshort cpu hcpu
    have hle := hgrows cpu hcpu
    rw [hzero] at hle ⊢
    generalize known cpu = last at hle ⊢
    obtain ⟨user, system⟩ := last
    obtain rfl : user = 0 := UInt64.le_antisymm hle.user_le (Nat.zero_le _)
    obtain rfl : system = 0 := UInt64.le_antisymm hle.system_le (Nat.zero_le _)
    rfl

end Takes

/-! ## Rounds -/

/-- The files in a round, where `cpuacct.usage_all` lists some CPUs if it can be read. -/
structure UsageRound (cpus : List Nat) where
  files : CpuFiles
  usage : LinesSource (Nat → CpuTimes)
  text : files.cpuacctUsageAll = usage.map (usageText cpus)

section Rounds

variable {cpus : List Nat} {cpuCoresNum : UInt32}

/-- The times that a collection reads. -/
def UsageRound.times (round : UsageRound cpus) : Option (Nat → CpuTimes) :=
  if round.files.cpuacctCpuStat ≠ .notOpened ∧ ReachesUsage round.files then
    match round.usage with
    | .read times => some times
    | .noName | .notOpened | .notRead => none
  else none

/-- The times in the last file that has been read. -/
def lastTimes (rounds : List (UsageRound cpus)) : Nat → CpuTimes :=
  (rounds.filterMap UsageRound.times).getLast?.getD fun _ => {}

theorem lastTimes_concat (past : List (UsageRound cpus)) (round : UsageRound cpus) :
    lastTimes (past ++ [round]) = round.times.getD (lastTimes past) := by
  rw [lastTimes, List.filterMap_append]
  cases htimes : round.times with
  | none =>
      rw [List.filterMap_cons_none htimes, List.filterMap_nil, List.append_nil]
      rfl
  | some times =>
      rw [List.filterMap_cons_some htimes, List.filterMap_nil, List.getLast?_concat]
      rfl

/-- What a round has to meet, behind others: no file can be opened and not be read, there are not
more CPUs than elements, not two fewer, and the times grow. -/
structure UsageMeets (cpuCoresNum : UInt32) (past : List (UsageRound cpus))
    (round : UsageRound cpus) : Prop where
  opened : round.files.cpuacctCpuStat ≠ .notRead
  gauges : round.files.cpuacctCpuStat ≠ .notOpened →
    round.files.cpuacctCpuacctStat ≠ .notRead ∧ (ReachesUsage round.files → round.usage ≠ .notRead)
  fits : ∀ times, round.times = some times → cpus.length ≤ cpuCoresNum.toNat
  long : ∀ times, round.times = some times →
    (cpuCoresNum + 1).toNat ≤ cpus.length + 2 ∨ ∀ cpu ∈ cpus, times cpu = {}
  grows : ∀ times, round.times = some times →
    ∀ cpu ∈ cpus, (lastTimes past cpu).Grows (times cpu)

theorem takes_of_leaves_usage {known : Nat → CpuTimes} {p : CpuCollect}
    (h : p.Leaves CpuObj.usagePerCpus IsPerCpu) :
    Takes (UsageTelescoped cpus known) (UsageTelescoped cpus known) p := by
  intro obj outputs part htelescoped hpart
  obtain ⟨husage, hadded⟩ := h obj part hpart
  refine ⟨htelescoped.sum_lt, fun i cpu hcpu usage hindex => ?_, fun cpu hcpu set hset => ?_⟩
  · rw [husage] at hindex
    exact htelescoped.usage i cpu hcpu usage hindex
  · rw [addedTo_append, htelescoped.total cpu hcpu set hset,
      hadded set.1 ⟨cpuLabel cpu, List.mem_map_of_mem hset⟩, Nat.add_zero]

theorem not_isPerCpu {metric : CpuMetric} (h : ∀ cpu, metric ≠ .v1CpuacctUsageNsPerCpu cpu ∧
    metric ≠ .v1CpuacctUsageUserNsPerCpu cpu ∧ metric ≠ .v1CpuacctUsageSystemNsPerCpu cpu) :
    ¬IsPerCpu metric := by
  rintro ⟨cpu, hcpu⟩
  obtain ⟨husage, huser, hsystem⟩ := h cpu
  simp only [perCpuSets, List.map_cons, List.map_nil, List.mem_cons, List.not_mem_nil,
    or_false] at hcpu
  obtain hmetric | hmetric | hmetric := hcpu
  · exact husage hmetric
  · exact huser hmetric
  · exact hsystem hmetric

theorem UsageMeets.noFault {past : List (UsageRound cpus)} {round : UsageRound cpus}
    (h : UsageMeets cpuCoresNum past round) : NoFault cpuCoresNum round.files .v1 := by
  refine ⟨h.opened, fun hopened => ?_⟩
  obtain ⟨hread, husage⟩ := h.gauges hopened
  refine ⟨hread, fun hreaches => ?_⟩
  have husage := husage hreaches
  rw [round.text]
  cases hfile : round.usage with
  | noName => trivial
  | notOpened => trivial
  | notRead => exact absurd hfile husage
  | read times =>
      have htimes : round.times = some times := by
        rw [UsageRound.times, if_pos ⟨hopened, hreaches⟩, hfile]
      exact (usageFits_iff cpus times cpuCoresNum).mpr (h.fits times htimes)

/-- A round takes the times on that it reads. -/
theorem takes_usageRound (hnodup : cpus.Nodup) {past : List (UsageRound cpus)}
    {round : UsageRound cpus} (hmeets : UsageMeets cpuCoresNum past round) :
    Takes (UsageTelescoped cpus (lastTimes past))
      (UsageTelescoped cpus (lastTimes (past ++ [round])))
      (collectCgroupObjCpuMetrics .v1 cpuCoresNum round.files) := by
  rw [lastTimes_concat]
  have hstat : Takes (UsageTelescoped cpus (lastTimes past)) (UsageTelescoped cpus (lastTimes past))
      (collectCpuStatV1 round.files.cpuacctCpuStat) := by
    refine takes_of_leaves_usage (leaves_collectCpuStatV1 (fun _ _ => rfl) (fun set hset => ?_) _)
    refine not_isPerCpu fun cpu => ?_
    revert set
    simp [cpuStatV1]
  have hgauges : Takes (UsageTelescoped cpus (lastTimes past))
      (UsageTelescoped cpus (lastTimes past)) (collectV1Gauges round.files) :=
    takes_of_leaves_usage (leaves_collectV1Gauges _)
  have hrest {known : Nat → CpuTimes} : Takes (UsageTelescoped cpus known)
      (UsageTelescoped cpus known) (collectV1Usage round.files) :=
    takes_of_leaves_usage (leaves_collectV1Usage (fun _ _ _ _ => rfl)
      ⟨not_isPerCpu (by simp), not_isPerCpu (by simp), not_isPerCpu (by simp)⟩ _)
  have hunread (h : ¬(round.files.cpuacctCpuStat ≠ .notOpened ∧ ReachesUsage round.files)) :
      ∀ obj outputs, UsageTelescoped cpus (lastTimes past) obj outputs →
        UsageTelescoped cpus (round.times.getD (lastTimes past)) obj outputs := by
    have hnone : round.times = none := if_neg h
    rw [hnone]
    exact fun _ _ => id
  refine hstat.andThen_of_returned (continues_collectCpuStatV1 hmeets.opened).of_some
    (fun hopened => ?_) fun hnot => hunread fun h => hnot h.1
  have hread := (hmeets.gauges hopened).1
  refine hgauges.andThen_of_returned (continues_collectV1Gauges hread).of_some
    (fun hreaches => ?_) fun hnot => hunread fun h => hnot h.2
  refine Takes.andThen ?_ hrest
  rw [round.text]
  refine Takes.withLines (fun times hfile => ?_) fun hother => ?_
  · have htimes : round.times = some times := by
      rw [UsageRound.times, if_pos ⟨hopened, hreaches⟩, hfile]
    rw [htimes]
    exact takes_usageText hnodup (hmeets.long times htimes) (hmeets.grows times htimes)
  · have hnone : round.times = none := by
      rw [UsageRound.times, if_pos ⟨hopened, hreaches⟩]
      cases hfile : round.usage with
      | read times => exact absurd hfile (hother times)
      | _ => rfl
    rw [hnone]
    exact fun _ _ => id

theorem usageTelescoped_init :
    UsageTelescoped cpus (lastTimes ([] : List (UsageRound cpus)))
      (initCgroupObjCpuMetrics .v1 cpuCoresNum) [] where
  sum_lt _ _ := Nat.two_pow_pos 64
  usage i cpu _ usage husage :=
    List.eq_of_mem_replicate (List.mem_of_getElem? husage)
  total cpu _ := by
    simp only [perCpuSets, List.forall_mem_cons]
    exact ⟨rfl, rfl, rfl, List.forall_mem_nil _⟩

end Rounds

/-- All indices into the array are in it exactly if it has as many elements as there are CPUs. In a
run in which every round meets the conditions, the totals of each CPU are its times in the last
file that has been read, after every round. -/
theorem usage_all_telescopes (cpus : List Nat) (hnodup : cpus.Nodup) (cpuCoresNum : UInt32) :
    (∀ (times : Nat → CpuTimes) (obj : CpuObj), obj.usagePerCpus.length = cpuCoresNum.toNat →
      ((∃ part, collectUsageAll cpuCoresNum (.read (usageText cpus times)) obj = some part) ↔
        cpus.length ≤ cpuCoresNum.toNat)) ∧
      ∀ rounds : List (UsageRound cpus),
        (∀ past round, past ++ [round] <+: rounds → UsageMeets cpuCoresNum past round) →
        ∀ past, past <+: rounds →
          ∃ st, cpuRun .v1 cpuCoresNum (past.map UsageRound.files) = some st ∧ ∀ cpu ∈ cpus,
            st.total (.v1CpuacctUsageNsPerCpu (cpuLabel cpu)) =
                (lastTimes past cpu).user.toNat + (lastTimes past cpu).system.toNat ∧
              st.total (.v1CpuacctUsageUserNsPerCpu (cpuLabel cpu)) =
                (lastTimes past cpu).user.toNat ∧
              st.total (.v1CpuacctUsageSystemNsPerCpu (cpuLabel cpu)) =
                (lastTimes past cpu).system.toNat := by
  refine ⟨fun times obj hlength => ?_, fun rounds hmeets past hpast => ?_⟩
  · rw [exists_collectUsageAll_iff hlength, usageFits_iff]
  · obtain ⟨st, hst, htelescoped⟩ :=
      exists_run (I := fun past => UsageTelescoped cpus (lastTimes past)) usageTelescoped_init
        (fun past round hround => ⟨(hmeets past round hround).noFault,
          takes_usageRound hnodup (hmeets past round hround)⟩) hpast
    refine ⟨st, hst, fun cpu hcpu => ?_⟩
    have htotal := htelescoped.total cpu hcpu
    simp only [perCpuSets, List.forall_mem_cons] at htotal
    obtain ⟨husage, huser, hsystem, -⟩ := htotal
    exact ⟨husage.trans (usageNs_toNat (htelescoped.sum_lt cpu hcpu)), huser, hsystem⟩

/-! ## Some files -/

/-- Two CPUs with some times. -/
def twoTimes (user : UInt64) (cpu : Nat) : CpuTimes :=
  if cpu = 0 then { user, system := 3 } else { user := 4, system := 2 }

def twoRound (user : UInt64) : UsageRound [0, 1] where
  files := { cpuacctUsageAll := .read (usageText [0, 1] (twoTimes user)) }
  usage := .read (twoTimes user)
  text := rfl

/-- Two rounds for two CPUs, with an array of two elements. -/
theorem two_rounds_telescope :
    ∃ st, cpuRun .v1 2 ([twoRound 5, twoRound 8].map UsageRound.files) = some st ∧
      ∀ cpu ∈ [0, 1],
        st.total (.v1CpuacctUsageNsPerCpu (cpuLabel cpu)) =
            (lastTimes [twoRound 5, twoRound 8] cpu).user.toNat +
              (lastTimes [twoRound 5, twoRound 8] cpu).system.toNat ∧
          st.total (.v1CpuacctUsageUserNsPerCpu (cpuLabel cpu)) =
            (lastTimes [twoRound 5, twoRound 8] cpu).user.toNat ∧
          st.total (.v1CpuacctUsageSystemNsPerCpu (cpuLabel cpu)) =
            (lastTimes [twoRound 5, twoRound 8] cpu).system.toNat := by
  have meets {past : List (UsageRound [0, 1])} {user : UInt64}
      (hgrows : ∀ cpu ∈ [0, 1], (lastTimes past cpu).Grows (twoTimes user cpu)) :
      UsageMeets 2 past (twoRound user) :=
    { opened := by simp [twoRound]
      gauges := fun _ => ⟨by simp [twoRound], fun _ => by simp [twoRound]⟩
      fits := fun _ _ => by decide
      long := fun _ _ => .inl (by decide)
      grows := fun times htimes => by
        obtain rfl := Option.some.inj htimes
        exact hgrows }
  refine (usage_all_telescopes [0, 1] (by decide) 2).2 [twoRound 5, twoRound 8]
    (fun past round hpast => ?_) _ (List.prefix_refl _)
  rcases past with _ | ⟨first, _ | ⟨second, rest⟩⟩
  · obtain ⟨rfl, -⟩ := List.cons_prefix_cons.mp hpast
    refine meets ?_
    simp only [List.forall_mem_cons]
    exact ⟨⟨by decide, by decide, by decide, by decide⟩,
      ⟨by decide, by decide, by decide, by decide⟩, List.forall_mem_nil _⟩
  · obtain ⟨rfl, htail⟩ := List.cons_prefix_cons.mp hpast
    obtain ⟨rfl, -⟩ := List.cons_prefix_cons.mp htail
    refine meets ?_
    simp only [List.forall_mem_cons]
    exact ⟨⟨by decide, by decide, by decide, by decide⟩,
      ⟨by decide, by decide, by decide, by decide⟩, List.forall_mem_nil _⟩
  · have hlength := hpast.length_le
    simp at hlength

/-- With the one CPU that the program assumes, the second of two CPUs is outside of the array. -/
theorem second_cpu_outside : cpuRun .v1 1 [(twoRound 5).files] = none := by
  decide +kernel

end XMonitor.Cgroups
