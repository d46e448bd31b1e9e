import XMonitor.Cgroups.CpuRules

/-!
# The parts of a collection

A part of a collection is about some of the remembered values and some of the metrics. It leaves
the others alone, whatever its files are. The only parts that may not get through are those with a
file that cannot be read, and the lines of `cpuacct.usage_all`.
-/

namespace XMonitor.Cgroups

open Procfile

/-! ## Differences -/

/-- A number is passed on as it is. -/
def Exact (n : UInt64) : Prop := doubleOfUInt64 n = n.toNat

instance : DecidablePred Exact := fun n => inferInstanceAs (Decidable (doubleOfUInt64 n = n.toNat))

theorem exact_zero : Exact 0 := doubleOfUInt64_eq (Nat.zero_le _)

/-- An exact difference leads from one value to the other. -/
theorem Exact.add_sub {value value' : UInt64} (h : Exact (value' - value)) (hle : value ≤ value') :
    value.toNat + doubleOfUInt64 (value' - value) = value'.toNat := by
  have hnat : value.toNat ≤ value'.toNat := hle
  rw [h, UInt64.toNat_sub_of_le _ _ hle]
  omega

namespace CpuCollect

variable {α : Type} {view : CpuObj → α} {metrics : CpuMetric → Prop}

theorem addedTo_gaugeSet {β : Type} (metric : CpuMetric) (keys : List β) (gauge : β → CpuMetric)
    (value : β → CpuValue) :
    addedTo metric (keys.map fun key => .gaugeSet (gauge key) (value key)) = 0 := by
  rw [addedTo, List.map_map]
  refine List.sum_eq_zero fun n hn => ?_
  obtain ⟨key, -, rfl⟩ := List.mem_map.mp hn
  rfl

theorem addedTo_counterAdd_of_notMem {β : Type} {sets : List β} {counter : β → CpuMetric}
    {metric : CpuMetric} (h : metric ∉ sets.map counter) (value : β → Nat) :
    addedTo metric (sets.map fun set => .counterAdd (counter set) (value set)) = 0 := by
  rw [addedTo, List.map_map]
  refine List.sum_eq_zero fun n hn => ?_
  obtain ⟨set, hset, rfl⟩ := List.mem_map.mp hn
  exact if_neg fun hmetric : counter set = metric => h (hmetric ▸ List.mem_map_of_mem hset)

/-- A counter that is in the list once gets its value. -/
theorem addedTo_counterAdd {β : Type} {sets : List β} {counter : β → CpuMetric}
    (hnodup : (sets.map counter).Nodup) {set : β} (h : set ∈ sets) (value : β → Nat) :
    addedTo (counter set) (sets.map fun set => .counterAdd (counter set) (value set)) =
      value set := by
  induction sets with
  | nil => exact absurd h List.not_mem_nil
  | cons head sets ih =>
      obtain ⟨hhead, hnodup⟩ := List.nodup_cons.mp hnodup
      have hcons : addedTo (counter set)
          ((head :: sets).map fun set => .counterAdd (counter set) (value set)) =
          (if counter head = counter set then value head else 0) + addedTo (counter set)
            (sets.map fun set => .counterAdd (counter set) (value set)) := rfl
      rw [hcons]
      obtain rfl | hmem := List.mem_cons.mp h
      · rw [if_pos rfl, addedTo_counterAdd_of_notMem hhead, Nat.add_zero]
      · have hne : counter head ≠ counter set :=
          fun heq => hhead (heq ▸ List.mem_map_of_mem hmem)
        rw [if_neg hne, Nat.zero_add, ih hnodup hmem]

theorem leaves_addDifferences {sets : List (CpuMetric × CpuCounter)}
    (hview : ∀ obj counters, view { obj with counters } = view obj)
    (hmetrics : ∀ set ∈ sets, ¬metrics set.1) (values : CpuCounter → UInt64) :
    Leaves (fun obj => some (addDifferences sets values obj)) view metrics := by
  intro obj part hpart
  obtain rfl := Option.some.inj hpart
  refine ⟨hview obj _, fun metric hmetric => addedTo_counterAdd_of_notMem ?_ _⟩
  intro hmem
  obtain ⟨set, hset, rfl⟩ := List.mem_map.mp hmem
  exact hmetrics set hset hmetric

theorem counters_addDifferences {sets : List (CpuMetric × CpuCounter)}
    {set : CpuMetric × CpuCounter} (h : set ∈ sets) (values : CpuCounter → UInt64)
    (obj : CpuObj) : (addDifferences sets values obj).obj.counters set.2 = values set.2 :=
  if_pos (List.mem_map_of_mem h)

/-! ## Gauges -/

/-- The gauges leave all of the object alone, and every counter. -/
theorem leaves_collectCpuacctStat (file : LinesSource (List UInt8)) :
    (collectCpuacctStat file).Leaves view metrics := by
  refine leaves_withLines fun lines obj part hpart => ?_
  dsimp only at hpart
  split at hpart
  · obtain rfl := Option.some.inj hpart
    exact ⟨rfl, fun metric _ => addedTo_gaugeSet metric cpuacctStatKeys Prod.snd _⟩
  · obtain rfl := Option.some.inj hpart
    exact ⟨rfl, fun _ _ => rfl⟩

theorem leaves_collectGauge (metric : CpuMetric) (file : SourceFile UInt64) :
    (collectGauge metric file).Leaves view metrics := by
  intro obj part hpart
  cases file
  all_goals
    obtain rfl := Option.some.inj hpart
    exact ⟨rfl, fun _ _ => rfl⟩

theorem leaves_collectV1Gauges (files : CpuFiles) :
    (collectV1Gauges files).Leaves view metrics :=
  (leaves_collectCpuacctStat _).andThen ((leaves_collectGauge _ _).andThen
    ((leaves_collectGauge _ _).andThen (leaves_collectGauge _ _)))

theorem leaves_collectCpuMax (file : SourceFile CString) :
    (collectCpuMax file).Leaves view metrics := by
  intro obj part hpart
  unfold collectCpuMax at hpart
  split at hpart
  all_goals
    obtain rfl := Option.some.inj hpart
    exact ⟨rfl, fun _ _ => rfl⟩

/-! ## Counters -/

/-- The usage of all CPUs leaves alone what is not about its counters. -/
theorem leaves_collectV1Usage
    (hview : ∀ obj c value,
      c = .cpuStatUsageTime ∨ c = .cpuStatUsageUserTime ∨ c = .cpuStatUsageSystemTime →
        view { obj with counters := Function.update obj.counters c value } = view obj)
    (hmetrics : ¬metrics .v1CpuacctUsageNs ∧ ¬metrics .v1CpuacctUsageUserNs ∧
      ¬metrics .v1CpuacctUsageSystemNs) (files : CpuFiles) :
    (collectV1Usage files).Leaves view metrics := by
  have leaves (set : CpuMetric × CpuCounter) (file : SourceFile UInt64)
      (hset : set.2 = .cpuStatUsageTime ∨ set.2 = .cpuStatUsageUserTime ∨
        set.2 = .cpuStatUsageSystemTime) (hmetric : ¬metrics set.1) :
      (collectUsage set file).Leaves view metrics := by
    intro obj part hpart
    cases file with
    | noName =>
        obtain rfl := Option.some.inj hpart
        exact ⟨rfl, fun _ _ => rfl⟩
    | failed =>
        obtain rfl := Option.some.inj hpart
        exact ⟨rfl, fun _ _ => rfl⟩
    | read value =>
        obtain rfl := Option.some.inj hpart
        have hupdate : (addDifferences [set] (fun _ => value) obj).obj.counters =
            Function.update obj.counters set.2 value := by
          funext c
          rw [addDifferences, Function.update_apply]
          simp only [List.map_cons, List.map_nil, List.mem_singleton]
        refine ⟨?_, fun metric hmem => addedTo_counterAdd_of_notMem ?_ _⟩
        · rw [← hview obj set.2 value hset, ← hupdate]
          rfl
        · simp only [List.map_cons, List.map_nil, List.mem_singleton]
          rintro rfl
          exact hmetric hmem
  obtain ⟨husage, huser, hsystem⟩ := hmetrics
  exact (leaves _ _ (.inl rfl) husage).andThen ((leaves _ _ (.inr (.inl rfl)) huser).andThen
    (leaves _ _ (.inr (.inr rfl)) hsystem))

theorem leaves_collectCpuStatV1
    (hview : ∀ obj counters, view { obj with counters } = view obj)
    (hmetrics : ∀ set ∈ cpuStatV1, ¬metrics set.1) (file : LinesSource (List UInt8)) :
    (collectCpuStatV1 file).Leaves view metrics :=
  leaves_withLines fun _ => leaves_addDifferences hview hmetrics _

theorem leaves_collectCpuStatV2
    (hview : ∀ obj counters, view { obj with counters } = view obj)
    (hmetrics : ∀ set ∈ cpuStatV2, ¬metrics set.1) (file : LinesSource (List UInt8)) :
    (collectCpuStatV2 file).Leaves view metrics := by
  refine leaves_withLines fun lines obj part hpart => ?_
  dsimp only at hpart
  split at hpart
  · obtain rfl := Option.some.inj hpart
    exact ⟨rfl, fun _ _ => rfl⟩
  · exact leaves_addDifferences hview hmetrics _ obj part hpart

/-! ## Where a collection returns -/

theorem continues_collectCpuStatV1 {file : LinesSource (List UInt8)} (h : file ≠ .notRead) :
    (collectCpuStatV1 file).Continues (file ≠ .notOpened) :=
  continues_withLines h fun _ _ => ⟨_, rfl, iff_of_true rfl trivial⟩

theorem continues_collectCpuacctStat {file : LinesSource (List UInt8)} (h : file ≠ .notRead) :
    (collectCpuacctStat file).Continues (file ≠ .notOpened) := by
  refine continues_withLines h fun lines obj => ?_
  dsimp only
  split
  · exact ⟨_, rfl, iff_of_true rfl trivial⟩
  · exact ⟨_, rfl, iff_of_true rfl trivial⟩

theorem continues_collectGauge (metric : CpuMetric) (file : SourceFile UInt64) :
    (collectGauge metric file).Continues (file ≠ .failed) := by
  intro obj
  cases file with
  | noName => exact ⟨_, rfl, iff_of_true rfl (by simp)⟩
  | failed => exact ⟨_, rfl, iff_of_false Bool.noConfusion fun h => h rfl⟩
  | read value => exact ⟨_, rfl, iff_of_true rfl (by simp)⟩

theorem continues_collectUsage (set : CpuMetric × CpuCounter) (file : SourceFile UInt64) :
    (collectUsage set file).Continues True := by
  intro obj
  cases file
  all_goals exact ⟨_, rfl, iff_of_true rfl trivial⟩

theorem exists_collectCpuStatV2 {file : LinesSource (List UInt8)} (h : file ≠ .notRead)
    (obj : CpuObj) : ∃ part, collectCpuStatV2 file obj = some part := by
  cases file with
  | notRead => exact absurd rfl h
  | noName | notOpened => exact ⟨_, rfl⟩
  | read content =>
      obtain hshort | hlong := Nat.lt_or_ge (fileLines cpuTypes content).length 6
      · exact ⟨_, if_pos hshort⟩
      · exact ⟨_, if_neg (Nat.not_lt.mpr hlong)⟩

theorem continues_collectCpuMax (files : CpuFiles) :
    (collectCpuMax files.unifiedCpuMax).Continues (files.endsFirst .v2 = false) := by
  intro obj
  rw [CpuFiles.endsFirst]
  cases files.unifiedCpuMax with
  | noName => exact ⟨_, rfl, iff_of_true rfl rfl⟩
  | failed => exact ⟨_, rfl, iff_of_false Bool.noConfusion Bool.noConfusion⟩
  | read line =>
      cases line with
      | nil => exact ⟨_, rfl, iff_of_false Bool.noConfusion Bool.noConfusion⟩
      | cons c line => exact ⟨_, rfl, iff_of_true rfl rfl⟩

/-- None of the files in front of `cpuacct.usage_all` ends a collection. -/
def ReachesUsage (files : CpuFiles) : Prop :=
  files.cpuacctCpuacctStat ≠ .notOpened ∧ files.cpuacctCpuShares ≠ .failed ∧
    files.cpuacctCpuCfsPeriodUs ≠ .failed ∧ files.cpuacctCpuCfsQuotaUs ≠ .failed

instance {β : Type} : (file : LinesSource β) → Decidable (file = .notOpened)
  | .notOpened => isTrue rfl
  | .noName | .notRead | .read _ => isFalse (by simp)

instance {β : Type} : (file : SourceFile β) → Decidable (file = .failed)
  | .failed => isTrue rfl
  | .noName | .read _ => isFalse (by simp)

instance (files : CpuFiles) : Decidable (ReachesUsage files) :=
  inferInstanceAs (Decidable (_ ∧ _ ∧ _ ∧ _))

theorem continues_collectV1Gauges {files : CpuFiles} (h : files.cpuacctCpuacctStat ≠ .notRead) :
    (collectV1Gauges files).Continues (ReachesUsage files) :=
  (continues_collectCpuacctStat h).andThen ((continues_collectGauge _ _).andThen
    ((continues_collectGauge _ _).andThen (continues_collectGauge _ _)))

theorem continues_collectV1Usage (files : CpuFiles) :
    (collectV1Usage files).Continues (True ∧ True ∧ True) :=
  (continues_collectUsage _ _).andThen
    ((continues_collectUsage _ _).andThen (continues_collectUsage _ _))

/-! ## The array of the CPUs -/

theorem collectUsageLine_of_length_lt {line : List CString} (h : line.length < 3) (index : Nat)
    (obj : CpuObj) : collectUsageLine index line obj = some { obj } :=
  if_neg (Nat.not_le.mpr h)

theorem collectUsageLine_of_le {line : List CString} {index : Nat} {obj : CpuObj}
    (h : 3 ≤ line.length) (hindex : obj.usagePerCpus.length ≤ index) :
    collectUsageLine index line obj = none := by
  rw [collectUsageLine, if_pos h, List.getElem?_eq_none hindex]
  rfl

/-- The counters of a CPU, with what they remember. -/
def perCpuSets (cpu : CString) : List (CpuMetric × (UsagePerCpu → UInt64)) :=
  [(.v1CpuacctUsageNsPerCpu cpu, UsagePerCpu.usageNs),
    (.v1CpuacctUsageUserNsPerCpu cpu, UsagePerCpu.usageUserNs),
    (.v1CpuacctUsageSystemNsPerCpu cpu, UsagePerCpu.usageSystemNs)]

theorem nodup_perCpuSets (cpu : CString) : ((perCpuSets cpu).map Prod.fst).Nodup := by
  simp [perCpuSets]

/-- The usage that a line states. -/
def usageOfLine (line : List CString) : UsagePerCpu where
  usageNs := str2uint64 (lineword line 1) + str2uint64 (lineword line 2)
  usageUserNs := str2uint64 (lineword line 1)
  usageSystemNs := str2uint64 (lineword line 2)

/-- What a line with all of its words leaves. -/
def usageLinePart (index : Nat) (line : List CString) (obj : CpuObj) (last : UsagePerCpu) :
    CpuPart where
  obj := { obj with usagePerCpus := obj.usagePerCpus.set index (usageOfLine line) }
  outputs := (perCpuSets (lineword line 0)).map fun set =>
    .counterAdd set.1 (doubleOfUInt64 (set.2 (usageOfLine line) - set.2 last))

theorem collectUsageLine_of_getElem? {line : List CString} {index : Nat} {obj : CpuObj}
    {last : UsagePerCpu} (h : 3 ≤ line.length) (hlast : obj.usagePerCpus[index]? = some last) :
    collectUsageLine index line obj = some (usageLinePart index line obj last) := by
  rw [collectUsageLine, if_pos h, hlast]
  rfl

/-- A line is skipped, or its index is in the array. -/
theorem collectUsageLine_cases {line : List CString} {index : Nat} {obj : CpuObj}
    {part : CpuPart} (h : collectUsageLine index line obj = some part) :
    line.length < 3 ∧ part = { obj } ∨
      3 ≤ line.length ∧ ∃ last, obj.usagePerCpus[index]? = some last ∧
        part = usageLinePart index line obj last := by
  obtain hlength | hlength := Nat.lt_or_ge line.length 3
  · rw [collectUsageLine_of_length_lt hlength] at h
    exact .inl ⟨hlength, (Option.some.inj h).symm⟩
  · cases hlast : obj.usagePerCpus[index]? with
    | none =>
        rw [collectUsageLine_of_le hlength (List.getElem?_eq_none_iff.mp hlast)] at h
        exact absurd h.symm (Option.some_ne_none _)
    | some last =>
        rw [collectUsageLine_of_getElem? hlength hlast] at h
        exact .inr ⟨hlength, last, rfl, (Option.some.inj h).symm⟩

/-- A counter of some CPU. -/
def IsPerCpu (metric : CpuMetric) : Prop := ∃ cpu, metric ∈ (perCpuSets cpu).map Prod.fst

/-- The lines leave alone what is not about the array and its counters. -/
theorem leaves_collectUsageLines
    (hview : ∀ obj index usage,
      view { obj with usagePerCpus := obj.usagePerCpus.set index usage } = view obj)
    (hmetrics : ∀ metric, metrics metric → ¬IsPerCpu metric) (index : Nat) (lines : ProcFile) :
    (collectUsageLines index lines).Leaves view metrics := by
  induction lines generalizing index with
  | nil => exact leaves_skip
  | cons line lines ih =>
      refine Leaves.andThen (fun obj part hpart => ?_) (ih (index + 1))
      obtain ⟨-, rfl⟩ | ⟨-, last, -, rfl⟩ := collectUsageLine_cases hpart
      · exact ⟨rfl, fun _ _ => rfl⟩
      · refine ⟨hview obj index _, fun metric hmetric => addedTo_counterAdd_of_notMem ?_ _⟩
        exact fun hmem => hmetrics metric hmetric ⟨_, hmem⟩

theorem leaves_collectUsageAll
    (hview : ∀ obj index usage,
      view { obj with usagePerCpus := obj.usagePerCpus.set index usage } = view obj)
    (hmetrics : ∀ metric, metrics metric → ¬IsPerCpu metric) (cpuCoresNum : UInt32)
    (file : LinesSource (List UInt8)) :
    (collectUsageAll cpuCoresNum file).Leaves view metrics := by
  refine leaves_withLines fun lines => ?_
  split
  · exact leaves_collectUsageLines hview hmetrics 0 _
  · exact leaves_skip

theorem forall_getElem?_cons {β : Type} {x : β} {xs : List β} {P : Nat → β → Prop} :
    (∀ (i : Nat) y, (x :: xs)[i]? = some y → P i y) ↔
      P 0 x ∧ ∀ (i : Nat) y, xs[i]? = some y → P (i + 1) y := by
  constructor
  · intro h
    exact ⟨h 0 x rfl, fun i y hy => h (i + 1) y hy⟩
  · rintro ⟨hx, hxs⟩ i y hy
    cases i with
    | zero =>
        obtain rfl := Option.some.inj hy
        exact hx
    | succ i => exact hxs i y hy

theorem exists_andThen_iff {p q : CpuCollect} {obj : CpuObj} {first : CpuPart}
    (h : p obj = some first) (hreturned : first.returned = false) :
    (∃ part, p.andThen q obj = some part) ↔ ∃ part, q first.obj = some part := by
  rw [andThen_of_some h, hreturned, if_neg Bool.false_ne_true]
  constructor
  · rintro ⟨part, hpart⟩
    obtain ⟨second, hsecond, -⟩ := Option.map_eq_some_iff.mp hpart
    exact ⟨second, hsecond⟩
  · rintro ⟨second, hsecond⟩
    exact ⟨_, Option.map_eq_some_iff.mpr ⟨second, hsecond, rfl⟩⟩

/-- The lines get through if the index of every line that has its words is in the array. -/
theorem exists_collectUsageLines_iff (index : Nat) (lines : ProcFile) (obj : CpuObj) :
    (∃ part, collectUsageLines index lines obj = some part) ↔
      ∀ (i : Nat) line, lines[i]? = some line → 3 ≤ line.length →
        index + i < obj.usagePerCpus.length := by
  induction lines generalizing index obj with
  | nil => exact iff_of_true ⟨_, rfl⟩ fun i _ h => absurd h.symm (Option.some_ne_none _)
  | cons line lines ih =>
      have hnext (i : Nat) : index + 1 + i = index + (i + 1) := by omega
      rw [forall_getElem?_cons, collectUsageLines]
      obtain hshort | hlong := Nat.lt_or_ge line.length 3
      · rw [exists_andThen_iff (collectUsageLine_of_length_lt hshort index obj) rfl, ih]
        simp only [hnext]
        exact (and_iff_right fun h => absurd h (Nat.not_le.mpr hshort)).symm
      · cases hlast : obj.usagePerCpus[index]? with
        | none =>
            have hindex := List.getElem?_eq_none_iff.mp hlast
            refine iff_of_false ?_ fun h => absurd (h.1 hlong) (Nat.not_lt.mpr hindex)
            rintro ⟨part, hpart⟩
            obtain ⟨first, hfirst, -⟩ := andThen_cases hpart
            rw [collectUsageLine_of_le hlong hindex] at hfirst
            exact absurd hfirst.symm (Option.some_ne_none _)
        | some last =>
            have hindex := (List.getElem?_eq_some_iff.mp hlast).1
            have hlength : (usageLinePart index line obj last).obj.usagePerCpus.length =
                obj.usagePerCpus.length := List.length_set
            rw [exists_andThen_iff (collectUsageLine_of_getElem? hlong hlast) rfl, ih, hlength]
            simp only [hnext]
            exact (and_iff_right fun _ => hindex).symm

/-- The indices of the lines of `cpuacct.usage_all` that have their words are in the array. -/
def UsageFits (cpuCoresNum : UInt32) : LinesSource (List UInt8) → Prop
  | .noName | .notOpened => True
  | .notRead => False
  | .read content =>
      (cpuCoresNum + 1).toNat ≤ (fileLines cpuTypes content).length →
        ∀ (i : Nat) line, ((fileLines cpuTypes content).drop 1)[i]? = some line →
          3 ≤ line.length → i < cpuCoresNum.toNat

theorem exists_collectUsageAll_iff {cpuCoresNum : UInt32} {obj : CpuObj}
    (hlength : obj.usagePerCpus.length = cpuCoresNum.toNat) (file : LinesSource (List UInt8)) :
    (∃ part, collectUsageAll cpuCoresNum file obj = some part) ↔ UsageFits cpuCoresNum file := by
  cases file with
  | noName => exact iff_of_true ⟨_, rfl⟩ trivial
  | notOpened => exact iff_of_true ⟨_, rfl⟩ trivial
  | notRead => exact iff_of_false (fun ⟨_, h⟩ => Option.some_ne_none _ h.symm) id
  | read content =>
      rw [collectUsageAll, withLines, UsageFits]
      split
      case isTrue hlines =>
        rw [exists_collectUsageLines_iff, hlength]
        simp only [Nat.zero_add]
        exact (imp_iff_right hlines).symm
      case isFalse hlines => exact iff_of_true ⟨_, rfl⟩ fun h => absurd h hlines

end CpuCollect

end XMonitor.Cgroups
