import XMonitor.Cgroups.Interference
import XMonitor.Utils.ArlComplete

/-!
# The gauges of `memory.stat`

Version 2 registers a gauge for each of fourteen keys. The value of `anon` goes to the gauge of
`file`, and that of `file` to the gauge of `kernel`, which gets its own value behind it. So the
gauge of `anon` is never set. The other gauges have the values of their keys in the last file,
except that the one of `file` has that of `anon`.
-/

namespace XMonitor.Cgroups

variable {κ : Type} [DecidableEq κ] {cgType : CgType}

/-- The gauges from `memory.stat` that `init_cgroup_obj_memory_metrics` registers for version 2,
by the variables that they are named after. -/
def memStatGauges : List MemStat :=
  [.anonBytes, .fileBytes, .kernelBytes, .kernelStackBytes, .slabBytes, .sockBytes,
    .anonThpBytes, .fileWritebackBytes, .fileDirtyBytes, .inactiveAnonBytes, .activeAnonBytes,
    .inactiveFileBytes, .activeFileBytes, .unevictableBytes]

/-- The value of a gauge behind a call. -/
def MemoryOutput.gauge (metric : MemoryMetric) (value : Option Nat) : MemoryOutput → Option Nat
  | .gaugeSet metric' value' => if metric' = metric then some value' else value
  | .counterAdd _ _ => value

/-- The value of a gauge behind some calls. -/
def gaugeValue (metric : MemoryMetric) (outputs : List MemoryOutput) : Option Nat :=
  outputs.foldl (MemoryOutput.gauge metric) none

/-- The value of the key of a variable in a file. -/
def statValue (lines : ProcFile) (stat : MemStat) : UInt64 :=
  (((sourcePairs lines).find? fun pair =>
    destination (expectedKeywords .v2) pair.1 = some stat).map fun pair => str2uint64 pair.2).getD 0

/-- All gauges have the values of their keys. -/
def Reported (lines : ProcFile) (outputs : List MemoryOutput) : Prop :=
  ∀ stat ∈ memStatGauges,
    gaugeValue (.stat .v2 stat) outputs = some (doubleOfUInt64 (statValue lines stat))

/-- All keys of version 2 are in a file once. -/
def HasKeysOnce (lines : ProcFile) : Prop := Once (expectedKeywords .v2) (sourcePairs lines)

instance : DecidablePred HasKeysOnce := fun lines =>
  inferInstanceAs (Decidable (∀ keyword ∈ (expectedKeywords .v2).map Prod.fst,
    ((sourcePairs lines).map Prod.fst).count keyword = 1))

/-! ## Gauges -/

theorem gaugeValue_concat (metric : MemoryMetric) (outputs : List MemoryOutput)
    (output : MemoryOutput) :
    gaugeValue metric (outputs ++ [output]) = output.gauge metric (gaugeValue metric outputs) :=
  List.foldl_append

theorem gaugeValue_append (metric : MemoryMetric) (outputs outputs' : List MemoryOutput) :
    gaugeValue metric (outputs ++ outputs') =
      (gaugeValue metric outputs').or (gaugeValue metric outputs) := by
  induction outputs' using List.reverseRecOn with
  | nil =>
      rw [List.append_nil]
      rfl
  | append_singleton outputs' output ih =>
      rw [← List.append_assoc, gaugeValue_concat, gaugeValue_concat, ih]
      cases output with
      | gaugeSet metric' value =>
          simp only [MemoryOutput.gauge]
          split
          · rfl
          · rfl
      | counterAdd metric' value => rfl

/-- Calls that do not set a gauge. -/
def NotSet (metric : MemoryMetric) (outputs : List MemoryOutput) : Prop :=
  ∀ value, .gaugeSet metric value ∉ outputs

theorem gaugeValue_of_notSet {metric : MemoryMetric} {outputs : List MemoryOutput}
    (h : NotSet metric outputs) : gaugeValue metric outputs = none := by
  induction outputs using List.reverseRecOn with
  | nil => rfl
  | append_singleton outputs output ih =>
      have hrest : NotSet metric outputs :=
        fun value hmem => h value (List.mem_append_left _ hmem)
      rw [gaugeValue_concat, ih hrest]
      cases output with
      | gaugeSet metric' value =>
          refine if_neg ?_
          rintro rfl
          exact h value (List.mem_append_right _ (List.mem_singleton_self _))
      | counterAdd metric' value => rfl

/-- The gauges that the exports set are those in the list. -/
theorem notSet_exportMemStat {es : List MemStatExport} {metric : MemStat}
    (h : ∀ stat, .gauge metric stat ∉ es) (statics counters : MemStat → UInt64) :
    NotSet (.stat cgType metric) (exportMemStat cgType statics counters es).2 := by
  induction es generalizing counters with
  | nil => exact fun _ => List.not_mem_nil
  | cons e es ih =>
      have hrest : ∀ stat, .gauge metric stat ∉ es :=
        fun stat hmem => h stat (List.mem_cons_of_mem e hmem)
      intro value hmem
      cases e with
      | gauge metric' stat =>
          obtain hhead | hmem := List.mem_cons.mp hmem
          · obtain ⟨hmetric, -⟩ := MemoryOutput.gaugeSet.inj hhead
            obtain ⟨-, rfl⟩ := MemoryMetric.stat.inj hmetric
            exact h stat List.mem_cons_self
          · exact ih hrest counters value hmem
      | counter metric' stat =>
          obtain hhead | hmem := List.mem_cons.mp hmem
          · exact MemoryOutput.noConfusion hhead
          · exact ih hrest _ value hmem

/-! ## Collections -/

/-- The calls that a collection of version 2 makes for the lines that it reads. -/
def linesOutputs (statics : MemStat → UInt64) (obj : MemoryObj) (lines : Option ProcFile) :
    List MemoryOutput :=
  (lines.map fun lines => (collectLines .v2 statics obj lines).outputs).getD []

theorem outputs_collectMemStat (statics : MemStat → UInt64) (obj : MemoryObj)
    (file : SourceFile ProcFile) :
    (collectMemStat .v2 statics obj file).outputs =
      linesOutputs statics obj (readableLines file) := by
  cases hlines : readableLines file with
  | none => rw [collectMemStat_of_none hlines]; rfl
  | some lines => rw [collectMemStat_of_some hlines]; rfl

theorem notSet_fileGauge {metric metric' : MemoryMetric} (h : metric' ≠ metric)
    (file : SourceFile UInt64) : NotSet metric (fileGauge metric' file) := by
  intro value hmem
  cases file with
  | noName | failed => exact List.not_mem_nil hmem
  | read value' =>
      obtain ⟨hmetric, -⟩ := MemoryOutput.gaugeSet.inj (List.mem_singleton.mp hmem)
      exact h hmetric.symm

theorem NotSet.append {metric : MemoryMetric} {outputs outputs' : List MemoryOutput}
    (h : NotSet metric outputs) (h' : NotSet metric outputs') :
    NotSet metric (outputs ++ outputs') :=
  fun value hmem => (List.mem_append.mp hmem).elim (h value) (h' value)

/-- In front of them are those for other files. -/
theorem exists_front (statics : MemStat → UInt64) (obj : MemoryObj) (files : MemoryFiles) :
    ∃ front, (∀ stat, NotSet (.stat .v2 stat) front) ∧
      (collectCgroupV2MemoryMetrics statics obj files).outputs =
        front ++ linesOutputs statics obj (files.statLines .v2) := by
  obtain ⟨stat, _, _, _, _, _, current, max⟩ := files
  have hcurrent (stat : MemStat) :
      NotSet (.stat .v2 stat) (fileGauge .currentInBytes current) :=
    notSet_fileGauge MemoryMetric.noConfusion current
  have hstat := outputs_collectMemStat statics obj stat
  have hmax (value : Nat) (stat : MemStat) :
      NotSet (.stat .v2 stat) [.gaugeSet .maxInBytes value] := by
    intro value' hmem
    obtain ⟨hmetric, -⟩ := MemoryOutput.gaugeSet.inj (List.mem_singleton.mp hmem)
    exact MemoryMetric.noConfusion hmetric
  cases current with
  | failed => exact ⟨[], fun _ _ => List.not_mem_nil, rfl⟩
  | noName =>
      cases max with
      | failed => exact ⟨[], fun _ _ => List.not_mem_nil, rfl⟩
      | noName => exact ⟨[], fun _ _ => List.not_mem_nil, hstat⟩
      | read line => exact ⟨_, hmax _, congrArg (List.append [_]) hstat⟩
  | read value =>
      cases max with
      | failed => exact ⟨_, hcurrent, (List.append_nil _).symm⟩
      | noName => exact ⟨_, hcurrent, congrArg (List.append _) hstat⟩
      | read line => exact ⟨_, fun stat => (hcurrent stat).append (hmax _ stat),
          congrArg (List.append _) hstat⟩

/-! ## The gauge of `anon` -/

theorem notSet_anon (statics : MemStat → UInt64) (obj : MemoryObj) (files : MemoryFiles) :
    NotSet (.stat .v2 .anonBytes) (collectCgroupV2MemoryMetrics statics obj files).outputs := by
  have hexports : ∀ stat, .gauge .anonBytes stat ∉ memStatExports .v2 := by
    intro stat
    simp [memStatExports]
  obtain ⟨front, hfront, houtputs⟩ := exists_front statics obj files
  rw [houtputs]
  refine (hfront .anonBytes).append ?_
  cases files.statLines .v2 with
  | none => exact fun _ => List.not_mem_nil
  | some lines => exact notSet_exportMemStat hexports _ _

/-- No run sets it. -/
theorem notSet_anon_outputsOf (c : κ) (s : MemoryCollector κ) (es : List (κ × MemoryFiles)) :
    NotSet (.stat .v2 .anonBytes) (outputsOf .v2 c s es).flatten := by
  induction es generalizing s with
  | nil => exact fun _ => List.not_mem_nil
  | cons e es ih =>
      rw [outputsOf]
      split
      · rw [List.flatten_cons]
        exact (notSet_anon _ _ _).append (ih _)
      · exact ih _

/-! ## The other gauges -/

/-- The keyword list of a cgroup whose files have had all keys once. -/
theorem settled_run {c : κ} {es : List (κ × MemoryFiles)}
    (honce : ∀ files lines, (c, files) ∈ es → files.statLines .v2 = some lines →
      HasKeysOnce lines) :
    ((es.foldl (collectStep .v2) (initMemoryCollector .v2)).objs c).arlBaseMemStat.Settled
      (expectedKeywords .v2) := by
  induction es using List.reverseRecOn with
  | nil =>
      have hinit := arlExpectAll_settled 60 (nodup_expectedKeywords .v2)
      rw [arlExpectAll, expectedKeywords, List.foldl_map] at hinit
      exact hinit
  | append_singleton es e ih =>
      obtain ⟨d, files⟩ := e
      have hsettled := ih fun files lines hmem => honce files lines (List.mem_append_left _ hmem)
      rw [List.foldl_append]
      generalize es.foldl (collectStep .v2) (initMemoryCollector .v2) = s at hsettled ⊢
      change ((collectStep .v2 s (d, files)).objs c).arlBaseMemStat.Settled _
      by_cases hd : d = c
      · subst hd
        rw [collectStep_self]
        cases hlines : files.statLines .v2 with
        | none =>
            obtain ⟨outputs, hcollect⟩ := collect_of_statLines_none hlines
            rw [MemoryCollector.collect, hcollect]
            exact hsettled
        | some lines =>
            obtain ⟨front, back, hcollect⟩ := collect_of_statLines_some hlines
            obtain ⟨-, hobj, -⟩ := hcollect s.statics (s.objs d)
            have hkeys := honce files lines
              (List.mem_append_right _ (List.mem_singleton_self _)) hlines
            rw [MemoryCollector.collect, hobj]
            change (arlScan (arlBegin (s.objs d).arlBaseMemStat) lines).1.Settled _
            rw [arlScan_eq_arlRead]
            exact (hsettled.read_once (by decide) (nodup_expectedKeywords .v2) hkeys).1
      · rw [collectStep_other hd]
        exact hsettled

/-- The variables after a file with all keys. -/
theorem statics_collectLines {lines : ProcFile} (honce : HasKeysOnce lines) {obj : MemoryObj}
    (hsettled : obj.arlBaseMemStat.Settled (expectedKeywords .v2)) {stat : MemStat}
    (hstat : stat ∈ (expectedKeywords .v2).map Prod.snd) (statics : MemStat → UInt64) :
    (collectLines .v2 statics obj lines).statics stat = statValue lines stat := by
  have hcalls := (hsettled.read_once (by decide) (nodup_expectedKeywords .v2) honce).2
  rw [← arlScan_eq_arlRead] at hcalls
  rw [collectLines_statics, hcalls]
  exact honce.stored_sourceValue (nodup_expectedKeywords .v2) (by decide) hstat statics

/-- The variable that is shown by a gauge. -/
def shownBy (stat : MemStat) : MemStat := if stat = .fileBytes then .anonBytes else stat

/-- Every gauge but one is set, and shows its variable or that of `anon`. -/
theorem gaugeValue_exports {stat : MemStat} (h : stat ∈ memStatGauges) (hanon : stat ≠ .anonBytes)
    (statics counters : MemStat → UInt64) :
    gaugeValue (.stat .v2 stat)
        (exportMemStat .v2 statics counters (memStatExports .v2)).2 =
      some (doubleOfUInt64 (statics (shownBy stat))) := by
  revert hanon
  revert stat
  simp only [memStatGauges, List.forall_mem_cons]
  refine ⟨fun h => absurd rfl h, ?_⟩
  simp only [ne_eq, reduceCtorEq, not_false_eq_true, forall_const]
  exact ⟨rfl, rfl, rfl, rfl, rfl, rfl, rfl, rfl, rfl, rfl, rfl, rfl, rfl, List.forall_mem_nil _⟩

/-- The gauges behind a collection for a file with all keys, if the files before have had them
too. -/
theorem gaugeValue_run {c : κ} {past : List (κ × MemoryFiles)} {files : MemoryFiles}
    {lines : ProcFile} (hlines : files.statLines .v2 = some lines) (honce : HasKeysOnce lines)
    (hpast : ∀ files lines, (c, files) ∈ past → files.statLines .v2 = some lines →
      HasKeysOnce lines)
    {stat : MemStat} (h : stat ∈ memStatGauges) (hanon : stat ≠ .anonBytes) :
    gaugeValue (.stat .v2 stat)
        (outputsOf .v2 c (initMemoryCollector .v2) (past ++ [(c, files)])).flatten =
      some (doubleOfUInt64 (statValue lines (shownBy stat))) := by
  have hsettled := settled_run hpast
  rw [outputsOf_append, outputsOf_cons_self, outputsOf, List.flatten_append, List.flatten_cons,
    List.flatten_nil, List.append_nil, gaugeValue_append]
  generalize past.foldl (collectStep .v2) (initMemoryCollector .v2) = s at hsettled ⊢
  obtain ⟨front, -, houtputs⟩ := exists_front s.statics (s.objs c) files
  have hcollect : (s.collect .v2 (c, files)).outputs =
      front ++ (collectLines .v2 s.statics (s.objs c) lines).outputs := by
    rw [hlines] at houtputs
    exact houtputs
  have hall : ∀ stat ∈ memStatGauges, shownBy stat ∈ (expectedKeywords .v2).map Prod.snd := by
    decide
  have hstatics : (collectLines .v2 s.statics (s.objs c) lines).statics (shownBy stat) =
      statValue lines (shownBy stat) :=
    statics_collectLines honce hsettled (hall stat h) _
  have hexports : gaugeValue (.stat .v2 stat)
      (collectLines .v2 s.statics (s.objs c) lines).outputs =
        some (doubleOfUInt64 (statValue lines (shownBy stat))) := by
    rw [← hstatics]
    exact gaugeValue_exports h hanon _ _
  rw [hcollect, gaugeValue_append, hexports]
  rfl

/-- The gauges of a cgroup behind a collection for a file with all keys, in any run of collections
for all cgroups: not all of them have the values of their keys. If the files of the cgroup before
have had all keys too, only that of `anon` has not, and that of `file` if the values differ. -/
theorem memory_gauges (c : κ) (past : List (κ × MemoryFiles)) (files : MemoryFiles)
    (lines : ProcFile) (hlines : files.statLines .v2 = some lines) (honce : HasKeysOnce lines) :
    ¬Reported lines
        (outputsOf .v2 c (initMemoryCollector .v2) (past ++ [(c, files)])).flatten ∧
      ((∀ files lines, (c, files) ∈ past → files.statLines .v2 = some lines →
          HasKeysOnce lines) →
        ∀ stat ∈ memStatGauges,
          (gaugeValue (.stat .v2 stat)
                (outputsOf .v2 c (initMemoryCollector .v2) (past ++ [(c, files)])).flatten =
              some (doubleOfUInt64 (statValue lines stat)) ↔
            stat ≠ .anonBytes ∧ (stat = .fileBytes →
              doubleOfUInt64 (statValue lines .anonBytes) =
                doubleOfUInt64 (statValue lines .fileBytes)))) := by
  have hanon : gaugeValue (.stat .v2 .anonBytes)
      (outputsOf .v2 c (initMemoryCollector .v2) (past ++ [(c, files)])).flatten = none :=
    gaugeValue_of_notSet (notSet_anon_outputsOf c _ _)
  refine ⟨fun h => ?_, fun hpast stat hstat => ?_⟩
  · exact Option.some_ne_none _ ((h .anonBytes (by decide)).symm.trans hanon)
  · by_cases heq : stat = .anonBytes
    · rw [heq, hanon]
      exact iff_of_false (Option.some_ne_none _).symm fun h => h.1 rfl
    · rw [gaugeValue_run hlines honce hpast hstat heq, Option.some_inj, shownBy]
      by_cases hfile : stat = .fileBytes
      · rw [if_pos hfile, hfile]
        exact ⟨fun h => ⟨by decide, fun _ => h⟩, fun h => h.2 rfl⟩
      · rw [if_neg hfile]
        exact iff_of_true rfl ⟨heq, fun h => absurd h hfile⟩

/-! ## A file -/

/-- A file with all keys, where that of `anon` has the value 1 and all others 2. -/
def keysLines : ProcFile :=
  (memStatKeywords .v2).map fun keyword =>
    [keyword.1.toList, if keyword.1 = "anon" then ['1'] else ['2']]

def keysFiles : MemoryFiles where
  stat := .read keysLines

theorem keys_not_reported :
    ¬Reported keysLines
        (outputsOf .v2 () (initMemoryCollector .v2) ([] ++ [((), keysFiles)])).flatten :=
  (memory_gauges () [] keysFiles keysLines rfl (by decide)).1

/-- The first collection sets the gauge of `file` to the value of `anon`, and that of `anon` to
none. -/
theorem keys_gauges :
    HasKeysOnce keysLines ∧
      gaugeValue (.stat .v2 .anonBytes)
        (outputsOf .v2 () (initMemoryCollector .v2) [((), keysFiles)]).flatten = none ∧
      statValue keysLines .anonBytes = 1 ∧
      gaugeValue (.stat .v2 .fileBytes)
        (outputsOf .v2 () (initMemoryCollector .v2) [((), keysFiles)]).flatten = some 1 ∧
      statValue keysLines .fileBytes = 2 := by
  decide +kernel

end XMonitor.Cgroups
