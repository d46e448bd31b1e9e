import Mathlib.Data.List.Induction
import XMonitor.Cgroups.CpuParts

/-!
# Collections in rounds

A collection gets through unless a file can be opened and not be read, or `cpuacct.usage_all`
lists more CPUs than the array has been allocated for. What holds of a new object and is taken on
by every round holds behind every run.
-/

namespace XMonitor.Cgroups

open CpuCollect

/-! ## Collections -/

def usageLength (obj : CpuObj) : Nat := obj.usagePerCpus.length

/-- The array keeps its length. -/
theorem length_usagePerCpus {cgType : CgType} {cpuCoresNum : UInt32} {files : CpuFiles}
    {obj : CpuObj} {part : CpuPart}
    (h : collectCgroupObjCpuMetrics cgType cpuCoresNum files obj = some part) :
    part.obj.usagePerCpus.length = obj.usagePerCpus.length := by
  have hleaves : (collectCgroupObjCpuMetrics cgType cpuCoresNum files).Leaves usageLength
      fun _ => False := by
    cases cgType with
    | v1 =>
        exact (leaves_collectCpuStatV1 (fun _ _ => rfl) (fun _ _ => id) _).andThen
          ((leaves_collectV1Gauges files).andThen
            ((leaves_collectUsageAll (fun _ _ _ => List.length_set) (fun _ => False.elim)
              cpuCoresNum _).andThen
              (leaves_collectV1Usage (fun _ _ _ _ => rfl) ⟨id, id, id⟩ files)))
    | v2 =>
        exact (leaves_collectCpuMax _).andThen
          (leaves_collectCpuStatV2 (fun _ _ => rfl) (fun _ _ => id) _)
  exact (hleaves obj part h).1

/-- A collection follows no null pointer and stays in its array. -/
def NoFault (cpuCoresNum : UInt32) (files : CpuFiles) : CgType → Prop
  | .v1 =>
      files.cpuacctCpuStat ≠ .notRead ∧ (files.cpuacctCpuStat ≠ .notOpened →
        files.cpuacctCpuacctStat ≠ .notRead ∧
          (ReachesUsage files → UsageFits cpuCoresNum files.cpuacctUsageAll))
  | .v2 => files.endsFirst .v2 = false → files.unifiedCpuStat ≠ .notRead

/-- An array of the length that it is allocated with. -/
def CpuObj.Allocated (obj : CpuObj) (cpuCoresNum : UInt32) : CgType → Prop
  | .v1 => obj.usagePerCpus.length = cpuCoresNum.toNat
  | .v2 => True

/-- Such a collection gets through. -/
theorem NoFault.exists_collect {cgType : CgType} {cpuCoresNum : UInt32} {files : CpuFiles}
    {obj : CpuObj} (h : NoFault cpuCoresNum files cgType)
    (hobj : obj.Allocated cpuCoresNum cgType) :
    ∃ part, collectCgroupObjCpuMetrics cgType cpuCoresNum files obj = some part := by
  cases cgType with
  | v1 =>
      obtain ⟨hstat, hrest⟩ := h
      obtain ⟨first, hfirst, hopened⟩ := continues_collectCpuStatV1 hstat obj
      refine exists_andThen hfirst fun hreturned => ?_
      obtain ⟨hgauges, husage⟩ := hrest (hopened.mp hreturned)
      obtain ⟨second, hsecond, hreaches⟩ := continues_collectV1Gauges hgauges first.obj
      refine exists_andThen hsecond fun hreturned => ?_
      have hlength : second.obj.usagePerCpus.length = cpuCoresNum.toNat := by
        have hkeep : (collectV1Gauges files).Leaves usageLength fun _ => False :=
          leaves_collectV1Gauges files
        have hkeep' : (collectCpuStatV1 files.cpuacctCpuStat).Leaves usageLength fun _ => False :=
          leaves_collectCpuStatV1 (fun _ _ => rfl) (fun _ _ => id) _
        exact ((hkeep first.obj second hsecond).1.trans (hkeep' obj first hfirst).1).trans hobj
      obtain ⟨third, hthird⟩ :=
        (exists_collectUsageAll_iff hlength _).mpr (husage (hreaches.mp hreturned))
      refine exists_andThen hthird fun _ => ?_
      obtain ⟨last, hlast, -⟩ := continues_collectV1Usage files third.obj
      exact ⟨last, hlast⟩
  | v2 =>
      obtain ⟨first, hfirst, hcontinues⟩ := continues_collectCpuMax files obj
      refine exists_andThen hfirst fun hreturned => ?_
      exact exists_collectCpuStatV2 (h (hcontinues.mp hreturned)) first.obj

/-! ## Runs -/

section Runs

variable {cgType : CgType} {cpuCoresNum : UInt32}

theorem cpuRun_concat (rounds : List CpuFiles) (files : CpuFiles) :
    cpuRun cgType cpuCoresNum (rounds ++ [files]) =
      (cpuRun cgType cpuCoresNum rounds).bind
        fun st => cpuRound cgType cpuCoresNum st files := by
  rw [cpuRun, List.foldlM_append]
  refine congrArg (Option.bind _) (funext fun st => ?_)
  exact bind_pure (cpuRound cgType cpuCoresNum st files)

/-- A round is a collection, whose calls come behind those before. -/
theorem cpuRound_eq_some_iff {st st' : CpuState} {files : CpuFiles} :
    cpuRound cgType cpuCoresNum st files = some st' ↔
      ∃ part, collectCgroupObjCpuMetrics cgType cpuCoresNum files st.obj = some part ∧
        st' = { obj := part.obj, outputs := st.outputs ++ part.outputs } := by
  rw [cpuRound, Option.bind_eq_bind, Option.bind_eq_some_iff]
  refine exists_congr fun part => and_congr_right fun _ => ?_
  rw [Option.some_inj, eq_comm]

theorem allocated_init :
    (initCgroupObjCpuMetrics cgType cpuCoresNum).Allocated cpuCoresNum cgType := by
  cases cgType with
  | v1 => exact List.length_replicate
  | v2 => trivial

/-- The array keeps its length over a run. -/
theorem allocated_run {rounds : List CpuFiles} {st : CpuState}
    (h : cpuRun cgType cpuCoresNum rounds = some st) : st.obj.Allocated cpuCoresNum cgType := by
  induction rounds using List.reverseRecOn generalizing st with
  | nil =>
      obtain rfl := Option.some.inj h
      exact allocated_init
  | append_singleton rounds files ih =>
      rw [cpuRun_concat] at h
      obtain ⟨st₁, hst₁, hround⟩ := Option.bind_eq_some_iff.mp h
      obtain ⟨part, hpart, rfl⟩ := cpuRound_eq_some_iff.mp hround
      have hlength := length_usagePerCpus hpart
      have hst := ih hst₁
      cases cgType with
      | v1 => exact hlength.trans hst
      | v2 => trivial

/-- What holds in the beginning and is taken on by every round holds behind every run. -/
theorem exists_run {ρ : Type} {files : ρ → CpuFiles} {rounds : List ρ}
    {I : List ρ → CpuObj → List CpuOutput → Prop}
    (hinit : I [] (initCgroupObjCpuMetrics cgType cpuCoresNum) [])
    (hround : ∀ past round, past ++ [round] <+: rounds →
      NoFault cpuCoresNum (files round) cgType ∧
        Takes (I past) (I (past ++ [round]))
          (collectCgroupObjCpuMetrics cgType cpuCoresNum (files round)))
    {past : List ρ} (hpast : past <+: rounds) :
    ∃ st, cpuRun cgType cpuCoresNum (past.map files) = some st ∧ I past st.obj st.outputs := by
  induction past using List.reverseRecOn with
  | nil => exact ⟨_, rfl, hinit⟩
  | append_singleton past round ih =>
      obtain ⟨st, hst, hI⟩ := ih ((List.prefix_append past [round]).trans hpast)
      obtain ⟨hnoFault, htakes⟩ := hround past round hpast
      obtain ⟨part, hpart⟩ := hnoFault.exists_collect (allocated_run hst)
      refine ⟨⟨part.obj, st.outputs ++ part.outputs⟩, ?_, htakes st.obj st.outputs part hI hpart⟩
      rw [List.map_append, List.map_singleton, cpuRun_concat, hst, Option.bind_some]
      exact cpuRound_eq_some_iff.mpr ⟨part, hpart, rfl⟩

end Runs

end XMonitor.Cgroups
