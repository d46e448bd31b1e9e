import XMonitor.Collector.CollectProfiles
import XMonitor.Profile.Chain
import XMonitor.Profile.StackId

/-!
# Telling unwound samples from the others

A sample of the eh_frame unwinder carries the id of its stack in its key, any other sample
carries zero there. `collectProfiles` tells them apart by that field. The id is a hash, and
zero is one of its values: for every choice of the other words there is one first word of a
stack whose id is zero.
-/

namespace XMonitor.Collector

open Profile

/-- The key of `xm_walk_user_stacktrace` for a stack that is in the map. -/
def walkSample (pid : Int32) (eSt : EhframeUserStack) (kernelStackId : Int32)
    (comm : Vector UInt8 16) : XmProfileSample :=
  { pid, kernelStackId, userStackId := -1, ehframeUserStackId := ehframeUserStackId eSt, comm }

/-- The key that a walk has written, if it has recorded a stack. -/
def recordedKey (r : WalkResult) (kernelStackId : Int32) (comm : Vector UInt8 16) :
    Option XmProfileSample :=
  r.sample.map fun (pid, eSt) => walkSample pid eSt kernelStackId comm

/-- `collectProfiles` takes the sample for one of the eh_frame unwinder. -/
def TakenAsEhframe (maps : ProfileMaps) (tf : ProfileTargetFinder) (key : XmProfileSample)
    (data : XmProfileSampleData) : Prop :=
  ∀ psi ∈ (fetchStacks maps tf ([], []) key data).1, psi.ehFrameUserStackId ≠ 0

theorem takenAsEhframe_iff {maps : ProfileMaps} {tf : ProfileTargetFinder}
    {key : XmProfileSample} {data : XmProfileSampleData} :
    TakenAsEhframe maps tf key data ↔ key.ehframeUserStackId ≠ 0 :=
  List.forall_mem_singleton

/-- Whatever a perf event records is symbolized as an unwound stack, unless its first word
is the one with which the hash ends in zero. -/
theorem recorded_taken_as_ehframe_iff (env : Env) (calls : Nat) (pid : Int32)
    (userRegs stackRegs : TaskUserspaceRegs) (kernelStackId : Int32) (comm : Vector UInt8 16)
    (maps : ProfileMaps) (tf : ProfileTargetFinder) (data : XmProfileSampleData) :
    (∀ key ∈ recordedKey (doPerfEvent env calls pid userRegs stackRegs) kernelStackId comm,
      TakenAsEhframe maps tf key data) ↔
    ∀ s ∈ (doPerfEvent env calls pid userRegs stackRegs).sample,
      s.2.word 0 ≠ zeroIdFirstWord s.2 := by
  rw [recordedKey]
  cases (doPerfEvent env calls pid userRegs stackRegs).sample with
  | none => exact iff_of_true nofun nofun
  | some s =>
      simp only [Option.map_some, Option.mem_some_iff, forall_eq', takenAsEhframe_iff, walkSample,
        Ne, ehframeUserStackId_eq_zero_iff]

/-! A stack of two frames whose id is zero. -/

/-- The caller of the first function is a library function. -/
def zeroIdEnv : Env :=
  { chainEnv 0 with
    readUser := fun a => some (if a = 0x7018 then 0x7f12e5d5cc89 else 0) }

def zeroIdRegs : TaskUserspaceRegs := { rip := 0x1004, rsp := 0x7008, rbp := 0x5555 }

def zeroIdStack : EhframeUserStack :=
  { len := 2
    pcLst := Function.update (Function.update (fun _ => 0) 0 0x1004) 1 0x7f12e5d5cc89 }

theorem zeroIdStack_recorded :
    (doPerfEvent zeroIdEnv 33 7 zeroIdRegs {}).sample = some (7, zeroIdStack) := rfl

theorem zeroIdStack_id : ehframeUserStackId zeroIdStack = 0 := by
  decide +kernel

/-- The walk records a stack that is then taken for a missing one. -/
theorem recorded_not_taken_as_ehframe :
    ¬ ∀ env calls pid userRegs stackRegs kernelStackId comm maps tf data,
      ∀ key ∈ recordedKey (doPerfEvent env calls pid userRegs stackRegs) kernelStackId comm,
        TakenAsEhframe maps tf key data := by
  intro hclaim
  have htaken := hclaim zeroIdEnv 33 7 zeroIdRegs {} (-1) (Vector.replicate 16 0)
    { sampleCountMap := ∅, stackMap := ∅, ehframeUserStackMap := ∅ }
    { targets := []
      defaultTarget := { name := "", labels := [], matchType := .none, matchVal := "" } }
    { count := 2, pidNs := 0, pgid := 7 }
    (walkSample 7 zeroIdStack (-1) (Vector.replicate 16 0)) (by
      rw [recordedKey, zeroIdStack_recorded]
      rfl)
  exact takenAsEhframe_iff.mp htaken zeroIdStack_id

end XMonitor.Collector
