import XMonitor.Lib.CounterMap

/-!
# Counting samples

Both programs of the profiler end alike. Once a sample has its key, it is looked up
in `xm_profile_sample_count_map` or inserted there with `__init_psd`, and its count is
incremented atomically. Perf events arrive on all processors, and these operations
interleave in any order.

`__init_psd` has a count of one already, and the event that inserts it increments it
as well. As long as nothing is deleted and the map has room, every count is therefore
one more than the number of its events.
-/

namespace XMonitor.Collector

/-- `struct xm_profile_sample`, the key of the count map. -/
structure XmProfileSample where
  pid : Int32
  kernelStackId : Int32
  userStackId : Int32
  ehframeUserStackId : UInt32
  comm : Vector UInt8 16
deriving DecidableEq

def MAX_THREAD_COUNT : Nat := 10240

/-- The count of `__init_psd`. -/
def initPsdCount : BitVec 32 := 1

/-- The processors, `xm_profile_sample_count_map` and the cells of its values. -/
abbrev SampleState := CounterMap.State Nat XmProfileSample 32 MAX_THREAD_COUNT

abbrev SampleEvent := CounterMap.Event Nat XmProfileSample

/-- A perf event with the key `ps` arrives at the processor, which calls
`__xm_bpf_map_lookup_or_try_init` and `__sync_fetch_and_add`; or a processor runs the
next operation of these. -/
def sampleStep : SampleState → SampleEvent → SampleState :=
  CounterMap.State.step initPsdCount

def sampleRun (events : List SampleEvent) : SampleState :=
  CounterMap.run initPsdCount events

/-- The count that the map shows for a sample, zero if there is none. -/
def sampleCount (s : SampleState) (ps : XmProfileSample) : Nat :=
  (s.map.lookup ps).elim 0 fun cell => (s.count cell).toNat

/-- Every sample is counted once for each of its events. -/
def CountsExact (s : SampleState) : Prop :=
  ∀ ps, sampleCount s ps = s.handled ps

/-- An insertion finds room in the map. -/
def SampleRoom : SampleState → SampleEvent → Prop :=
  CounterMap.HasRoom

/-- A count in the map is one too large. -/
theorem sampleCount_of_lookup {s : SampleState} (h : CounterMap.Exact initPsdCount s)
    {ps : XmProfileSample} {cell : Nat} (hcell : s.map.lookup ps = some cell) :
    sampleCount s ps = (s.handled ps + 1) % 2 ^ 32 := by
  have hcount := h.count ps cell hcell
  have hinit : initPsdCount.toNat = 1 := rfl
  simp only [sampleCount, hcell, Option.elim_some, hcount, BitVec.toNat_add, hinit,
    BitVec.toNat_ofNat]
  omega

theorem sampleCount_ne {s : SampleState} (h : CounterMap.Exact initPsdCount s)
    {ps : XmProfileSample} {cell : Nat} (hcell : s.map.lookup ps = some cell) :
    sampleCount s ps ≠ s.handled ps := by
  rw [sampleCount_of_lookup h hcell]
  omega

theorem countsExact_iff_lookup {s : SampleState} (h : CounterMap.Exact initPsdCount s) :
    CountsExact s ↔ ∀ ps, s.map.lookup ps = none := by
  constructor
  · intro hexact ps
    cases hcell : s.map.lookup ps with
    | none => rfl
    | some cell => exact absurd (hexact ps) (sampleCount_ne h hcell)
  · intro hempty ps
    rw [sampleCount, hempty ps, h.absent ps (BpfHash.lookup_eq_none_iff.mp (hempty ps))]
    rfl

/-- When all processors are idle again, the counts are exact only if there was no perf
event at all. -/
theorem countsExact_iff (events : List SampleEvent)
    (hroom : EventRun.AllSteps sampleStep SampleRoom {} events)
    (hidle : ∀ cpu, (sampleRun events).phase cpu = .idle) :
    CountsExact (sampleRun events) ↔ ∀ cpu ps, CounterMap.Event.arrive cpu ps ∉ events := by
  have h : CounterMap.Exact initPsdCount (sampleRun events) := CounterMap.exact_run hroom
  have harrive := CounterMap.exists_handled_iff hidle
  constructor
  · intro hexact cpu ps hmem
    obtain ⟨ps', hhandled⟩ := harrive.mpr ⟨cpu, ps, hmem⟩
    have hnone := (countsExact_iff_lookup h).mp hexact ps'
    exact Nat.ne_of_gt hhandled (h.absent ps' (BpfHash.lookup_eq_none_iff.mp hnone))
  · intro hnone
    rw [sampleRun, CounterMap.run, CounterMap.foldl_eq_self (fun _ => rfl) hnone]
    intro ps
    rfl

/-- The sample of a process without any stack. -/
def bareSample (pid : Int32) : XmProfileSample :=
  { pid, kernelStackId := -1, userStackId := -1, ehframeUserStackId := 0
    comm := Vector.replicate 16 0 }

/-- One perf event, handled on one processor. -/
def oneSample (cpu fresh : Nat) (ps : XmProfileSample) : List SampleEvent :=
  [.arrive cpu ps, .advance cpu fresh, .advance cpu fresh, .advance cpu fresh,
    .advance cpu fresh]

theorem oneSample_room :
    EventRun.AllSteps sampleStep SampleRoom {} (oneSample 0 0 (bareSample 7)) := by
  refine ⟨trivial, ?_, ?_, ?_, ?_, trivial⟩
  · rintro k ⟨⟩
  · intro k _ _
    decide
  · rintro k ⟨⟩
  · rintro k ⟨⟩

theorem oneSample_idle (cpu : Nat) :
    (sampleRun (oneSample 0 0 (bareSample 7))).phase cpu = .idle := by
  have hphase : (sampleRun (oneSample 0 0 (bareSample 7))).phase =
      Function.update (Function.update (Function.update (Function.update (Function.update
        (fun _ => .idle) 0 _) 0 _) 0 _) 0 _) 0 .idle := rfl
  rw [hphase]
  simp only [Function.update_idem]
  exact congrFun (Function.update_eq_self 0 _) cpu

theorem one_sample_inexact : CountsExact (sampleRun (oneSample 0 0 (bareSample 7))) ↔
    ∀ cpu ps, CounterMap.Event.arrive cpu ps ∉ oneSample 0 0 (bareSample 7) :=
  countsExact_iff _ oneSample_room oneSample_idle

/-- One event is counted twice. -/
theorem one_sample_counted_twice :
    EventRun.AllSteps sampleStep SampleRoom {} (oneSample 0 0 (bareSample 7)) ∧
      (∀ cpu, (sampleRun (oneSample 0 0 (bareSample 7))).phase cpu = .idle) ∧
      ¬ CountsExact (sampleRun (oneSample 0 0 (bareSample 7))) := by
  refine ⟨oneSample_room, oneSample_idle, fun hexact => ?_⟩
  have htwo : 2 = 1 := hexact (bareSample 7)
  cases htwo

end XMonitor.Collector
