import XMonitor.Bio.Export
import XMonitor.Gather.CacheStat

/-!
# The run queue latencies

A program in the kernel counts the time that tasks wait on a run queue in the slots of a
histogram, the only element of `xm_cs_runqlat_hists_map`. Every interval the exporter looks the
histogram up, deletes it, and computes the buckets from what it has read.

As for the page cache, what comes between the lookup and the deletion is lost, and so is an
addition to a histogram that has been deleted. `no_increment_lost` puts both programs together.
-/

namespace XMonitor.Gather

/-- The processors and `xm_cs_runqlat_hists_map`. -/
abbrev RunqlatHists := ElementCounters.State Nat UInt32 (Fin 20) 32 1

/-- What happens in the kernel: `__statistics_runqlat` looks up or inserts the histogram for a
latency in microseconds, or adds one to the slot. -/
inductive RunqlatProbe
  | lookupOrTryInit (cpu : Nat) (us : Int) (fresh : Nat)
  | fetchAndAdd (cpu : Nat)

def RunqlatProbe.event : RunqlatProbe → ElementCounters.Event Nat UInt32 (Fin 20)
  | .lookupOrTryInit cpu us fresh =>
      .lookupOrInit cpu Sched.histKey (Sched.runqlatSlot us) fresh
  | .fetchAndAdd cpu => .add cpu

/-- The histogram as the exporter reads it. -/
def readSlots (v : Fin 20 → BitVec 32) : LatencySlots := fun i => ⟨v i⟩

/-- Where `handlingeBPFData` is: between two rounds, past the lookup, or past the deletion. -/
inductive RunqlatRound
  | waiting
  | found (histogram : Fin 20 → BitVec 32)
  | deleted (histogram : Fin 20 → BitVec 32)

/-- The variables of the gather routine, and as history the histograms that the completed rounds
have taken. -/
structure RunqlatState where
  kernel : RunqlatHists := {}
  histogram : Histogram := ⟨0, Bio.noBuckets⟩
  round : RunqlatRound := .waiting
  rounds : List (Fin 20 → BitVec 32) := []

inductive RunqlatEvent
  /-- A processor does something. -/
  | kernel (e : RunqlatProbe)
  /-- `XmCsRunqlatHistsMap.Lookup`, with an error other than a missing key or none. -/
  | lookup (err : Bool)
  /-- `XmCsRunqlatHistsMap.Delete`, with an error or none. -/
  | delete (err : Bool)
  /-- The buckets are computed. -/
  | finish

/-- A step of `handlingeBPFData`, or of a processor. -/
def runqlatStep (s : RunqlatState) : RunqlatEvent → RunqlatState
  | .kernel e => { s with kernel := s.kernel.step e.event }
  | .lookup err =>
      match s.round, s.kernel.read Sched.histKey with
      | .waiting, some histogram => if err then s else { s with round := .found histogram }
      | _, _ => s
  | .delete err =>
      match s.round with
      | .found histogram =>
          -- an error is logged, and the histogram is used all the same
          { s with
            kernel := if err then s.kernel else s.kernel.delete Sched.histKey
            round := .deleted histogram }
      | _ => s
  | .finish =>
      match s.round with
      | .deleted histogram =>
          { s with
            histogram := Bio.gatherRunqlat s.histogram (readSlots histogram)
            round := .waiting
            rounds := s.rounds ++ [histogram] }
      | _ => s

/-- The buckets are those of the rounds that are complete. -/
theorem runqlat_histogram (events : List RunqlatEvent) :
    (events.foldl runqlatStep {}).histogram =
      Bio.gatherRounds ((events.foldl runqlatStep {}).rounds.map readSlots) := by
  refine EventRun.foldl_preserves
    (I := fun s : RunqlatState => s.histogram = Bio.gatherRounds (s.rounds.map readSlots))
    (fun s e hs => ?_) rfl events
  cases e with
  | kernel e => exact hs
  | lookup err =>
      rw [runqlatStep]
      split
      · split_ifs
        · exact hs
        · exact hs
      · exact hs
  | delete err =>
      rw [runqlatStep]
      split
      · exact hs
      · exact hs
  | finish =>
      rw [runqlatStep]
      split
      · rw [List.map_append, Bio.gatherRounds, List.foldl_append, ← Bio.gatherRounds, ← hs]
        rfl
      · exact hs

/-- Nothing comes between the lookup of the histogram and its deletion: the deletion finds the
histogram that has been read, and a processor adds to a histogram that is still in the map and
does not wrap around. -/
def RunqlatState.Undisturbed (s : RunqlatState) : RunqlatEvent → Prop
  | .kernel e => ElementCounters.Lands s.kernel e.event
  | .delete err => ∀ histogram, s.round = .found histogram →
      err = false ∧ s.kernel.read Sched.histKey = some histogram
  | _ => True

/-- What the running round has already taken out of the map. -/
def RunqlatRound.deletedSoFar : RunqlatRound → Fin 20 → Nat
  | .deleted histogram => fun slot => (histogram slot).toNat
  | _ => fun _ => 0

/-- The counts that the completed rounds have taken. -/
def RunqlatState.roundsTaken (s : RunqlatState) (key : UInt32) (slot : Fin 20) : Nat :=
  if key = Sched.histKey then (s.rounds.map fun histogram => (histogram slot).toNat).sum else 0

/-- What all rounds have taken out of the map. -/
def RunqlatState.taken (s : RunqlatState) (key : UInt32) (slot : Fin 20) : Nat :=
  s.roundsTaken key slot + if key = Sched.histKey then s.round.deletedSoFar slot else 0

/-- What the kernel has added to each slot was taken by a completed round or is in the map. -/
def RunqlatState.Exact (s : RunqlatState) : Prop :=
  ∀ key slot, s.kernel.added key slot = s.roundsTaken key slot + s.kernel.stored key slot

def RunqlatState.Balanced (s : RunqlatState) : Prop :=
  ElementCounters.Balanced s.kernel s.taken

variable {s : RunqlatState}

/-- A step that takes nothing out of the map. -/
theorem RunqlatState.Balanced.congr {s' : RunqlatState} (h : s.Balanced)
    (hkernel : s'.kernel = s.kernel) (htaken : s'.taken = s.taken) : s'.Balanced := by
  rw [RunqlatState.Balanced, hkernel, htaken]
  exact h

/-- The deletion moves the histogram from the map to the round. -/
theorem RunqlatState.Balanced.delete (h : s.Balanced) {histogram : Fin 20 → BitVec 32}
    (hround : s.round = .found histogram)
    (hread : s.kernel.read Sched.histKey = some histogram) :
    (runqlatStep s (.delete false)).Balanced := by
  have hstep : runqlatStep s (.delete false) =
      { s with kernel := s.kernel.delete Sched.histKey, round := .deleted histogram } := by
    simp only [runqlatStep, hround]
    rfl
  have htaken : RunqlatState.taken
      { s with kernel := s.kernel.delete Sched.histKey, round := .deleted histogram } =
      ElementCounters.credit s.taken Sched.histKey histogram := by
    funext key slot
    rw [ElementCounters.credit]
    by_cases hkey : key = Sched.histKey
    · rw [hkey, Function.update_self, RunqlatState.taken, RunqlatState.taken, if_pos rfl,
        if_pos rfl, hround]
      rfl
    · rw [Function.update_of_ne hkey, RunqlatState.taken, RunqlatState.taken, if_neg hkey,
        if_neg hkey]
      rfl
  rw [hstep, RunqlatState.Balanced, htaken]
  exact ElementCounters.Balanced.delete h hread

theorem RunqlatState.Balanced.step (h : s.Balanced) {e : RunqlatEvent} (hcalm : s.Undisturbed e) :
    (runqlatStep s e).Balanced := by
  cases e with
  | kernel e => exact ElementCounters.Balanced.step h hcalm
  | lookup err =>
      rw [runqlatStep]
      split
      · rename_i histogram hround _
        split_ifs
        · exact h
        · refine h.congr rfl ?_
          funext key slot
          simp only [RunqlatState.taken, hround, RunqlatRound.deletedSoFar]
          rfl
      · exact h
  | delete err =>
      cases hround : s.round with
      | found histogram =>
          obtain ⟨rfl, hread⟩ := hcalm histogram hround
          exact h.delete hround hread
      | waiting | deleted _ =>
          rw [runqlatStep, hround]
          exact h
  | finish =>
      rw [runqlatStep]
      split
      · rename_i histogram hround
        refine h.congr rfl ?_
        funext key slot
        simp only [RunqlatState.taken, RunqlatState.roundsTaken, hround,
          RunqlatRound.deletedSoFar]
        split_ifs
        · rw [List.map_append, List.sum_append]
          rfl
        · rfl
      · exact h

theorem RunqlatState.balanced_initial : ({} : RunqlatState).Balanced := by
  have htaken : ({} : RunqlatState).taken = fun _ _ => 0 := by
    funext key slot
    rw [RunqlatState.taken, RunqlatState.roundsTaken]
    split_ifs <;> rfl
  rw [RunqlatState.Balanced, htaken]
  exact ElementCounters.balanced_initial

/-- Between two rounds of a run whose rounds are not disturbed, no addition is lost. -/
theorem runqlat_exact {events : List RunqlatEvent}
    (hcalm : EventRun.AllSteps runqlatStep RunqlatState.Undisturbed {} events)
    {past : List RunqlatEvent} (hpast : past <+: events)
    (hround : (past.foldl runqlatStep {}).round = .waiting) :
    (past.foldl runqlatStep {}).Exact := by
  have hbalanced : (past.foldl runqlatStep {}).Balanced :=
    EventRun.foldl_invariant (I := RunqlatState.Balanced) (fun _ _ hs he => hs.step he)
      RunqlatState.balanced_initial hcalm hpast
  intro key slot
  have hadded := hbalanced.added key slot
  rw [RunqlatState.taken, hround] at hadded
  simpa [RunqlatRound.deletedSoFar] using hadded

/-- Between two rounds that are not disturbed, what the kernel has added is in the counts of the
completed rounds or in the map, for each key and each slot. -/
theorem no_increment_lost (findKsym : UInt64 → Option PageCacheOp)
    (cacheStatEvents : List CacheStatEvent) (runqlatEvents : List RunqlatEvent) :
    (EventRun.AllSteps (cacheStatStep findKsym) (fun s e => s.Undisturbed findKsym e) {}
        cacheStatEvents →
      ∀ past, past <+: cacheStatEvents →
        (past.foldl (cacheStatStep findKsym) {}).round = .waiting →
        (past.foldl (cacheStatStep findKsym) {}).Exact) ∧
    (EventRun.AllSteps runqlatStep RunqlatState.Undisturbed {} runqlatEvents →
      ∀ past, past <+: runqlatEvents → (past.foldl runqlatStep {}).round = .waiting →
        (past.foldl runqlatStep {}).Exact) := by
  constructor
  · intro hcalm past hpast hround
    exact cacheStat_exact hcalm hpast hround
  · intro hcalm past hpast hround
    exact runqlat_exact hcalm hpast hround

/-! ## Runs -/

def markPageAccessedIp : UInt64 := 0xffffffff81200001

def ksymTable (ip : UInt64) : Option PageCacheOp :=
  if ip = markPageAccessedIp then some .markPageAccessed else none

/-- One call of the function, counted on processor 0. -/
def oneAccess (fresh : Nat) : List CacheStatEvent :=
  [.kernel (.lookupOrInit 0 markPageAccessedIp () fresh), .kernel (.add 0)]

/-- A round that reads and resets one count, with `between` happening in between. -/
def cacheStatWith (between : List CacheStatEvent) : List CacheStatEvent :=
  oneAccess 0 ++ [.iterate, .next markPageAccessedIp, .done false] ++ between ++
    [.update false 1, .finish]

/-- One latency of three microseconds, counted on processor 0. -/
def oneLatency (fresh : Nat) : List RunqlatEvent :=
  [.kernel (.lookupOrTryInit 0 3 fresh), .kernel (.fetchAndAdd 0)]

/-- A round that looks up and deletes the histogram, with `between` happening in between. -/
def runqlatWith (between : List RunqlatEvent) : List RunqlatEvent :=
  oneLatency 0 ++ [.lookup false] ++ between ++ [.delete false, .finish]

theorem no_increment_lost_calm :
    ((cacheStatWith []).foldl (cacheStatStep ksymTable) {}).Exact ∧
      ((runqlatWith []).foldl runqlatStep {}).Exact := by
  obtain ⟨hcacheStat, hrunqlat⟩ :=
    no_increment_lost ksymTable (cacheStatWith []) (runqlatWith [])
  constructor
  · refine hcacheStat ?_ _ (List.prefix_refl _) rfl
    refine ⟨trivial, ?_, trivial, trivial, trivial, ?_, trivial, trivial⟩
    · rintro held ⟨⟩
      decide
    · rintro done ip todo ⟨⟩
      exact ⟨rfl, rfl⟩
  · refine hrunqlat ?_ _ (List.prefix_refl _) rfl
    refine ⟨trivial, ?_, trivial, ?_, trivial, trivial⟩
    · rintro held ⟨⟩
      decide
    · rintro histogram ⟨⟩
      exact ⟨rfl, rfl⟩

/-- An addition between the read of a count and its reset is lost, and so is one between the
lookup of the histogram and its deletion. -/
theorem increments_lost :
    (((cacheStatWith (oneAccess 2)).foldl (cacheStatStep ksymTable) {}).round = .waiting ∧
      ¬((cacheStatWith (oneAccess 2)).foldl (cacheStatStep ksymTable) {}).Exact) ∧
    ((runqlatWith (oneLatency 2)).foldl runqlatStep {}).round = .waiting ∧
      ¬((runqlatWith (oneLatency 2)).foldl runqlatStep {}).Exact := by
  refine ⟨⟨rfl, fun hexact => ?_⟩, rfl, fun hexact => ?_⟩
  · have htwo : 2 = 1 := hexact markPageAccessedIp
    cases htwo
  · have htwo : 2 = 1 := hexact Sched.histKey 1
    cases htwo

end XMonitor.Gather
