import XMonitor.Bio.Counts
import XMonitor.Sched.CpuSched

/-!
# The histograms that are exported

`bioProgram.Update` sends two histograms for each entry that it reads. The goroutine of the
scheduler program keeps the histogram of the last round. Both write into buckets that still
hold the counts of the histogram before.
-/

namespace XMonitor.Bio

open XMonitor Sched

/-- The histograms of a device. -/
structure DeviceHistograms where
  key : XmBioKey
  inQueue : Histogram
  latency : Histogram

/-- The loop of `bioProgram.Update` over the entries, as far as it sends histograms. -/
def sendHistograms (latencyBuckets : Nat → Option UInt64) :
    List (XmBioKey × XmBioData) → List DeviceHistograms
  | [] => []
  | (key, data) :: entries =>
      let inQueue := latencyHistogram latencyBuckets data.reqInQueueLatencySlots
      let latency := latencyHistogram inQueue.buckets data.reqLatencySlots
      { key, inQueue, latency } :: sendHistograms latency.buckets entries

/-- The buckets of an exporter before its first histogram. -/
def noBuckets (_ : Nat) : Option UInt64 := none

def updateHistograms (entries : List (XmBioKey × XmBioData)) : List DeviceHistograms :=
  sendHistograms noBuckets entries

/-- A round of `cpuSchedProgram.handlingeBPFData` that has found a histogram. -/
def gatherRunqlat (csp : Histogram) (histogram : RunqlatHist) : Histogram :=
  latencyHistogram csp.buckets histogram

/-- The histogram of the scheduler program after some rounds. -/
def gatherRounds (rounds : List RunqlatHist) : Histogram :=
  rounds.foldl gatherRunqlat ⟨0, noBuckets⟩

/-- The programs of the scheduler count in slots as the others do. -/
theorem runqlatHist_add (hist : RunqlatHist) (us : Int) :
    hist.add (runqlatSlot us) = LatencySlots.add hist (latencySlot (UInt64.ofNat us.toNat)) := rfl

theorem onTable_noBuckets : OnTable noBuckets := by
  intro b hb
  cases hb

theorem onTable_latencyHistogram {latencyBuckets : Nat → Option UInt64}
    (h : OnTable latencyBuckets) (slots : LatencySlots) :
    OnTable (latencyHistogram latencyBuckets slots).buckets :=
  fun b hb => (isSome_bucket_iff h slots b).mp hb

/-- A histogram has the same counts whatever was there before. -/
theorem latencyHistogram_eq {latencyBuckets : Nat → Option UInt64} (h : OnTable latencyBuckets)
    (slots : LatencySlots) :
    latencyHistogram latencyBuckets slots = latencyHistogram noBuckets slots := by
  apply latencyHistogram_congr
  intro b hb
  cases hcount : latencyBuckets b with
  | none => rfl
  | some count =>
      obtain ⟨i, hi⟩ := h b (by rw [hcount]; rfl)
      exact absurd hi (hb i)

/-- Nothing of one entry gets into the histograms of another. -/
theorem sendHistograms_eq {latencyBuckets : Nat → Option UInt64} (h : OnTable latencyBuckets)
    (entries : List (XmBioKey × XmBioData)) :
    sendHistograms latencyBuckets entries = entries.map fun entry =>
      { key := entry.1
        inQueue := latencyHistogram noBuckets entry.2.reqInQueueLatencySlots
        latency := latencyHistogram noBuckets entry.2.reqLatencySlots } := by
  induction entries generalizing latencyBuckets with
  | nil => rfl
  | cons entry entries ih =>
      have hinQueue := onTable_latencyHistogram h entry.2.reqInQueueLatencySlots
      rw [sendHistograms, ih (onTable_latencyHistogram hinQueue _), latencyHistogram_eq hinQueue,
        latencyHistogram_eq h]
      rfl

theorem gatherRounds_concat (rounds : List RunqlatHist) (histogram : RunqlatHist) :
    gatherRounds (rounds ++ [histogram]) = latencyHistogram noBuckets histogram := by
  have htable : OnTable (gatherRounds rounds).buckets := by
    induction rounds using List.reverseRecOn with
    | nil => exact onTable_noBuckets
    | append_singleton rounds histogram' ih =>
        rw [gatherRounds, List.foldl_concat]
        exact onTable_latencyHistogram ih histogram'
  rw [gatherRounds, List.foldl_concat]
  exact latencyHistogram_eq htable histogram

/-- The histograms of both exporters describe the latencies that were recorded. -/
theorem exported_describe (rounds : List RunqlatHist) (runqlat : List UInt64)
    (before after : List (XmBioKey × XmBioData)) (key : XmBioKey) (data : XmBioData)
    (inQueue latency : List UInt64) :
    (gatherRounds (rounds ++ [recordLatencies runqlat])).Describes runqlat ∧
      ∃ sent, (updateHistograms (before ++ (key, { data with
          reqInQueueLatencySlots := recordLatencies inQueue
          reqLatencySlots := recordLatencies latency }) :: after))[before.length]? = some sent ∧
        sent.key = key ∧ sent.inQueue.Describes inQueue ∧ sent.latency.Describes latency := by
  refine ⟨?_, ?_⟩
  · rw [gatherRounds_concat]
    exact latencyHistogram_describes onTable_noBuckets runqlat
  · rw [updateHistograms, sendHistograms_eq onTable_noBuckets]
    refine ⟨_, by simp; rfl, rfl, ?_, ?_⟩
    · exact latencyHistogram_describes onTable_noBuckets inQueue
    · exact latencyHistogram_describes onTable_noBuckets latency

/-- A latency above the last bucket is in it nevertheless. -/
theorem long_latency_not_exact :
    ¬ (gatherRounds [recordLatencies [1048576]]).Exact [1048576] := by
  have hdescribes := latencyHistogram_describes onTable_noBuckets [1048576]
  rw [← gatherRounds_concat []] at hdescribes
  have hfit : SlotsFit [1048576] := by decide
  intro hexact
  exact absurd ((hdescribes.exact_iff hfit).mp hexact 1048576 (by simp)) (by decide)

/-- The histogram of a device describes the latencies of its completions. -/
theorem run_histograms (a : Args) (events : List Event) (key : XmBioKey) :
    ∃ sent, updateHistograms [(key, (run a events).entry key)] = [sent] ∧
      sent.inQueue.Describes ((recordedOf (device a key events).done).map fun c =>
        UInt64.ofNat c.latency.inQueueDelta.toNat) ∧
      sent.latency.Describes ((recordedOf (device a key events).done).map fun c =>
        UInt64.ofNat c.latency.completeDelta.toNat) := by
  rw [updateHistograms, sendHistograms_eq onTable_noBuckets]
  refine ⟨_, rfl, ?_, ?_⟩
  · change (latencyHistogram noBuckets _).Describes _
    rw [run_reqInQueueLatencySlots]
    exact latencyHistogram_describes onTable_noBuckets _
  · change (latencyHistogram noBuckets _).Describes _
    rw [run_reqLatencySlots]
    exact latencyHistogram_describes onTable_noBuckets _

end XMonitor.Bio
