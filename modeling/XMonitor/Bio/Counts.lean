import XMonitor.Bio.Stages

/-!
# The counts of a device

`Device` is what the counters of a device stand for: the completions of requests with a
start entry since the exporter last reset them, their bytes, and how many of them start
where the one before ended. The entry of the device never gets there. A completion is
classified, and its bytes are counted, only if the last sector is known; a reset makes it
unknown, so the first completion after it is in the latency slots only.

`run_entry` says what the entry holds: all completions that were recorded since the last
reset, counted one after another.
-/

namespace XMonitor.Bio

open XMonitor Profile

/-- A completion of a request that has a start entry. -/
structure Done where
  nrBytes : UInt32
  /-- It starts where the completion before it on the device ended. -/
  sequential : Bool
  /-- What the programs record of it. -/
  recorded : Option Completion

/-- The completions on a device. -/
structure Device where
  /-- The sector after the last one, if there has been one. -/
  lastEnd : Option UInt64
  /-- Those since the last reset, oldest first. -/
  done : List Done

/-- A request of the device completes that has a start entry. -/
def State.completesOn (s : State) (a : Args) (key : XmBioKey) (rq : UInt64) (req : Request) :
    Bool :=
  (s.requestStart.lookup rq).isSome && (a.bioKey req = some key)

/-- What an event means for a device. -/
def Device.step (a : Args) (key : XmBioKey) (s : State) (d : Device) (e : Event) : Device :=
  match e with
  | .complete rq req _ nrBytes _ _ =>
      if s.completesOn a key rq req then
        { lastEnd := some (req.sector + (nrBytes >>> 9).toUInt64)
          done := d.done ++
            [{ nrBytes
               sequential := d.lastEnd = some req.sector
               recorded := (s.recorded a e).map (·.2) }] }
      else d
  | .reset _ key' => if key = key' then { d with done := [] } else d
  | _ => d

/-- A device next to the programs. -/
def observe (a : Args) (key : XmBioKey) (sd : State × Device) (e : Event) : State × Device :=
  (sd.1.step a e, sd.2.step a key sd.1 e)

/-- The device after a run. -/
def device (a : Args) (key : XmBioKey) (events : List Event) : Device :=
  (events.foldl (observe a key) (State.init, ⟨none, []⟩)).2

/-- The counters of a device, which are zero if it has no entry. -/
def State.entry (s : State) (key : XmBioKey) : XmBioData :=
  (s.bioInfo.lookup key).getD zeroBioInfo

/-- The counters are those of the completions since the last reset. -/
structure XmBioData.Exact (data : XmBioData) (done : List Done) : Prop where
  count : data.sequentialCount.toNat + data.randomCount.toNat = done.length
  latency : ∑ i, (data.reqLatencySlots i).toNat = done.length
  inQueue : ∑ i, (data.reqInQueueLatencySlots i).toNat = done.length
  bytes : data.bytes.toNat = (done.map fun c => c.nrBytes.toNat).sum
  sequential : data.sequentialCount.toNat = done.countP (·.sequential)

/-! ## Entries -/

theorem of_lookupOrTryInit {m m' : BioInfoMap} {key : XmBioKey} {data : XmBioData}
    (h : m.lookupOrTryInit key zeroBioInfo = some (m', data)) :
    data = (m.lookup key).getD zeroBioInfo ∧ m'.HasRoom key ∧
      ∀ key', key' ≠ key → m'.lookup key' = m.lookup key' := by
  rw [BpfHash.lookupOrTryInit] at h
  split at h
  · rename_i data' hdata
    cases h
    exact ⟨by rw [hdata]; rfl, .inl (BpfHash.mem_keys_of_lookup hdata), fun _ _ => rfl⟩
  · rename_i hnone
    obtain ⟨m'', hm'', heq⟩ := Option.map_eq_some_iff.mp h
    cases heq
    refine ⟨by rw [hnone]; rfl, .inl ?_, ?_⟩
    · rw [BpfHash.keys_of_update hm'']
      exact Finset.mem_insert_self key _
    · intro key' hne
      rw [BpfHash.lookup_of_update hm'', if_neg hne]

/-- A completion changes the entry of its device only. -/
theorem lookup_countCompletion (m : BioInfoMap) (key : XmBioKey) (c : Completion)
    (key' : XmBioKey) :
    ((countCompletion key c m).lookup key').getD zeroBioInfo =
      if key' = key ∧ (m.lookupOrTryInit key zeroBioInfo).isSome = true then
        ((m.lookup key').getD zeroBioInfo).count c
      else (m.lookup key').getD zeroBioInfo := by
  rw [countCompletion]
  split
  · rename_i hnone
    rw [if_neg]
    rintro ⟨-, hsome⟩
    rw [hnone] at hsome
    cases hsome
  · rename_i m' data hsome
    obtain ⟨hdata, hroom, hother⟩ := of_lookupOrTryInit hsome
    rw [BpfHash.lookup_put_of_hasRoom hroom]
    by_cases hkey : key' = key
    · subst hkey
      rw [if_pos rfl, if_pos ⟨rfl, by rw [hsome]; rfl⟩, hdata]
      rfl
    · rw [if_neg hkey, if_neg fun h => hkey h.1, hother key' hkey]

/-- A reset entry is zero, or there is none. -/
theorem lookup_resetEntry (partitions : List Partition) (key : XmBioKey) (m : BioInfoMap)
    (key' : XmBioKey) :
    ((resetEntry partitions key m).lookup key').getD zeroBioInfo =
      if key' = key then zeroBioInfo else (m.lookup key').getD zeroBioInfo := by
  rw [resetEntry]
  split
  · split
    · rename_i data hdata
      rw [BpfHash.lookup_put_of_hasRoom (.inl (BpfHash.mem_keys_of_lookup hdata))]
      split <;> rfl
    · rename_i hnone
      split
      · rename_i heq
        rw [heq, hnone]
        rfl
      · rfl
  · rw [BpfHash.lookup_delete]
    split <;> rfl

theorem entry_step_complete (a : Args) (s : State) (key : XmBioKey) (rq : UInt64) (req : Request)
    (error : Int32) (nrBytes : UInt32) (nowNs : UInt64) (reserved : Option EvtData) :
    (s.step a (.complete rq req error nrBytes nowNs reserved)).entry key =
      match s.recorded a (.complete rq req error nrBytes nowNs reserved) with
      | some (key', c) => if key = key' then (s.entry key).count c else s.entry key
      | none => s.entry key := by
  rw [State.entry, step_bioInfo_complete, State.recorded]
  cases s.completion a rq req error nrBytes nowNs with
  | none => rfl
  | some r =>
      obtain ⟨stage, key', c⟩ := r
      simp only [Option.bind_some]
      rw [lookup_countCompletion]
      by_cases hroom : (s.bioInfo.lookupOrTryInit key' zeroBioInfo).isSome = true
      · rw [if_pos hroom]
        by_cases hkey : key = key'
        · rw [if_pos ⟨hkey, hroom⟩]
          exact (if_pos hkey).symm
        · rw [if_neg fun h => hkey h.1]
          exact (if_neg hkey).symm
      · rw [if_neg hroom, if_neg fun h => hroom h.2]
        rfl

theorem entry_step_reset (a : Args) (s : State) (partitions : List Partition)
    (key key' : XmBioKey) :
    (s.step a (.reset partitions key')).entry key =
      if key = key' then zeroBioInfo else s.entry key :=
  lookup_resetEntry partitions key' s.bioInfo key

theorem entry_traceRequest (s : State) (rq : UInt64) (insert : Bool) (nowNs : UInt64)
    (key : XmBioKey) : (traceRequest rq insert nowNs s).entry key = s.entry key := by
  rw [State.entry, State.entry, traceRequest]
  split
  · rfl
  · split <;> rfl

theorem device_concat (a : Args) (key : XmBioKey) (past : List Event) (e : Event) :
    device a key (past ++ [e]) = (device a key past).step a key (run a past) e := by
  have hstate : ∀ (events : List Event) (sd : State × Device),
      (events.foldl (observe a key) sd).1 = events.foldl (State.step a) sd.1 := by
    intro events
    induction events with
    | nil => intro sd; rfl
    | cons x events ih => intro sd; exact ih (observe a key sd x)
  rw [device, List.foldl_concat, observe, hstate]
  rfl

/-- A completion that is recorded is one on its device. -/
theorem completesOn_of_recorded {a : Args} {s : State} {key : XmBioKey} {rq : UInt64}
    {req : Request} {error : Int32} {nrBytes : UInt32} {nowNs : UInt64}
    {reserved : Option EvtData} {c : Completion}
    (h : s.recorded a (.complete rq req error nrBytes nowNs reserved) = some (key, c)) :
    s.completesOn a key rq req = true := by
  obtain ⟨r, hr, hroom⟩ := Option.bind_eq_some_iff.mp h
  obtain ⟨stage, hstage, hr⟩ := Option.bind_eq_some_iff.mp hr
  obtain ⟨latency, -, hr⟩ := Option.bind_eq_some_iff.mp hr
  obtain ⟨key', hkey, rfl⟩ := Option.map_eq_some_iff.mp hr
  split at hroom
  · cases hroom
    simp [State.completesOn, hstage, hkey]
  · cases hroom

/-- The completions of a list that the programs have recorded. -/
def recordedOf (done : List Done) : List Completion := done.filterMap (·.recorded)

theorem recordedOf_step (a : Args) (key : XmBioKey) (s : State) (d : Device) (e : Event)
    (h : s.entry key = (recordedOf d.done).foldl XmBioData.count zeroBioInfo) :
    (s.step a e).entry key =
      (recordedOf (d.step a key s e).done).foldl XmBioData.count zeroBioInfo := by
  cases e with
  | account rq bpd => exact h
  | insert rq nowNs => exact (entry_traceRequest s rq true nowNs key).trans h
  | issue rq nowNs => exact (entry_traceRequest s rq false nowNs key).trans h
  | complete rq req error nrBytes nowNs reserved =>
      rw [entry_step_complete, Device.step]
      cases hrecorded : s.recorded a (.complete rq req error nrBytes nowNs reserved) with
      | none =>
          change s.entry key = _
          split
          · simpa [recordedOf] using h
          · exact h
      | some r =>
          obtain ⟨key', c⟩ := r
          have hon := completesOn_of_recorded hrecorded
          by_cases hkey : key = key'
          · subst hkey
            simp only [if_true, hon]
            rw [recordedOf, List.filterMap_append, List.foldl_append, h]
            rfl
          · have hoff : s.completesOn a key rq req = false := by
              simp only [State.completesOn, Bool.and_eq_true, decide_eq_true_eq] at hon
              simp [State.completesOn, hon.2, Ne.symm hkey]
            simp only [hkey, if_false, hoff, Bool.false_eq_true]
            exact h
  | reset partitions key' =>
      rw [entry_step_reset, Device.step]
      split
      · rfl
      · exact h

/-- The entry of a device has counted the completions that were recorded since the last
reset. -/
theorem run_entry (a : Args) (key : XmBioKey) (events : List Event) :
    (run a events).entry key =
      (recordedOf (device a key events).done).foldl XmBioData.count zeroBioInfo := by
  induction events using List.reverseRecOn with
  | nil => rfl
  | append_singleton past e ih =>
      rw [run_concat, device_concat]
      exact recordedOf_step a key _ _ e ih

/-! ## What is counted -/

theorem updateU64_one_le (res : UInt64) : (updateU64 res 1).toNat ≤ res.toNat + 1 := by
  rw [updateU64]
  split
  · exact Nat.le_add_left 1 _
  · rw [UInt64.toNat_add]
    exact Nat.mod_le _ _

/-- Slots that count one latency of each completion. -/
theorem foldl_count_slots (cs : List Completion) (f : Completion → UInt64)
    (slots : XmBioData → LatencySlots)
    (h : ∀ data c, slots (data.count c) = (slots data).add (latencySlot (f c)))
    (hzero : slots zeroBioInfo = fun _ => 0) :
    slots (cs.foldl XmBioData.count zeroBioInfo) = recordLatencies (cs.map f) := by
  induction cs using List.reverseRecOn with
  | nil => exact hzero
  | append_singleton cs c ih =>
      rw [List.foldl_concat, h, ih, List.map_append, List.map_singleton, recordLatencies_concat]

@[simp] theorem count_reqLatencySlots (data : XmBioData) (c : Completion) :
    (data.count c).reqLatencySlots =
      data.reqLatencySlots.add (slotOf c.latency.completeDelta) := by
  simp only [XmBioData.count, XmBioData.countLatency, XmBioData.countError, XmBioData.countSector]
  split <;> split <;> first | rfl | (split <;> rfl)

@[simp] theorem count_reqInQueueLatencySlots (data : XmBioData) (c : Completion) :
    (data.count c).reqInQueueLatencySlots =
      data.reqInQueueLatencySlots.add (slotOf c.latency.inQueueDelta) := by
  simp only [XmBioData.count, XmBioData.countLatency, XmBioData.countError, XmBioData.countSector]
  split <;> split <;> first | rfl | (split <;> rfl)

/-- The latency slots count every completion that was recorded since the last reset. -/
theorem run_reqLatencySlots (a : Args) (key : XmBioKey) (events : List Event) :
    ((run a events).entry key).reqLatencySlots = recordLatencies
      ((recordedOf (device a key events).done).map fun c =>
        UInt64.ofNat c.latency.completeDelta.toNat) := by
  rw [run_entry]
  exact foldl_count_slots _ _ XmBioData.reqLatencySlots count_reqLatencySlots rfl

theorem run_reqInQueueLatencySlots (a : Args) (key : XmBioKey) (events : List Event) :
    ((run a events).entry key).reqInQueueLatencySlots = recordLatencies
      ((recordedOf (device a key events).done).map fun c =>
        UInt64.ofNat c.latency.inQueueDelta.toNat) := by
  rw [run_entry]
  exact foldl_count_slots _ _ XmBioData.reqInQueueLatencySlots count_reqInQueueLatencySlots rfl

@[simp] theorem count_sequentialCount (data : XmBioData) (c : Completion) :
    (data.count c).sequentialCount = (data.countSector c).sequentialCount := by
  simp only [XmBioData.count, XmBioData.countLatency, XmBioData.countError]
  split <;> rfl

@[simp] theorem count_randomCount (data : XmBioData) (c : Completion) :
    (data.count c).randomCount = (data.countSector c).randomCount := by
  simp only [XmBioData.count, XmBioData.countLatency, XmBioData.countError]
  split <;> rfl

/-- The number of completions that are classified. -/
def XmBioData.total (data : XmBioData) : Nat :=
  data.sequentialCount.toNat + data.randomCount.toNat

theorem total_count_le (data : XmBioData) (c : Completion) :
    (data.count c).total ≤ data.total + 1 ∧
      (data.lastSector = 0 → (data.count c).total = data.total) := by
  rw [XmBioData.total, XmBioData.total, count_sequentialCount, count_randomCount,
    XmBioData.countSector]
  split
  · rename_i hlast
    refine ⟨?_, fun hzero => absurd hzero hlast⟩
    split
    · have hle := updateU64_one_le data.sequentialCount
      dsimp only
      omega
    · have hle := updateU64_one_le data.randomCount
      dsimp only
      omega
  · exact ⟨Nat.le_succ _, fun _ => rfl⟩

/-- The first completion after a reset is not classified. -/
theorem total_foldl_lt {cs : List Completion} (h : cs ≠ []) :
    (cs.foldl XmBioData.count zeroBioInfo).total < cs.length := by
  cases cs with
  | nil => exact absurd rfl h
  | cons c cs =>
      have hrest : ∀ (cs : List Completion) (data : XmBioData),
          (cs.foldl XmBioData.count data).total ≤ data.total + cs.length := by
        intro cs
        induction cs with
        | nil => intro data; exact Nat.le_refl _
        | cons c' cs ih =>
            intro data
            have hone := (total_count_le data c').1
            have htail := ih (data.count c')
            rw [List.foldl_cons, List.length_cons]
            omega
      have hfirst : (zeroBioInfo.count c).total = 0 := (total_count_le zeroBioInfo c).2 rfl
      have hle := hrest cs (zeroBioInfo.count c)
      rw [List.foldl_cons, List.length_cons]
      omega

/-- The counters of a device are exact as long as no request of it has completed since its
last reset. -/
theorem entry_exact_iff (a : Args) (key : XmBioKey) (events : List Event) :
    ((run a events).entry key).Exact (device a key events).done ↔
      (device a key events).done = [] := by
  rw [run_entry]
  constructor
  · intro hexact
    by_contra hdone
    have hcount := hexact.count
    rw [← XmBioData.total] at hcount
    have hlen :
        (recordedOf (device a key events).done).length ≤ (device a key events).done.length :=
      List.length_filterMap_le _ _
    by_cases hnil : recordedOf (device a key events).done = []
    · rw [hnil] at hcount
      exact hdone (List.length_eq_zero_iff.mp hcount.symm)
    · have hlt := total_foldl_lt hnil
      omega
  · intro hdone
    rw [hdone]
    exact ⟨rfl, by simp [recordedOf, zeroBioInfo], by simp [recordedOf, zeroBioInfo], rfl, rfl⟩

/-- The first request of a disk is in the latency slots and in no other counter. -/
theorem first_request_not_counted :
    ¬ ((run allFlags twoRequests).entry ⟨8, 0, 0⟩).Exact
      (device allFlags ⟨8, 0, 0⟩ twoRequests).done := by
  rw [entry_exact_iff]
  intro hdone
  cases hdone

end XMonitor.Bio
