import XMonitor.Events.ProcessExit
import XMonitor.Lib.SelectLoop

/-!
# The metrics of one scrape of the scheduler

`cpuSchedProgram.Update` sends a histogram and then takes the events from its channel. A time off
the CPU is sent once for each process, which a filter remembers until the end of the call. A hung
task has labels for its process too, and is sent for each event. The exit of a process is
published and sends nothing.

A scrape must not carry two metrics with the same descriptor and the same labels.
-/

namespace XMonitor.Sched

/-- The descriptors of the program. -/
inductive Desc where
  | runQueueLatency
  | offCPUDuration
  | hungTask
deriving DecidableEq

/-- A value of a label, a formatted number or a text. -/
inductive Label where
  | int (n : Int)
  | text (s : CString)
deriving DecidableEq

structure Metric where
  desc : Desc
  value : Int
  labels : List Label
deriving DecidableEq

/-- What tells a metric from the others of a scrape. -/
def Metric.series (m : Metric) : Desc × List Label := (m.desc, m.labels)

/-- The arguments of a program in the configuration. -/
structure ProgramArgs where
  filterScopeType : CString
  filterScopeValue : Int
  includeComms : List CString := []
  excludeComms : List CString := []

/-- `config.ProgramCommFilter`, for a program that is in the configuration. -/
def ProgramArgs.commFilter (args : ProgramArgs) (comm : CString) : Bool :=
  if args.includeComms ≠ [] then args.includeComms.contains comm
  else if args.excludeComms ≠ [] then !args.excludeComms.contains comm
  else true

/-- The labels of the scope, which all metrics of the program end with. -/
def ProgramArgs.scope (args : ProgramArgs) : List Label :=
  [.text args.filterScopeType, .int args.filterScopeValue]

/-- `cpuSchedProgram` with the metrics that have been sent to the channel of the scrape, and the
events that have been published. -/
structure CpuSchedProgram where
  sampleCount : UInt64
  metricsUpdateFilter : List UInt32 := []
  sent : List Metric := []
  published : List (EventCenter.EBPFEventInfo ProcessExit.EBPFEventProcessExit) := []

def runqlatMetric (args : ProgramArgs) (csp : CpuSchedProgram) : Metric where
  desc := .runQueueLatency
  value := csp.sampleCount.toNat
  labels := args.scope

def offcpuMetric (args : ProgramArgs) (evtData : EvtData) : Metric where
  desc := .offCPUDuration
  value := doubleOfUInt64 evtData.offcpuDurationMillsecs
  labels := [.int evtData.tid.toInt32.toInt, .int evtData.pid.toInt32.toInt,
    .text evtData.comm] ++ args.scope

def hungTaskMetric (args : ProgramArgs) (evtData : EvtData) : Metric where
  desc := .hungTask
  value := evtData.pid.toInt32.toInt
  labels := [.int evtData.pid.toInt32.toInt, .text evtData.comm] ++ args.scope

def CpuSchedProgram.send (csp : CpuSchedProgram) (m : Metric) : CpuSchedProgram :=
  { csp with sent := csp.sent ++ [m] }

/-- The body of the loop of `Update`. -/
def handleEvt (args : ProgramArgs) (csp : CpuSchedProgram) (evtData : EvtData) : CpuSchedProgram :=
  match evtData.evtType with
  | .offcpu =>
      if args.commFilter evtData.comm then
        if csp.metricsUpdateFilter.contains evtData.pid then csp
        else
          { csp.send (offcpuMetric args evtData) with
            metricsUpdateFilter := evtData.pid :: csp.metricsUpdateFilter }
      else csp
  | .hungTask => csp.send (hungTaskMetric args evtData)
  | .processExit =>
      { csp with published := csp.published ++ [ProcessExit.exitEvent evtData] }
  | _ => csp

/-- `cpuSchedProgram.Update`, for at most `fuel` rounds of its loop, with the events that it has
taken. `Stop` closes the channel in front of the rounds for which `stop` holds. -/
def updateCpuSched (args : ProgramArgs) (stop : Nat → Bool) (fuel : Nat)
    (c : ClosableChan EvtData ProcessExit.defaultCpuSchedEvtChanSize) (csp : CpuSchedProgram) :
    Option (List EvtData × CpuSchedProgram) :=
  let csp := { csp with sent := [runqlatMetric args csp] }
  (ClosableChan.drain (handleEvt args) stop fuel 0 c [] csp).map fun final =>
    (final.1, { final.2 with metricsUpdateFilter := [] })

/-- No two metrics of a scrape have the same descriptor and labels. -/
def DistinctSeries (sent : List Metric) : Prop := (sent.map Metric.series).Nodup

instance (sent : List Metric) : Decidable (DistinctSeries sent) :=
  inferInstanceAs (Decidable (List.Nodup _))

/-- The process and the name in an event. -/
def EvtData.process (evtData : EvtData) : UInt32 × CString := (evtData.pid, evtData.comm)

def hungTasks (events : List EvtData) : List EvtData :=
  events.filter fun evtData => evtData.evtType = .hungTask

variable {args : ProgramArgs} {csp : CpuSchedProgram}

/-! ## The metrics of each descriptor -/

/-- The metrics for a descriptor. -/
def CpuSchedProgram.sentFor (csp : CpuSchedProgram) (desc : Desc) : List Metric :=
  csp.sent.filter fun m => m.desc = desc

@[simp] theorem sentFor_send (csp : CpuSchedProgram) (m : Metric) (desc : Desc) :
    (csp.send m).sentFor desc = if m.desc = desc then csp.sentFor desc ++ [m]
      else csp.sentFor desc := by
  have hlast : ([m].filter fun m => m.desc = desc) = if m.desc = desc then [m] else [] := by
    by_cases h : m.desc = desc
    · simp [h]
    · simp [h]
  rw [CpuSchedProgram.sentFor, CpuSchedProgram.send, List.filter_append, hlast]
  split
  · rfl
  · exact List.append_nil _

/-- Metrics of different descriptors are different series. -/
theorem distinctSeries_iff (sent : List Metric) :
    DistinctSeries sent ↔ ∀ desc, DistinctSeries (sent.filter fun m => m.desc = desc) := by
  rw [DistinctSeries]
  constructor
  · intro h desc
    exact h.sublist ((List.filter_sublist).map _)
  · intro h
    induction sent with
    | nil => exact List.nodup_nil
    | cons m sent ih =>
        refine List.nodup_cons.mpr ⟨fun hmem => ?_, ih fun desc => ?_⟩
        · obtain ⟨other, hother, hseries⟩ := List.mem_map.mp hmem
          have hdesc : other.desc = m.desc := congrArg Prod.fst hseries
          have hcons : ((m :: sent).filter fun x => x.desc = m.desc) =
              m :: sent.filter fun x => x.desc = m.desc := by simp
          have hnodup := h m.desc
          rw [hcons] at hnodup
          refine (List.nodup_cons.mp hnodup).1 (List.mem_map.mpr ⟨other, ?_, hseries⟩)
          exact List.mem_filter.mpr ⟨hother, decide_eq_true hdesc⟩
        · exact (h desc).sublist (((List.sublist_cons_self m sent).filter _).map _)

theorem sentFor_runQueueLatency_handleEvt (csp : CpuSchedProgram) (evtData : EvtData) :
    (handleEvt args csp evtData).sentFor .runQueueLatency = csp.sentFor .runQueueLatency := by
  rw [handleEvt]
  split
  · split
    · split
      · rfl
      · exact sentFor_send csp (offcpuMetric args evtData) .runQueueLatency
    · rfl
  · exact sentFor_send csp (hungTaskMetric args evtData) .runQueueLatency
  · rfl
  · rfl

theorem sentFor_hungTask_handleEvt (csp : CpuSchedProgram) (evtData : EvtData) :
    (handleEvt args csp evtData).sentFor .hungTask =
      csp.sentFor .hungTask ++ (hungTasks [evtData]).map (hungTaskMetric args) := by
  rw [handleEvt, hungTasks]
  cases htype : evtData.evtType with
  | offcpu =>
      rw [List.filter_cons_of_neg (by simp [htype])]
      rw [List.filter_nil, List.map_nil, List.append_nil]
      dsimp only
      split
      · split
        · rfl
        · exact sentFor_send csp (offcpuMetric args evtData) .hungTask
      · rfl
  | hungTask =>
      rw [List.filter_cons_of_pos (by simp [htype])]
      exact sentFor_send csp (hungTaskMetric args evtData) .hungTask
  | processExit =>
      rw [List.filter_cons_of_neg (by simp [htype])]
      exact (List.append_nil _).symm
  | none =>
      rw [List.filter_cons_of_neg (by simp [htype])]
      exact (List.append_nil _).symm
  | runqlat =>
      rw [List.filter_cons_of_neg (by simp [htype])]
      exact (List.append_nil _).symm

/-- A time off the CPU that has been sent is for a process in the filter, and no two are for the
same one. -/
structure OffcpuOnce (args : ProgramArgs) (csp : CpuSchedProgram) : Prop where
  events : ∃ events : List EvtData, csp.sentFor .offCPUDuration = events.map (offcpuMetric args) ∧
    (events.map EvtData.pid).Nodup ∧ ∀ evtData ∈ events, evtData.pid ∈ csp.metricsUpdateFilter

theorem OffcpuOnce.handleEvt (h : OffcpuOnce args csp) (evtData : EvtData) :
    OffcpuOnce args (handleEvt args csp evtData) := by
  obtain ⟨events, hsent, hnodup, hfilter⟩ := h
  rw [Sched.handleEvt]
  split
  · split
    · split
      · exact ⟨events, hsent, hnodup, hfilter⟩
      · rename_i hnew
        have hnot : evtData.pid ∉ csp.metricsUpdateFilter := fun hmem =>
          hnew (List.contains_iff_mem.mpr hmem)
        refine ⟨events ++ [evtData], ?_, ?_, ?_⟩
        · rw [List.map_append, ← hsent]
          exact sentFor_send csp (offcpuMetric args evtData) .offCPUDuration
        · rw [List.map_append]
          refine List.nodup_append.mpr ⟨hnodup, List.nodup_singleton _, ?_⟩
          rintro pid hpid _ hlast rfl
          obtain ⟨old, hold, rfl⟩ := List.mem_map.mp hpid
          rw [List.map_singleton, List.mem_singleton] at hlast
          exact hnot (hlast ▸ hfilter old hold)
        · intro old hold
          obtain hold | hold := List.mem_append.mp hold
          · exact List.mem_cons_of_mem _ (hfilter old hold)
          · rw [List.mem_singleton.mp hold]
            exact List.mem_cons_self
    · exact ⟨events, hsent, hnodup, hfilter⟩
  · refine ⟨events, ?_, hnodup, hfilter⟩
    exact (sentFor_send csp (hungTaskMetric args evtData) .offCPUDuration).trans hsent
  · exact ⟨events, hsent, hnodup, hfilter⟩
  · exact ⟨events, hsent, hnodup, hfilter⟩

/-! ## A whole scrape -/

theorem sentFor_runQueueLatency_foldl (args : ProgramArgs) (events : List EvtData)
    (csp : CpuSchedProgram) :
    (events.foldl (handleEvt args) csp).sentFor .runQueueLatency =
      csp.sentFor .runQueueLatency := by
  induction events generalizing csp with
  | nil => rfl
  | cons evtData events ih =>
      rw [List.foldl_cons, ih, sentFor_runQueueLatency_handleEvt]

theorem sentFor_hungTask_foldl (args : ProgramArgs) (events : List EvtData)
    (csp : CpuSchedProgram) :
    (events.foldl (handleEvt args) csp).sentFor .hungTask =
      csp.sentFor .hungTask ++ (hungTasks events).map (hungTaskMetric args) := by
  induction events generalizing csp with
  | nil => exact (List.append_nil _).symm
  | cons evtData events ih =>
      have hsplit : hungTasks (evtData :: events) = hungTasks [evtData] ++ hungTasks events :=
        List.filter_append [evtData] events
      rw [List.foldl_cons, ih, sentFor_hungTask_handleEvt, hsplit, List.map_append,
        List.append_assoc]

theorem OffcpuOnce.foldl (h : OffcpuOnce args csp) (events : List EvtData) :
    OffcpuOnce args (events.foldl (Sched.handleEvt args) csp) :=
  EventRun.foldl_preserves (fun _ evtData h => h.handleEvt evtData) h events

theorem toInt_toInt32_inj {a b : UInt32} : a.toInt32.toInt = b.toInt32.toInt ↔ a = b := by
  rw [Int32.toInt_inj]
  exact ⟨fun h => congrArg Int32.toUInt32 h, fun h => congrArg UInt32.toInt32 h⟩

theorem series_hungTaskMetric_eq_iff (a b : EvtData) :
    (hungTaskMetric args a).series = (hungTaskMetric args b).series ↔ a.process = b.process := by
  simp [Metric.series, hungTaskMetric, EvtData.process, toInt_toInt32_inj]

theorem pid_eq_of_series_offcpuMetric {a b : EvtData}
    (h : (offcpuMetric args a).series = (offcpuMetric args b).series) : a.pid = b.pid := by
  simp only [Metric.series, offcpuMetric, List.cons_append, Prod.mk.injEq, List.cons.injEq,
    Label.int.injEq, toInt_toInt32_inj] at h
  exact h.2.2.1

theorem distinctSeries_hungTasks (events : List EvtData) :
    DistinctSeries (events.map (hungTaskMetric args)) ↔ (events.map EvtData.process).Nodup := by
  rw [DistinctSeries, List.Nodup, List.Nodup, List.pairwise_map, List.pairwise_map,
    List.pairwise_map]
  simp only [ne_eq, series_hungTaskMetric_eq_iff]

theorem OffcpuOnce.distinctSeries (h : OffcpuOnce args csp) :
    DistinctSeries (csp.sentFor .offCPUDuration) := by
  obtain ⟨events, hsent, hnodup, -⟩ := h
  rw [hsent, DistinctSeries, List.Nodup, List.pairwise_map, List.pairwise_map]
  refine (List.pairwise_map.mp hnodup).imp fun hne heq => hne ?_
  exact pid_eq_of_series_offcpuMetric heq

/-- The metrics for some events are different exactly if the hung tasks among them are. -/
theorem distinctSeries_foldl_iff (events : List EvtData) (csp : CpuSchedProgram) :
    DistinctSeries (events.foldl (handleEvt args)
        { csp with sent := [runqlatMetric args csp] }).sent ↔
      ((hungTasks events).map EvtData.process).Nodup := by
  have honce : OffcpuOnce args { csp with sent := [runqlatMetric args csp] } :=
    ⟨[], rfl, List.nodup_nil, fun _ h => absurd h List.not_mem_nil⟩
  have hhung := sentFor_hungTask_foldl args events { csp with sent := [runqlatMetric args csp] }
  have hrunq :=
    sentFor_runQueueLatency_foldl args events { csp with sent := [runqlatMetric args csp] }
  rw [distinctSeries_iff, ← distinctSeries_hungTasks]
  constructor
  · intro h
    have hnodup := h .hungTask
    rw [← CpuSchedProgram.sentFor, hhung] at hnodup
    exact hnodup
  · intro h desc
    rw [← CpuSchedProgram.sentFor]
    cases desc with
    | runQueueLatency =>
        rw [hrunq]
        exact List.nodup_singleton _
    | offCPUDuration => exact (honce.foldl events).distinctSeries
    | hungTask =>
        rw [hhung]
        exact h

/-- What a call of `Update` leaves on a channel that stays open. -/
theorem exists_updateCpuSched (args : ProgramArgs)
    (chan : Chan EvtData ProcessExit.defaultCpuSchedEvtChanSize) (csp : CpuSchedProgram) :
    ∃ fuel, updateCpuSched args (fun _ => false) fuel ⟨chan, false⟩ csp =
      some (chan.queue, { chan.queue.foldl (handleEvt args)
        { csp with sent := [runqlatMetric args csp] } with metricsUpdateFilter := [] }) := by
  have hopen : ClosableChan.OpenAtEnd (fun _ => false) 0 ⟨chan, false⟩ := ⟨rfl, fun _ _ => rfl⟩
  obtain ⟨fuel, hdrain⟩ := (ClosableChan.exists_drain_iff (handleEvt args) _ 0 _ []
    { csp with sent := [runqlatMetric args csp] } _).mpr ⟨hopen, rfl⟩
  refine ⟨fuel, ?_⟩
  rw [updateCpuSched, hdrain]
  rfl

/-- The metrics of one call are different series exactly if no process is reported as hung twice
with the same name. -/
theorem distinct_scrape_iff (args : ProgramArgs)
    (chan : Chan EvtData ProcessExit.defaultCpuSchedEvtChanSize) (csp : CpuSchedProgram) :
    ∃ fuel final, updateCpuSched args (fun _ => false) fuel ⟨chan, false⟩ csp =
        some (chan.queue, final) ∧
      (DistinctSeries final.sent ↔ ((hungTasks chan.queue).map EvtData.process).Nodup) := by
  obtain ⟨fuel, hupdate⟩ := exists_updateCpuSched args chan csp
  exact ⟨fuel, _, hupdate, distinctSeries_foldl_iff chan.queue csp⟩

/-- A task that hangs. -/
def hungThread : Task := ⟨10, 10, 10, 1, false, 2, 0, ['d', 'b']⟩

/-- Any tasks of the node. -/
def anyTask : Filter := ⟨1, 0, 0, 0, 0⟩

/-- The task is reported twice between two scrapes. -/
def hangsTwice : List Event :=
  [.processHang hungThread (some ⟨0, .none, 0, 0, []⟩),
    .processHang hungThread (some ⟨0, .none, 0, 0, []⟩)]

theorem hung_task_sent_twice : ¬ ∀ args f events chan csp fuel taken final,
    chan.queue = (run f events).sent →
    updateCpuSched args (fun _ => false) fuel ⟨chan, false⟩ csp = some (taken, final) →
    DistinctSeries final.sent := by
  intro h
  let args : ProgramArgs := ⟨['o', 's'], 0, [], []⟩
  let chan : Chan EvtData ProcessExit.defaultCpuSchedEvtChanSize :=
    ⟨(run anyTask hangsTwice).sent, by decide⟩
  obtain ⟨fuel, hupdate⟩ := exists_updateCpuSched args chan { sampleCount := 0 }
  have hdistinct := h args anyTask hangsTwice chan _ fuel _ _ rfl hupdate
  have hnodup := (distinctSeries_foldl_iff chan.queue _).mp hdistinct
  exact absurd hnodup (by decide)

end XMonitor.Sched
