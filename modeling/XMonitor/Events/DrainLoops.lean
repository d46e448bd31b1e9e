import XMonitor.Oom.OomKill
import XMonitor.Sched.Update

/-!
# The drain loops of the scrapes

`Update` of the programs for the scheduler and for the OOM killer takes what their channels hold,
until the default of a `select` ends the loop. `Stop` closes the channels and may run at any time
of a scrape. A receive from a closed channel that is empty succeeds without a value, and nothing
in the loops asks for that.
-/

namespace XMonitor.Events

open Sched (CpuSchedProgram EvtData ProgramArgs updateCpuSched)
open Oom (XmOomkillEvtData)

/-- `oomKillProgram.Update`, for at most `fuel` rounds of its loop, with the records that it has
taken and the metrics that it has sent. -/
def updateOomKill (stop : Nat → Bool) (fuel : Nat)
    (c : ClosableChan XmOomkillEvtData Oom.defaultOomKillEvtChanSize) :
    Option (List XmOomkillEvtData × List Oom.Metric) :=
  ClosableChan.drain (fun sent data => sent ++ [Oom.metricOf data]) stop fuel 0 c [] []

/-- A loop ends after it has taken every value that was queued, once and in order. -/
def Drains {α τ : Type} (update : Nat → Option (List α × τ)) (queue : List α) : Prop :=
  ∃ fuel final, update fuel = some final ∧ final.1 = queue

theorem drains_drain_iff {α σ : Type} {cap : Nat} (body : σ → α → σ) (stop : Nat → Bool)
    (c : ClosableChan α cap) (s : σ) :
    Drains (fun fuel => ClosableChan.drain body stop fuel 0 c [] s) c.queue ↔
      c.OpenAtEnd stop 0 := by
  constructor
  · rintro ⟨fuel, final, hfinal, -⟩
    exact ((ClosableChan.exists_drain_iff body stop 0 c [] s final).mp ⟨fuel, hfinal⟩).1
  · intro hopen
    obtain ⟨fuel, hfinal⟩ :=
      (ClosableChan.exists_drain_iff body stop 0 c [] s _).mpr ⟨hopen, rfl⟩
    exact ⟨fuel, _, hfinal, rfl⟩

theorem drains_cpuSched_iff (args : ProgramArgs) (stop : Nat → Bool)
    (c : ClosableChan EvtData ProcessExit.defaultCpuSchedEvtChanSize) (csp : CpuSchedProgram) :
    Drains (fun fuel => updateCpuSched args stop fuel c csp) c.queue ↔ c.OpenAtEnd stop 0 := by
  have hdrain := drains_drain_iff (Sched.handleEvt args) stop c
    { csp with sent := [Sched.runqlatMetric args csp] }
  rw [← hdrain]
  constructor
  · rintro ⟨fuel, final, hfinal, htaken⟩
    obtain ⟨drained, hdrained, rfl⟩ := Option.map_eq_some_iff.mp hfinal
    exact ⟨fuel, drained, hdrained, htaken⟩
  · rintro ⟨fuel, drained, hdrained, htaken⟩
    exact ⟨fuel, _, Option.map_eq_some_iff.mpr ⟨drained, hdrained, rfl⟩, htaken⟩

/-- Both loops drain their channels exactly if these are open in the round that finds them
empty. -/
theorem drains_iff (args : ProgramArgs) (csp : CpuSchedProgram) (stop : Nat → Bool)
    (c : ClosableChan EvtData ProcessExit.defaultCpuSchedEvtChanSize)
    (d : ClosableChan XmOomkillEvtData Oom.defaultOomKillEvtChanSize) :
    (Drains (fun fuel => updateCpuSched args stop fuel c csp) c.queue ↔ c.OpenAtEnd stop 0) ∧
      (Drains (fun fuel => updateOomKill stop fuel d) d.queue ↔ d.OpenAtEnd stop 0) :=
  ⟨drains_cpuSched_iff args stop c csp, drains_drain_iff _ stop d []⟩

/-- `Stop` has come before the scrape, and no event is queued. -/
theorem stopped_never_drained :
    (¬ ∀ args csp stop (c : ClosableChan EvtData ProcessExit.defaultCpuSchedEvtChanSize),
      Drains (fun fuel => updateCpuSched args stop fuel c csp) c.queue) ∧
    ¬ ∀ stop (d : ClosableChan XmOomkillEvtData Oom.defaultOomKillEvtChanSize),
      Drains (fun fuel => updateOomKill stop fuel d) d.queue := by
  constructor
  · intro h
    have hopen := (drains_cpuSched_iff _ _ _ _).mp
      (h ⟨[], 0, [], []⟩ { sampleCount := 0 } (fun _ => false) ⟨Chan.empty, true⟩)
    cases hopen.1
  · intro h
    have hopen := (drains_drain_iff _ _ _ _).mp (h (fun _ => false) ⟨Chan.empty, true⟩)
    cases hopen.1

end XMonitor.Events
