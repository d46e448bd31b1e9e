import XMonitor.Lib.EventRun
import XMonitor.Sched.CpuSched

/-!
# Run-queue and off-CPU accounting

At a switch, the next task should have its time on the run queue sampled and its time off
the processor reported, and the previous task, if it lives on, should get its stamp.

The program does so unless it returns early for the previous task. It means to do that
for a task that goes away, but the test also holds for a task in a killable sleep and for
a stopped one, and whoever the previous task is, the next one is left out. A duration of
zero is not reported even if the window allows it.
-/

namespace XMonitor.Sched

/-- The filter lets every task pass. -/
def Filter.PassesAll (f : Filter) : Prop :=
  ∀ ts, f.inScope ts = true ∧ f.ofTaskType ts = true

/-- The clock values that an event reads. -/
def Event.reads : Event → List UInt64
  | .wakeup _ nowNs => [nowNs]
  | .wakeupNew _ nowNs => [nowNs]
  | .switch sw => [sw.runqlatNs, sw.nowNs, sw.offcpuNs]
  | .processHang _ _ => []
  | .processExit _ _ => []

/-- The time at which an event switches a task out. -/
def Event.switchesOut (pid : UInt32) : Event → Option UInt64
  | .switch sw => if sw.prev.pid = pid then some sw.offcpuNs else none
  | _ => none

/-- The time at which a task was last switched out. -/
def lastSwitchedOut (events : List Event) (pid : UInt32) : Option UInt64 :=
  events.foldl (fun last e => (e.switchesOut pid).or last) none

/-- A task that lives on. It may sleep, be stopped, or wait for its next turn. -/
def Task.alive (ts : Task) : Bool := ts.exitState = 0 && ts.state &&& taskDead = 0

/-- The maps have room for one more task, and the ring buffer for one more record. -/
structure Room (s : State) (sw : Switch) : Prop where
  offcpuStart : s.offcpuStart.keys.card < maxThreadCount
  reserved : sw.reserved.isSome = true

/-- What a switch does to the accounts of its two tasks, for a next task that was switched
out at `last`. -/
structure Accounted (f : Filter) (last : Option UInt64) (sw : Switch) (s s' : State) :
    Prop where
  sampled : sw.next.pid ≠ 0 →
    s'.hist = (s.runqlatStart.lookup sw.next.pid).elim s.hist fun wakeupNs =>
      s.hist.add (runqlatSlot (elapsed sw.nowNs wakeupNs / 1000))
  runqlatStart : sw.next.pid ≠ 0 → s'.runqlatStart.lookup sw.next.pid = none
  reported : sw.next.pid ≠ 0 → ∀ offcpuNs, s.offcpuStart.lookup sw.next.pid = some offcpuNs →
    last = some offcpuNs ∧
      s'.sent = s.sent ++ if f.inWindow (elapsed sw.nowNs offcpuNs) then
        [offcpuEvt sw.next (elapsed sw.nowNs offcpuNs)] else []
  offcpuStart : sw.next.pid ≠ 0 → s'.offcpuStart.lookup sw.next.pid = none
  switchedOut : sw.prev.alive = true → s'.offcpuStart.lookup sw.prev.pid = some sw.offcpuNs

/-- The switch does not return early, or has nothing to do: the previous task has ended and
the next one has no stamp. And no duration of zero lies in the window. -/
structure Kept (f : Filter) (s : State) (sw : Switch) : Prop where
  ended : sw.prev.goesAway = true → sw.prev.alive = false
  idle : sw.prev.goesAway = true → sw.next.pid ≠ 0 →
    s.runqlatStart.lookup sw.next.pid = none ∧ s.offcpuStart.lookup sw.next.pid = none
  nonzero : sw.next.pid ≠ 0 → s.offcpuStart.lookup sw.next.pid = some sw.nowNs →
    f.inWindow 0 = false

/-! ## What holds after every event -/

structure Inv (events : List Event) (s : State) : Prop where
  runqlatStart : ∀ pid t, s.runqlatStart.lookup pid = some t → t ∈ events.flatMap Event.reads
  offcpuStart : ∀ pid t, s.offcpuStart.lookup pid = some t → lastSwitchedOut events pid = some t
  hists : ∀ k hist, s.runqlatHists.lookup k = some hist → k = histKey

theorem lastSwitchedOut_snoc (events : List Event) (e : Event) (pid : UInt32) :
    lastSwitchedOut (events ++ [e]) pid = (e.switchesOut pid).or (lastSwitchedOut events pid) := by
  rw [lastSwitchedOut, List.foldl_append]
  rfl

theorem mem_reads_of_switchesOut {e : Event} {pid : UInt32} {t : UInt64}
    (h : e.switchesOut pid = some t) : t ∈ e.reads := by
  cases e with
  | switch sw =>
      simp only [Event.switchesOut] at h
      split at h
      · cases h
        simp [Event.reads]
      · cases h
  | _ => cases h

theorem mem_reads_of_lastSwitchedOut {events : List Event} {pid : UInt32} {t : UInt64}
    (h : lastSwitchedOut events pid = some t) : t ∈ events.flatMap Event.reads := by
  induction events using List.reverseRecOn with
  | nil => cases h
  | append_singleton events e ih =>
      rw [List.flatMap_append, List.mem_append]
      rw [lastSwitchedOut_snoc, Option.or_eq_some_iff] at h
      obtain h | ⟨-, h⟩ := h
      · right
        simpa using mem_reads_of_switchesOut h
      · exact .inl (ih h)

section Step

variable {f : Filter} {s : State}

/-- A stamp of the run queue is read from the clock during the event, or it was there. -/
theorem of_insert_runqlat {ts : Task} {nowNs : UInt64} {pid : UInt32} {t : UInt64}
    (h : (insertCsStartMap f ts .runqlat nowNs s).runqlatStart.lookup pid = some t) :
    t = nowNs ∨ s.runqlatStart.lookup pid = some t := by
  obtain hs | hs := insert_runqlat_runqlatStart f ts nowNs s
  · rw [hs] at h
    obtain ⟨-, ht⟩ | ⟨-, h⟩ := BpfHash.of_lookup_put h
    · exact .inl ht
    · exact .inr h
  · exact .inr (hs ▸ h)

theorem of_step_runqlatStart {e : Event} {pid : UInt32} {t : UInt64}
    (h : (step f s e).runqlatStart.lookup pid = some t) :
    t ∈ e.reads ∨ s.runqlatStart.lookup pid = some t := by
  cases e with
  | wakeup ts nowNs =>
      apply (of_insert_runqlat h).imp_left
      rintro rfl
      simp [Event.reads]
  | wakeupNew ts nowNs =>
      apply (of_insert_runqlat h).imp_left
      rintro rfl
      simp [Event.reads]
  | switch sw =>
      have hrequeue : (requeueRunning f sw s).runqlatStart.lookup pid = some t := by
        simp only [step, schedSwitch] at h
        split at h
        · simp only [State.forget, BpfHash.lookup_delete] at h
          split at h
          · cases h
          · exact h
        · rw [switchIn_runqlatStart, insert_offcpu_runqlatStart] at h
          split at h
          · cases h
          · exact h
      rw [requeueRunning] at hrequeue
      split at hrequeue
      · apply (of_insert_runqlat hrequeue).imp_left
        rintro rfl
        simp [Event.reads]
      · exact .inr hrequeue
  | processHang ts reserved => exact .inr h
  | processExit ts reserved =>
      simp only [step, schedProcessExit, State.forget, BpfHash.lookup_delete] at h
      split at h
      · cases h
      · exact .inr h

/-- A stamp of a task off the processor is that of the switch that leaves it, or it was
there and the event does not switch its task out. -/
theorem of_step_offcpuStart (hf : f.PassesAll) {e : Event} {pid : UInt32} {t : UInt64}
    (h : (step f s e).offcpuStart.lookup pid = some t) :
    e.switchesOut pid = some t ∨
      e.switchesOut pid = none ∧ s.offcpuStart.lookup pid = some t := by
  cases e with
  | wakeup ts nowNs =>
      rw [step, insert_runqlat_offcpuStart] at h
      exact .inr ⟨rfl, h⟩
  | wakeupNew ts nowNs =>
      rw [step, insert_runqlat_offcpuStart] at h
      exact .inr ⟨rfl, h⟩
  | switch sw =>
      have hout : pid ≠ sw.prev.pid → Event.switchesOut pid (.switch sw) = none :=
        fun hne => if_neg hne.symm
      simp only [step, schedSwitch] at h
      split at h
      · simp only [State.forget, BpfHash.lookup_delete, requeue_offcpuStart] at h
        split at h
        · cases h
        · next hne => exact .inr ⟨hout hne, h⟩
      · rw [switchIn_offcpuStart] at h
        split at h
        · cases h
        · rw [insert_offcpu_offcpuStart (hf _).1 (hf _).2] at h
          obtain ⟨rfl, rfl⟩ | ⟨hne, h⟩ := BpfHash.of_lookup_put h
          · exact .inl (if_pos rfl)
          · rw [requeue_offcpuStart] at h
            exact .inr ⟨hout hne, h⟩
  | processHang ts reserved => exact .inr ⟨rfl, h⟩
  | processExit ts reserved =>
      simp only [step, schedProcessExit, State.forget, BpfHash.lookup_delete] at h
      split at h
      · cases h
      · exact .inr ⟨rfl, h⟩

end Step

/-- The histogram has its place in the map. -/
theorem hists_sampleRunqlat {s : State} {d : Int}
    (h : ∀ k hist, s.runqlatHists.lookup k = some hist → k = histKey) (hd : 0 ≤ d) :
    ∃ hists : BpfHash UInt32 RunqlatHist 1,
      (sampleRunqlat d s).runqlatHists = hists.put histKey (s.hist.add (runqlatSlot (d / 1000))) ∧
        histKey ∈ hists.keys ∧ ∀ k hist, hists.lookup k = some hist → k = histKey := by
  rw [sampleRunqlat, if_neg (not_lt.mpr hd), BpfHash.lookupOrTryInit]
  cases hlookup : s.runqlatHists.lookup histKey with
  | some hist =>
      refine ⟨s.runqlatHists, ?_, BpfHash.mem_keys_of_lookup hlookup, h⟩
      rw [State.hist, hlookup]
      rfl
  | none =>
      have hempty : s.runqlatHists.keys.card < 1 := by
        rw [Nat.lt_one_iff, Finset.card_eq_zero, BpfHash.keys_eq_empty_iff]
        intro k
        cases hk : s.runqlatHists.lookup k with
        | none => rfl
        | some hist =>
            rw [h k hist hk, hlookup] at hk
            cases hk
      obtain ⟨hists, hhists⟩ := BpfHash.exists_update_of_card hempty histKey fun _ => (0 : UInt32)
      refine ⟨hists, ?_, ?_, ?_⟩
      · rw [hhists, State.hist, hlookup]
        rfl
      · rw [BpfHash.keys_of_update hhists]
        exact Finset.mem_insert_self _ _
      · intro k hist hk
        rw [BpfHash.lookup_of_update hhists] at hk
        split at hk
        · assumption
        · exact h k hist hk

theorem hist_sampleRunqlat {s : State} {d : Int}
    (h : ∀ k hist, s.runqlatHists.lookup k = some hist → k = histKey) (hd : 0 ≤ d) :
    (sampleRunqlat d s).hist = s.hist.add (runqlatSlot (d / 1000)) := by
  obtain ⟨hists, hsample, hmem, -⟩ := hists_sampleRunqlat h hd
  obtain ⟨hists', hput⟩ :=
    BpfHash.exists_update_of_mem hmem (s.hist.add (runqlatSlot (d / 1000)))
  rw [State.hist, hsample, BpfHash.put, hput]
  change (hists'.lookup histKey).getD _ = _
  rw [BpfHash.lookup_of_update hput, if_pos rfl]
  rfl

theorem histKey_of_sampleRunqlat {s : State} {d : Int}
    (h : ∀ k hist, s.runqlatHists.lookup k = some hist → k = histKey) {k : UInt32}
    {hist : RunqlatHist} (hk : (sampleRunqlat d s).runqlatHists.lookup k = some hist) :
    k = histKey := by
  by_cases hd : d < 0
  · rw [sampleRunqlat, if_pos hd] at hk
    exact h k hist hk
  · obtain ⟨hists, hsample, -, hhists⟩ := hists_sampleRunqlat h (not_lt.mp hd)
    rw [hsample] at hk
    obtain ⟨hkey, -⟩ | ⟨-, hk⟩ := BpfHash.of_lookup_put hk
    · exact hkey
    · exact hhists k hist hk

theorem histKey_of_step {f : Filter} {s : State} {e : Event}
    (h : ∀ k hist, s.runqlatHists.lookup k = some hist → k = histKey) {k : UInt32}
    {hist : RunqlatHist} (hk : (step f s e).runqlatHists.lookup k = some hist) : k = histKey := by
  cases e with
  | wakeup ts nowNs =>
      rw [step, insert_runqlatHists] at hk
      exact h k hist hk
  | wakeupNew ts nowNs =>
      rw [step, insert_runqlatHists] at hk
      exact h k hist hk
  | switch sw =>
      simp only [step, schedSwitch] at hk
      split at hk
      · simp only [State.forget, requeue_runqlatHists] at hk
        exact h k hist hk
      · rw [switchIn] at hk
        split at hk
        · simp only [processReturn_runqlatHists, statisticsRunqlat_runqlatHists,
            insert_offcpu_runqlatStart] at hk
          cases hlookup : (requeueRunning f sw s).runqlatStart.lookup sw.next.pid with
          | none =>
              simp only [hlookup, Option.elim_none, insert_runqlatHists, requeue_runqlatHists] at hk
              exact h k hist hk
          | some wakeupNs =>
              rw [hlookup] at hk
              refine histKey_of_sampleRunqlat ?_ hk
              simpa using h
        · rw [insert_runqlatHists, requeue_runqlatHists] at hk
          exact h k hist hk
  | processHang ts reserved => exact h k hist hk
  | processExit ts reserved => exact h k hist hk

theorem run_inv {f : Filter} (hf : f.PassesAll) (events : List Event) :
    Inv events (run f events) := by
  induction events using List.reverseRecOn with
  | nil =>
      refine ⟨?_, ?_, ?_⟩
      · intro pid t h
        cases h
      · intro pid t h
        cases h
      · intro k hist h
        cases h
  | append_singleton events e ih =>
      rw [run_snoc]
      refine ⟨?_, ?_, ?_⟩
      · intro pid t h
        rw [List.flatMap_append, List.mem_append]
        obtain h | h := of_step_runqlatStart h
        · right
          simpa using h
        · exact .inl (ih.runqlatStart pid t h)
      · intro pid t h
        rw [lastSwitchedOut_snoc]
        obtain h | ⟨hnone, h⟩ := of_step_offcpuStart hf h
        · rw [h]
          rfl
        · rw [hnone, Option.none_or]
          exact ih.offcpuStart pid t h
      · intro k hist h
        exact histKey_of_step ih.hists h

/-! ## One switch -/

section Switch

variable {f : Filter} {past : List Event} {sw : Switch} {s : State}

/-- A stamp of an earlier event gives the time that has passed since. -/
theorem duration_of_mem_reads
    (hclock : MonotoneClock ((past ++ [Event.switch sw]).flatMap Event.reads)) {t : UInt64}
    (ht : t ∈ past.flatMap Event.reads) :
    duration sw.nowNs t = elapsed sw.nowNs t ∧ 0 ≤ elapsed sw.nowNs t := by
  have hle : t ≤ sw.nowNs := by
    have hpairwise := hclock.pairwise
    rw [List.flatMap_append, List.pairwise_append] at hpairwise
    apply hpairwise.2.2 t ht
    simp [Event.reads]
  have hlt : sw.nowNs.toNat < 2 ^ 63 := by
    apply hclock.lt
    simp [Event.reads]
  have hle' := UInt64.le_iff_toNat_le.mp hle
  refine ⟨duration_eq hle hlt, ?_⟩
  rw [elapsed]
  omega

theorem lookup_requeue_next (hnext : sw.next.pid ≠ 0) :
    (requeueRunning f sw s).runqlatStart.lookup sw.next.pid =
      s.runqlatStart.lookup sw.next.pid := by
  have hne := (sw.distinct hnext).symm
  obtain h | h := requeue_runqlatStart f sw s
  · rw [h, BpfHash.lookup_put_ne hne]
  · rw [h]

/-- A switch that returns early changes nothing but the stamps of the previous task. -/
theorem accounted_iff_of_goesAway {last : Option UInt64} (h : sw.prev.goesAway = true) :
    Accounted f last sw s (schedSwitch f sw s) ↔ Kept f s sw := by
  have hswitch : schedSwitch f sw s = (requeueRunning f sw s).forget sw.prev.pid := by
    simp only [schedSwitch, if_pos h]
  have hhist : (schedSwitch f sw s).hist = s.hist := by
    rw [hswitch, State.hist, State.hist, forget_runqlatHists, requeue_runqlatHists]
  have hrunqlat (hnext : sw.next.pid ≠ 0) :
      (schedSwitch f sw s).runqlatStart.lookup sw.next.pid =
        s.runqlatStart.lookup sw.next.pid := by
    rw [hswitch, forget_runqlatStart, BpfHash.lookup_delete, if_neg (sw.distinct hnext).symm,
      lookup_requeue_next hnext]
  have hoffcpu (hnext : sw.next.pid ≠ 0) :
      (schedSwitch f sw s).offcpuStart.lookup sw.next.pid =
        s.offcpuStart.lookup sw.next.pid := by
    rw [hswitch, forget_offcpuStart, BpfHash.lookup_delete, if_neg (sw.distinct hnext).symm,
      requeue_offcpuStart]
  constructor
  · intro ha
    refine ⟨?_, ?_, ?_⟩
    · intro _
      by_contra halive
      have hstamp := ha.switchedOut (Bool.not_eq_false _ ▸ halive)
      rw [hswitch, forget_offcpuStart, BpfHash.lookup_delete, if_pos rfl] at hstamp
      cases hstamp
    · intro _ hnext
      rw [← hrunqlat hnext, ← hoffcpu hnext]
      exact ⟨ha.runqlatStart hnext, ha.offcpuStart hnext⟩
    · intro hnext hstamp
      rw [← hoffcpu hnext, ha.offcpuStart hnext] at hstamp
      cases hstamp
  · intro hk
    refine ⟨?_, ?_, ?_, ?_, ?_⟩
    · intro hnext
      rw [hhist, (hk.idle h hnext).1]
      rfl
    · intro hnext
      rw [hrunqlat hnext, (hk.idle h hnext).1]
    · intro hnext offcpuNs hstamp
      rw [(hk.idle h hnext).2] at hstamp
      cases hstamp
    · intro hnext
      rw [hoffcpu hnext, (hk.idle h hnext).2]
    · intro halive
      rw [hk.ended h] at halive
      cases halive

theorem processReturn_sent {ts : Task} {nowNs offcpuNs : UInt64} {reserved : Option EvtData}
    (hstamp : s.offcpuStart.lookup ts.pid = some offcpuNs) (hr : reserved.isSome = true) :
    (processReturnToCpuTask f ts nowNs reserved s).sent =
      s.sent ++ if 0 < duration nowNs offcpuNs ∧ f.inWindow (duration nowNs offcpuNs) then
        [offcpuEvt ts (duration nowNs offcpuNs)] else [] := by
  rw [processReturnToCpuTask, hstamp]
  by_cases hpos : 0 < duration nowNs offcpuNs
  · cases hwindow : f.inWindow (duration nowNs offcpuNs) <;> simp [hpos, hwindow, hr]
  · simp [hpos]

theorem switchIn_hist (hnext : sw.next.pid ≠ 0) :
    (switchIn f sw s).hist = (s.runqlatStart.lookup sw.next.pid).elim s.hist fun wakeupNs =>
      (sampleRunqlat (duration sw.nowNs wakeupNs) s).hist := by
  rw [switchIn, if_pos hnext, State.hist, processReturn_runqlatHists,
    statisticsRunqlat_runqlatHists]
  cases s.runqlatStart.lookup sw.next.pid with
  | none => rfl
  | some wakeupNs => rfl

theorem switchIn_sent (hnext : sw.next.pid ≠ 0) {offcpuNs : UInt64}
    (hstamp : s.offcpuStart.lookup sw.next.pid = some offcpuNs)
    (hr : sw.reserved.isSome = true) :
    (switchIn f sw s).sent = s.sent ++
      if 0 < duration sw.nowNs offcpuNs ∧ f.inWindow (duration sw.nowNs offcpuNs) then
        [offcpuEvt sw.next (duration sw.nowNs offcpuNs)] else [] := by
  rw [switchIn, if_pos hnext, processReturn_sent _ hr, statisticsRunqlat_sent]
  rw [statisticsRunqlat_offcpuStart, hstamp]

section Stays

variable (h : sw.prev.goesAway = false)

include h

theorem schedSwitch_of_stays (f : Filter) (s : State) :
    schedSwitch f sw s =
      switchIn f sw (insertCsStartMap f sw.prev .offcpu sw.offcpuNs (requeueRunning f sw s)) := by
  simp only [schedSwitch, h]
  rfl

omit h in
/-- The previous task gets its stamp before the next one is looked up. -/
theorem offcpuStart_left (hf : f.PassesAll) (sw : Switch) (s : State) :
    (insertCsStartMap f sw.prev .offcpu sw.offcpuNs (requeueRunning f sw s)).offcpuStart =
      s.offcpuStart.put sw.prev.pid sw.offcpuNs := by
  rw [insert_offcpu_offcpuStart (hf _).1 (hf _).2, requeue_offcpuStart]

theorem hist_of_stays (hinv : Inv past s)
    (hclock : MonotoneClock ((past ++ [Event.switch sw]).flatMap Event.reads))
    (hnext : sw.next.pid ≠ 0) :
    (schedSwitch f sw s).hist = (s.runqlatStart.lookup sw.next.pid).elim s.hist fun wakeupNs =>
      s.hist.add (runqlatSlot (elapsed sw.nowNs wakeupNs / 1000)) := by
  have hhist : (insertCsStartMap f sw.prev .offcpu sw.offcpuNs (requeueRunning f sw s)).hist =
      s.hist := by
    rw [State.hist, insert_runqlatHists, requeue_runqlatHists, State.hist]
  rw [schedSwitch_of_stays h, switchIn_hist hnext, insert_offcpu_runqlatStart,
    lookup_requeue_next hnext, hhist]
  cases hstamp : s.runqlatStart.lookup sw.next.pid with
  | none => rfl
  | some wakeupNs =>
      obtain ⟨hd, hpos⟩ := duration_of_mem_reads hclock (hinv.runqlatStart _ _ hstamp)
      change (sampleRunqlat (duration sw.nowNs wakeupNs) _).hist = _
      rw [hd, hist_sampleRunqlat _ hpos, hhist]
      · rfl
      · rw [insert_runqlatHists, requeue_runqlatHists]
        exact hinv.hists

theorem sent_of_stays (hf : f.PassesAll) (hinv : Inv past s)
    (hclock : MonotoneClock ((past ++ [Event.switch sw]).flatMap Event.reads)) (hroom : Room s sw)
    (hnext : sw.next.pid ≠ 0) {offcpuNs : UInt64}
    (hstamp : s.offcpuStart.lookup sw.next.pid = some offcpuNs) :
    (schedSwitch f sw s).sent = s.sent ++
      if 0 < elapsed sw.nowNs offcpuNs ∧ f.inWindow (elapsed sw.nowNs offcpuNs) then
        [offcpuEvt sw.next (elapsed sw.nowNs offcpuNs)] else [] := by
  have hread := mem_reads_of_lastSwitchedOut (hinv.offcpuStart _ _ hstamp)
  have hleft : (insertCsStartMap f sw.prev .offcpu sw.offcpuNs
      (requeueRunning f sw s)).offcpuStart.lookup sw.next.pid = some offcpuNs := by
    rw [offcpuStart_left hf, BpfHash.lookup_put_ne (sw.distinct hnext).symm]
    exact hstamp
  rw [schedSwitch_of_stays h, switchIn_sent hnext hleft hroom.reserved, insert_sent, requeue_sent,
    (duration_of_mem_reads hclock hread).1]

/-- A switch that does not return early does what it should, but for a duration of zero. -/
theorem accounted_iff_of_stays (hf : f.PassesAll) (hinv : Inv past s)
    (hclock : MonotoneClock ((past ++ [Event.switch sw]).flatMap Event.reads))
    (hroom : Room s sw) :
    Accounted f (lastSwitchedOut past sw.next.pid) sw s (schedSwitch f sw s) ↔ Kept f s sw := by
  constructor
  · intro ha
    refine ⟨by simp [h], by simp [h], ?_⟩
    intro hnext hstamp
    have hreported := (ha.reported hnext _ hstamp).2
    rw [sent_of_stays h hf hinv hclock hroom hnext hstamp] at hreported
    cases hwindow : f.inWindow 0 with
    | false => rfl
    | true => simp [elapsed, hwindow] at hreported
  · intro hk
    refine ⟨hist_of_stays h hinv hclock, ?_, ?_, ?_, ?_⟩
    · intro hnext
      rw [schedSwitch_of_stays h, switchIn_runqlatStart, if_pos ⟨hnext, rfl⟩]
    · intro hnext offcpuNs hstamp
      refine ⟨hinv.offcpuStart _ _ hstamp, ?_⟩
      rw [sent_of_stays h hf hinv hclock hroom hnext hstamp]
      have hread := mem_reads_of_lastSwitchedOut (hinv.offcpuStart _ _ hstamp)
      have hpos := (duration_of_mem_reads hclock hread).2
      by_cases hzero : elapsed sw.nowNs offcpuNs = 0
      · have hnow : offcpuNs = sw.nowNs := by
          rw [← UInt64.toNat_inj]
          rw [elapsed] at hzero
          omega
        have hwindow := hk.nonzero hnext (hnow ▸ hstamp)
        simp [hzero, hwindow]
      · have hlt : 0 < elapsed sw.nowNs offcpuNs := by omega
        simp [hlt]
    · intro hnext
      rw [schedSwitch_of_stays h, switchIn_offcpuStart, if_pos ⟨hnext, rfl⟩]
    · intro _
      rw [schedSwitch_of_stays h, switchIn_offcpuStart, if_neg, offcpuStart_left hf,
        BpfHash.lookup_put_self hroom.offcpuStart]
      rintro ⟨hnext, heq⟩
      exact sw.distinct hnext heq

end Stays

end Switch

/-! ## Every switch of a run -/

/-- At every switch of every run, the accounts are exact if and only if the switch does not
return early for a task that lives on or while the next task has a stamp, and no duration
of zero is to be reported. -/
theorem accounted_iff_kept (f : Filter) (hf : f.PassesAll) (past : List Event) (sw : Switch)
    (hclock : MonotoneClock ((past ++ [Event.switch sw]).flatMap Event.reads))
    (hroom : Room (run f past) sw) :
    Accounted f (lastSwitchedOut past sw.next.pid) sw (run f past)
        (run f (past ++ [Event.switch sw])) ↔ Kept f (run f past) sw := by
  rw [run_snoc]
  change Accounted f _ sw _ (schedSwitch f sw _) ↔ _
  cases h : sw.prev.goesAway with
  | true => exact accounted_iff_of_goesAway h
  | false => exact accounted_iff_of_stays h hf (run_inv hf past) hclock hroom

/-- The default window, for the whole system. -/
def wholeSystem : Filter where
  scopeType := 1
  scopeValue := 0
  offcpuMinDurationNanosecs := 5000000000
  offcpuMaxDurationNanosecs := 50000000000
  offcpuTaskType := 0

theorem wholeSystem_passesAll : wholeSystem.PassesAll := fun _ => ⟨rfl, rfl⟩

def taskOf (pid : UInt32) (state : UInt64) : Task where
  pid := pid
  tgid := pid
  pgid := pid
  pidns := 0
  kthread := false
  state := state
  exitState := 0
  comm := []

/-- A switch between two tasks of different pids at a time, where `state` is that of the
task that leaves. -/
def switchAt (prev next : UInt32) (state : UInt64) (h : prev ≠ next) (nowNs : UInt64) : Switch where
  prev := taskOf prev state
  next := taskOf next taskRunning
  distinct := fun _ => h
  runqlatNs := nowNs
  nowNs := nowNs
  offcpuNs := nowNs
  reserved := some ⟨0, .none, 0, 0, []⟩

/-- Task 100 sleeps for six seconds and then waits one second for the processor. -/
def sleepRun : List Event :=
  [.switch (switchAt 100 200 1 (by decide) 1000), .wakeup (taskOf 100 taskRunning) 6000001000]

def sleepSwitch : Switch := switchAt 200 100 taskRunning (by decide) 7000001000

theorem accounted_sleep :
    Accounted wholeSystem (lastSwitchedOut sleepRun 100) sleepSwitch (run wholeSystem sleepRun)
      (run wholeSystem (sleepRun ++ [Event.switch sleepSwitch])) := by
  apply (accounted_iff_kept wholeSystem wholeSystem_passesAll sleepRun sleepSwitch (by decide)
    ⟨by decide, rfl⟩).mpr
  refine ⟨?_, ?_, ?_⟩
  · decide
  · decide
  · decide

/-- Task 100 waits for the processor, and task 200 goes into a killable sleep. -/
def killableRun : List Event := [.wakeup (taskOf 100 taskRunning) 1000]

def killableSwitch : Switch := switchAt 200 100 0x102 (by decide) 2000

/-- Task 200 lives on, but task 100 keeps its stamp. -/
theorem killable_not_accounted :
    wholeSystem.PassesAll ∧
      MonotoneClock ((killableRun ++ [Event.switch killableSwitch]).flatMap Event.reads) ∧
      Room (run wholeSystem killableRun) killableSwitch ∧
      killableSwitch.prev.alive = true ∧
      ¬ Accounted wholeSystem (lastSwitchedOut killableRun 100) killableSwitch
        (run wholeSystem killableRun)
        (run wholeSystem (killableRun ++ [Event.switch killableSwitch])) := by
  refine ⟨wholeSystem_passesAll, by decide, ⟨by decide, rfl⟩, by decide, ?_⟩
  intro h
  have hstamp := h.runqlatStart (by decide)
  revert hstamp
  decide

end XMonitor.Sched
