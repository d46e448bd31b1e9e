import XMonitor.Events.ProcessExit

/-!
# What an exit event means

An exit event should not be published, and nothing that is kept for a process should be
dropped, while a thread of the process lives. Since every thread that exits is reported
with the tgid of its process, this holds in every run of a history of threads exactly if
each thread that exits in the history is the only one of its process.
-/

namespace XMonitor.ProcessExit

open Sched (Task EvtData)
open Collector (UnwindTablesOperEvt UnwindState)

/-- A thread of the process lives. -/
def Threads.Living (threads : Threads) (pid : Int32) : Prop :=
  ∃ u ∈ threads.alive, u.tgid.toInt32 = pid

/-- The process has had threads, and none lives. -/
def Threads.Ended (threads : Threads) (pid : Int32) : Prop :=
  ∃ tgid ∈ threads.seen, tgid.toInt32 = pid ∧ ∀ u ∈ threads.alive, u.tgid ≠ tgid

/-- An action publishes no exit of a process and drops nothing of it while it lives. -/
structure Sound (cfg : Config) (s : State) (a : Action) : Prop where
  published : ∀ evtInfo, (step cfg s a).events.accepted = s.events.accepted ++ [evtInfo] →
    ¬ s.threads.Living evtInfo.evtData.pid
  processVM : ∀ pid ∈ s.processVMMap, pid ∉ (step cfg s a).processVMMap → ¬ s.threads.Living pid
  symCache : ∀ pid ∈ s.symCache, pid ∉ (step cfg s a).symCache → ¬ s.threads.Living pid
  unwind : ∀ pid ∈ s.unwind.pidModulesMap.keys, pid ∉ (step cfg s a).unwind.pidModulesMap.keys →
    ¬ s.threads.Living pid

/-! ## Threads -/

section Threads

variable {threads : Threads} {pid : Int32}

theorem Threads.Ended.not_living (h : threads.Ended pid) : ¬ threads.Living pid := by
  obtain ⟨tgid, -, rfl, hall⟩ := h
  rintro ⟨u, hu, htgid⟩
  exact hall u hu (congrArg Int32.toUInt32 htgid)

/-- A process that has ended stays so. -/
theorem Threads.Ended.step (h : threads.Ended pid) {e : ThreadEvent} (he : threads.Possible e) :
    (threads.step e).Ended pid := by
  obtain ⟨tgid, hseen, hpid, hall⟩ := h
  cases e with
  | create t =>
      refine ⟨tgid, Finset.mem_insert_of_mem hseen, hpid, ?_⟩
      intro u hu
      obtain rfl | hu := Finset.mem_insert.mp hu
      · rintro rfl
        obtain ⟨v, hv, hv'⟩ | hfresh := he.2
        · exact hall v hv hv'
        · exact hfresh hseen
      · exact hall u hu
  | exit t =>
      exact ⟨tgid, hseen, hpid, fun u hu => hall u (Finset.mem_of_mem_erase hu)⟩

/-- The only thread of a process ends it. -/
theorem Threads.ended_of_exit (hseen : ∀ u ∈ threads.alive, u.tgid ∈ threads.seen) {t : Thread}
    (ht : threads.Possible (.exit t)) (honly : threads.OnlyThread (.exit t)) :
    (threads.step (.exit t)).Ended t.tgid.toInt32 := by
  refine ⟨t.tgid, hseen t ht, rfl, ?_⟩
  intro u hu htgid
  exact (Finset.mem_erase.mp hu).1 (honly u (Finset.mem_of_mem_erase hu) htgid)

end Threads

/-! ## Events of processes that have ended -/

/-- Everything on its way is about a process that has ended. -/
structure Inv (s : State) : Prop where
  seen : ∀ u ∈ s.threads.alive, u.tgid ∈ s.threads.seen
  sent : ∀ evtData ∈ s.sched.sent, evtData.evtType = .processExit →
    s.threads.Ended evtData.pid.toInt32
  channel : ∀ evtData ∈ s.cpuSchedEvtDataChan.queue, evtData.evtType = .processExit →
    s.threads.Ended evtData.pid.toInt32
  events : EventCenter.Inv s.events
  accepted : ∀ evtInfo ∈ s.events.accepted, s.threads.Ended evtInfo.evtData.pid
  profileOp : ∀ pid, s.profileOp = some pid → s.threads.Ended pid
  operations : ∀ pid, UnwindTablesOperEvt.delete pid ∈ s.unwindTablesOperEvtChan.queue →
    s.threads.Ended pid

theorem inv_init : Inv {} := by
  refine ⟨?_, ?_, ?_, EventCenter.inv_init, ?_, ?_, ?_⟩
  · intro u hu
    cases hu
  · intro evtData h
    cases h
  · intro evtData h
    cases h
  · intro evtInfo h
    cases h
  · intro pid h
    cases h
  · intro pid h
    cases h

/-- The threads meet a condition before an action of theirs. -/
def Meets (P : Threads → ThreadEvent → Prop) (s : State) (a : Action) : Prop :=
  ∀ e, a.threadEvent = some e → P s.threads e

theorem nextEvent_accepted {s : EventCenter.State EBPFEventProcessExit}
    (hinv : EventCenter.Inv s) {progName : String}
    {evtInfo : EventCenter.EBPFEventInfo EBPFEventProcessExit}
    (h : nextEvent progName s = some evtInfo) : evtInfo ∈ s.accepted := by
  obtain ⟨evtProg, hprog, hhead⟩ := Option.bind_eq_some_iff.mp h
  exact EventCenter.mem_accepted_of_mem_queue hinv hprog (List.mem_of_mem_head? hhead)

section Step

variable {cfg : Config} {s : State}

/-- A step of the center that accepts nothing. -/
theorem Inv.center (hinv : Inv s) {events : EventCenter.State EBPFEventProcessExit}
    (hevents : EventCenter.Inv events) (haccepted : events.accepted = s.events.accepted) :
    Inv { s with events } := by
  refine ⟨hinv.seen, hinv.sent, hinv.channel, hevents, ?_, hinv.profileOp, hinv.operations⟩
  intro evtInfo h
  apply hinv.accepted evtInfo
  rw [← haccepted]
  exact h

/-- The threads change, and nothing else. -/
theorem Inv.threads (hinv : Inv s) {e : ThreadEvent} (he : s.threads.Possible e) :
    Inv { s with threads := s.threads.step e } := by
  refine ⟨?_, ?_, ?_, hinv.events, ?_, ?_, ?_⟩
  · intro u hu
    cases e with
    | create t =>
        obtain rfl | hu := Finset.mem_insert.mp hu
        · exact Finset.mem_insert_self _ _
        · exact Finset.mem_insert_of_mem (hinv.seen u hu)
    | exit t => exact hinv.seen u (Finset.mem_of_mem_erase hu)
  · intro evtData h hexit
    exact (hinv.sent evtData h hexit).step he
  · intro evtData h hexit
    exact (hinv.channel evtData h hexit).step he
  · intro evtInfo h
    exact (hinv.accepted evtInfo h).step he
  · intro pid h
    exact (hinv.profileOp pid h).step he
  · intro pid h
    exact (hinv.operations pid h).step he

theorem Inv.exit (hinv : Inv s) {ts : Task} (reserved : Option EvtData)
    (he : s.threads.Possible (.exit (.ofTask ts)))
    (honly : s.threads.OnlyThread (.exit (.ofTask ts))) :
    Inv (step cfg s (.exit ts reserved)) := by
  have hended := Threads.ended_of_exit hinv.seen he honly
  obtain ⟨hseen, hsent, hchannel, hevents, haccepted, hop, hops⟩ := hinv.threads he
  refine ⟨hseen, ?_, hchannel, hevents, haccepted, hop, hops⟩
  intro evtData h hexit
  obtain h | h := List.mem_append.mp h
  · exact hsent evtData h hexit
  · obtain ⟨r, -, rfl⟩ := List.mem_map.mp h
    exact hended

theorem Inv.sched (hinv : Inv s) {e : Sched.Event}
    (he : ∀ ts reserved, e ≠ .processExit ts reserved) :
    Inv { s with sched := Sched.step cfg.filter s.sched e } := by
  refine ⟨hinv.seen, ?_, hinv.channel, hinv.events, hinv.accepted, hinv.profileOp,
    hinv.operations⟩
  intro evtData h hexit
  exact hinv.sent evtData (Sched.mem_sent_of_step he h hexit) hexit

theorem Inv.trace (hinv : Inv s) : Inv (trace s) := by
  rw [ProcessExit.trace]
  split
  next evtData hrecord =>
    refine ⟨hinv.seen, hinv.sent, ?_, hinv.events, hinv.accepted, hinv.profileOp,
      hinv.operations⟩
    intro evtData' h hexit
    change evtData' ∈ (s.cpuSchedEvtDataChan.offer evtData).queue at h
    rw [Chan.queue_offer] at h
    split at h
    · obtain h | h := List.mem_append.mp h
      · exact hinv.channel evtData' h hexit
      · rw [List.mem_singleton.mp h] at hexit ⊢
        exact hinv.sent evtData (List.mem_of_getElem? hrecord) hexit
    · exact hinv.channel evtData' h hexit
  next => exact hinv

theorem Inv.update (hinv : Inv s) : Inv (update s) := by
  rw [ProcessExit.update]
  split
  next evtData c hrecv =>
    have hqueue := Chan.queue_of_recv hrecv
    refine ⟨hinv.seen, hinv.sent, ?_, ?_, ?_, hinv.profileOp, hinv.operations⟩
    · intro evtData' h hexit
      apply hinv.channel evtData' _ hexit
      rw [hqueue]
      exact List.mem_cons_of_mem _ h
    · change EventCenter.Inv (if _ then _ else _)
      split
      · exact hinv.events.publish _
      · exact hinv.events
    · intro evtInfo h
      change evtInfo ∈ (if evtData.evtType = .processExit then _ else s.events).accepted at h
      split at h
      next hexit =>
        obtain heq | heq := EventCenter.accepted_publish s.events (exitEvent evtData)
        · rw [heq] at h
          obtain h | h := List.mem_append.mp h
          · exact hinv.accepted evtInfo h
          · rw [List.mem_singleton.mp h]
            apply hinv.channel evtData _ hexit
            rw [hqueue]
            exact List.mem_cons_self
        · rw [heq] at h
          exact hinv.accepted evtInfo h
      next => exact hinv.accepted evtInfo h
  next => exact hinv

theorem Inv.handleProcessVM (hinv : Inv s) : Inv (handleProcessVM cfg s) := by
  rw [ProcessExit.handleProcessVM]
  split
  next evtInfo hnext =>
    obtain ⟨hseen, hsent, hchannel, hevents, haccepted, hop, hops⟩ :=
      hinv.center (hinv.events.read cfg.processVM) (EventCenter.accepted_read s.events _)
    exact ⟨hseen, hsent, hchannel, hevents, haccepted, hop, hops⟩
  next => exact hinv

theorem Inv.handleProfile (hinv : Inv s) : Inv (handleProfile cfg s) := by
  rw [ProcessExit.handleProfile]
  split
  next evtInfo _ hnext =>
    have hread := hinv.center (hinv.events.read cfg.profile) (EventCenter.accepted_read s.events _)
    split
    next =>
      obtain ⟨hseen, hsent, hchannel, hevents, haccepted, -, hops⟩ := hread
      refine ⟨hseen, hsent, hchannel, hevents, haccepted, ?_, hops⟩
      intro pid h
      cases h
      exact hinv.accepted evtInfo (nextEvent_accepted hinv.events hnext)
    next => exact hread
  next => exact hinv

theorem Inv.sendDelete (hinv : Inv s) : Inv (sendDelete s) := by
  rw [ProcessExit.sendDelete]
  split
  next pid hop =>
    split
    next c hsend =>
      refine ⟨hinv.seen, hinv.sent, hinv.channel, hinv.events, hinv.accepted, ?_, ?_⟩
      · intro pid' h
        cases h
      · intro pid' h
        change _ ∈ c.queue at h
        rw [Chan.queue_of_send hsend] at h
        obtain h | h := List.mem_append.mp h
        · exact hinv.operations pid' h
        · cases List.mem_singleton.mp h
          exact hinv.profileOp pid hop
    next => exact hinv
  next => exact hinv

theorem Inv.handleUnwind (hinv : Inv s) : Inv (handleUnwind s) := by
  rw [ProcessExit.handleUnwind]
  split
  next opEvt c hrecv =>
    refine ⟨hinv.seen, hinv.sent, hinv.channel, hinv.events, hinv.accepted, hinv.profileOp, ?_⟩
    intro pid h
    apply hinv.operations pid
    rw [Chan.queue_of_recv hrecv]
    exact List.mem_cons_of_mem _ h
  next => exact hinv

theorem Inv.sendCreate (hinv : Inv s) (pid : Int32)
    (procModules : Option (List Collector.ProcModule)) (updateFails : Bool) :
    Inv (step cfg s (.sendCreate pid procModules updateFails)) := by
  refine ⟨hinv.seen, hinv.sent, hinv.channel, hinv.events, hinv.accepted, hinv.profileOp, ?_⟩
  intro pid' h
  change _ ∈ (s.unwindTablesOperEvtChan.offer _).queue at h
  rw [Chan.queue_offer] at h
  split at h
  · obtain h | h := List.mem_append.mp h
    · exact hinv.operations pid' h
    · cases List.mem_singleton.mp h
  · exact hinv.operations pid' h

/-- Whatever happens next, only processes that have ended are reported, if a thread that
exits is the only one of its process. -/
theorem Inv.step (hinv : Inv s) {a : Action} (hpossible : Meets Threads.Possible s a)
    (honly : Meets Threads.OnlyThread s a) : Inv (step cfg s a) := by
  cases a with
  | create t => exact hinv.threads (hpossible _ rfl)
  | exit ts reserved => exact hinv.exit reserved (hpossible _ rfl) (honly _ rfl)
  | sched e =>
      cases e with
      | processExit ts reserved => exact hinv
      | wakeup ts nowNs => exact hinv.sched (by simp)
      | wakeupNew ts nowNs => exact hinv.sched (by simp)
      | switch sw => exact hinv.sched (by simp)
      | processHang ts reserved => exact hinv.sched (by simp)
  | trace => exact hinv.trace
  | update => exact hinv.update
  | subscribe progName =>
      exact hinv.center (hinv.events.step _) (EventCenter.accepted_subscribe _ _ _)
  | receive => exact hinv.center hinv.events.receive (EventCenter.accepted_receive _)
  | lock => exact hinv.center hinv.events.lock (EventCenter.accepted_lock _)
  | visit progName => exact hinv.center (hinv.events.visit _) (EventCenter.accepted_visit _ _)
  | unlock => exact hinv.center hinv.events.unlock (EventCenter.accepted_unlock _)
  | handleProcessVM => exact hinv.handleProcessVM
  | handleProfile => exact hinv.handleProfile
  | sendDelete => exact hinv.sendDelete
  | handleUnwind => exact hinv.handleUnwind
  | account pid =>
      exact ⟨hinv.seen, hinv.sent, hinv.channel, hinv.events, hinv.accepted, hinv.profileOp,
        hinv.operations⟩
  | resolve pid =>
      exact ⟨hinv.seen, hinv.sent, hinv.channel, hinv.events, hinv.accepted, hinv.profileOp,
        hinv.operations⟩
  | sendCreate pid procModules updateFails => exact hinv.sendCreate pid procModules updateFails

end Step

/-! ## What a step publishes and drops -/

section Drops

variable {cfg : Config} {s : State} {a : Action}

theorem accepted_of_handleProcessVM :
    (handleProcessVM cfg s).events.accepted = s.events.accepted := by
  rw [handleProcessVM]
  split
  · exact EventCenter.accepted_read _ _
  · rfl

theorem accepted_of_handleProfile :
    (handleProfile cfg s).events.accepted = s.events.accepted := by
  rw [handleProfile]
  split
  · split <;> exact EventCenter.accepted_read _ _
  · rfl

/-- Only `Update` publishes. -/
theorem published_of_step {evtInfo : EventCenter.EBPFEventInfo EBPFEventProcessExit}
    (h : (step cfg s a).events.accepted = s.events.accepted ++ [evtInfo]) :
    ∃ evtData ∈ s.cpuSchedEvtDataChan.queue, evtData.evtType = .processExit ∧
      evtInfo = exitEvent evtData := by
  have hne : ∀ accepted : List (EventCenter.EBPFEventInfo EBPFEventProcessExit),
      accepted ≠ accepted ++ [evtInfo] := by
    intro accepted heq
    have hlen := congrArg List.length heq
    simp at hlen
  have hsame : (step cfg s a).events.accepted ≠ s.events.accepted := fun heq =>
    hne _ (heq.symm.trans h)
  cases a with
  | update =>
      simp only [step, update] at h
      split at h
      next evtData c hrecv =>
        refine ⟨evtData, ?_, ?_⟩
        · rw [Chan.queue_of_recv hrecv]
          exact List.mem_cons_self
        · split at h
          next hexit =>
            obtain heq | heq := EventCenter.accepted_publish s.events (exitEvent evtData)
            · rw [heq] at h
              exact ⟨hexit, (List.singleton_inj.mp (List.append_cancel_left h)).symm⟩
            · rw [heq] at h
              exact absurd h (hne _)
          next => exact absurd h (hne _)
      next => exact absurd h (hne _)
  | sched e => cases e <;> exact absurd rfl hsame
  | trace =>
      refine absurd ?_ hsame
      rw [step, trace]
      split <;> rfl
  | subscribe progName => exact absurd (EventCenter.accepted_subscribe _ _ _) hsame
  | receive => exact absurd (EventCenter.accepted_receive _) hsame
  | lock => exact absurd (EventCenter.accepted_lock _) hsame
  | visit progName => exact absurd (EventCenter.accepted_visit _ _) hsame
  | unlock => exact absurd (EventCenter.accepted_unlock _) hsame
  | handleProcessVM => exact absurd accepted_of_handleProcessVM hsame
  | handleProfile => exact absurd accepted_of_handleProfile hsame
  | sendDelete =>
      refine absurd ?_ hsame
      rw [step, sendDelete]
      repeat' split
      all_goals rfl
  | handleUnwind =>
      refine absurd ?_ hsame
      rw [step, handleUnwind]
      split <;> rfl
  | create t => exact absurd rfl hsame
  | exit ts reserved => exact absurd rfl hsame
  | account pid => exact absurd rfl hsame
  | resolve pid => exact absurd rfl hsame
  | sendCreate pid procModules updateFails => exact absurd rfl hsame

/-- What the programs keep for processes. -/
def State.kept (s : State) : Finset Int32 × Finset Int32 × UnwindState :=
  (s.processVMMap, s.symCache, s.unwind)

theorem kept_of_step (cfg : Config) (s : State) (a : Action) :
    (step cfg s a).kept = s.kept ∨ a = .handleProcessVM ∨ a = .handleProfile ∨
      a = .handleUnwind ∨ (∃ pid, a = .account pid) ∨ ∃ pid, a = .resolve pid := by
  cases a with
  | sched e => cases e <;> exact .inl rfl
  | trace =>
      left
      rw [step, trace]
      split <;> rfl
  | update =>
      left
      rw [step, update]
      split <;> rfl
  | sendDelete =>
      left
      rw [step, sendDelete]
      repeat' split
      all_goals rfl
  | handleProcessVM => exact .inr (.inl rfl)
  | handleProfile => exact .inr (.inr (.inl rfl))
  | handleUnwind => exact .inr (.inr (.inr (.inl rfl)))
  | account pid => exact .inr (.inr (.inr (.inr (.inl ⟨pid, rfl⟩))))
  | resolve pid => exact .inr (.inr (.inr (.inr (.inr ⟨pid, rfl⟩))))
  | _ => exact .inl rfl

/-- What a conditional removal takes away is what it names. -/
theorem eq_of_notMem_ite_erase {p : Prop} [Decidable p] {pids : Finset Int32} {a pid : Int32}
    (h : pid ∈ pids) (h' : pid ∉ if p then pids.erase a else pids) : a = pid := by
  by_contra hne
  apply h'
  split
  · exact Finset.mem_erase.mpr ⟨fun heq => hne heq.symm, h⟩
  · exact h

theorem kept_of_handleProcessVM (cfg : Config) (s : State) :
    (handleProcessVM cfg s).symCache = s.symCache ∧ (handleProcessVM cfg s).unwind = s.unwind ∧
      ∀ pid ∈ s.processVMMap, pid ∉ (handleProcessVM cfg s).processVMMap →
        ∃ evtInfo, nextEvent cfg.processVM s.events = some evtInfo ∧ evtInfo.evtData.pid = pid := by
  rw [handleProcessVM]
  split
  next evtInfo hnext =>
    refine ⟨rfl, rfl, ?_⟩
    intro pid h h'
    exact ⟨evtInfo, hnext, eq_of_notMem_ite_erase h h'⟩
  next => exact ⟨rfl, rfl, fun pid h h' => absurd h h'⟩

theorem kept_of_handleProfile (cfg : Config) (s : State) :
    (handleProfile cfg s).processVMMap = s.processVMMap ∧
      (handleProfile cfg s).unwind = s.unwind ∧
      ∀ pid ∈ s.symCache, pid ∉ (handleProfile cfg s).symCache →
        ∃ evtInfo, nextEvent cfg.profile s.events = some evtInfo ∧ evtInfo.evtData.pid = pid := by
  rw [handleProfile]
  split
  next evtInfo _ hnext =>
    split
    next =>
      refine ⟨rfl, rfl, ?_⟩
      intro pid h h'
      exact ⟨evtInfo, hnext, eq_of_notMem_ite_erase h h'⟩
    next => exact ⟨rfl, rfl, fun pid h h' => absurd h h'⟩
  next => exact ⟨rfl, rfl, fun pid h h' => absurd h h'⟩

theorem kept_of_handleUnwind (s : State) :
    (handleUnwind s).processVMMap = s.processVMMap ∧ (handleUnwind s).symCache = s.symCache ∧
      ∀ pid ∈ s.unwind.pidModulesMap.keys, pid ∉ (handleUnwind s).unwind.pidModulesMap.keys →
        UnwindTablesOperEvt.delete pid ∈ s.unwindTablesOperEvtChan.queue := by
  rw [handleUnwind]
  split
  next opEvt c hrecv =>
    refine ⟨rfl, rfl, ?_⟩
    intro pid h h'
    rw [Chan.queue_of_recv hrecv, ← Collector.eq_delete_of_handle h h']
    exact List.mem_cons_self
  next => exact ⟨rfl, rfl, fun pid h h' => absurd h h'⟩

/-- No live process is reported or dropped. -/
theorem Inv.sound (hinv : Inv s) : Sound cfg s a := by
  have hpublished : ∀ evtInfo,
      (ProcessExit.step cfg s a).events.accepted = s.events.accepted ++ [evtInfo] →
        ¬ s.threads.Living evtInfo.evtData.pid := by
    intro evtInfo h
    obtain ⟨evtData, hmem, hexit, rfl⟩ := published_of_step h
    exact (hinv.channel evtData hmem hexit).not_living
  have hnext : ∀ progName evtInfo, nextEvent progName s.events = some evtInfo →
      ¬ s.threads.Living evtInfo.evtData.pid := by
    intro progName evtInfo h
    exact (hinv.accepted evtInfo (nextEvent_accepted hinv.events h)).not_living
  -- an action that takes nothing away
  have hkeeps (hvm : s.processVMMap ⊆ (ProcessExit.step cfg s a).processVMMap)
      (hsym : s.symCache ⊆ (ProcessExit.step cfg s a).symCache)
      (hunwind : s.unwind = (ProcessExit.step cfg s a).unwind) : Sound cfg s a := by
    refine ⟨hpublished, ?_, ?_, ?_⟩
    · intro pid h h'
      exact absurd (hvm h) h'
    · intro pid h h'
      exact absurd (hsym h) h'
    · intro pid h h'
      exact absurd (hunwind ▸ h) h'
  obtain h | rfl | rfl | rfl | ⟨pid, rfl⟩ | ⟨pid, rfl⟩ := kept_of_step cfg s a
  · obtain ⟨hvm, hrest⟩ := Prod.mk.inj h
    obtain ⟨hsym, hunwind⟩ := Prod.mk.inj hrest
    exact hkeeps hvm.symm.subset hsym.symm.subset hunwind.symm
  · obtain ⟨hsym, hunwind, hvm⟩ := kept_of_handleProcessVM cfg s
    refine ⟨hpublished, ?_, ?_, ?_⟩
    · intro pid h h'
      obtain ⟨evtInfo, hevt, rfl⟩ := hvm pid h h'
      exact hnext _ evtInfo hevt
    · intro pid h h'
      exact absurd (hsym ▸ h) h'
    · intro pid h h'
      exact absurd (hunwind ▸ h) h'
  · obtain ⟨hvm, hunwind, hsym⟩ := kept_of_handleProfile cfg s
    refine ⟨hpublished, ?_, ?_, ?_⟩
    · intro pid h h'
      exact absurd (hvm ▸ h) h'
    · intro pid h h'
      obtain ⟨evtInfo, hevt, rfl⟩ := hsym pid h h'
      exact hnext _ evtInfo hevt
    · intro pid h h'
      exact absurd (hunwind ▸ h) h'
  · obtain ⟨hvm, hsym, hunwind⟩ := kept_of_handleUnwind s
    refine ⟨hpublished, ?_, ?_, ?_⟩
    · intro pid h h'
      exact absurd (hvm ▸ h) h'
    · intro pid h h'
      exact absurd (hsym ▸ h) h'
    · intro pid h h'
      exact (hinv.operations pid (hunwind pid h h')).not_living
  · exact hkeeps (Finset.subset_insert _ _) (Finset.Subset.refl _) rfl
  · exact hkeeps (Finset.Subset.refl _) (Finset.subset_insert _ _) rfl

end Drops

/-! ## Histories of threads -/

section History

variable {cfg : Config} {s : State}

theorem step_threads (a : Action) :
    (step cfg s a).threads = a.threadEvent.elim s.threads s.threads.step := by
  cases a with
  | sched e => cases e <;> rfl
  | trace =>
      rw [step, trace]
      split <;> rfl
  | update =>
      rw [step, update]
      split <;> rfl
  | handleProcessVM =>
      rw [step, handleProcessVM]
      split <;> rfl
  | handleProfile =>
      rw [step, handleProfile]
      repeat' split
      all_goals rfl
  | sendDelete =>
      rw [step, sendDelete]
      repeat' split
      all_goals rfl
  | handleUnwind =>
      rw [step, handleUnwind]
      split <;> rfl
  | _ => rfl

/-- A condition on the history of the threads is one on the actions. -/
theorem allSteps_meets {P : Threads → ThreadEvent → Prop} (actions : List Action) :
    EventRun.AllSteps (step cfg) (Meets P) s actions ↔
      EventRun.AllSteps Threads.step P s.threads (actions.filterMap Action.threadEvent) := by
  induction actions generalizing s with
  | nil => exact Iff.rfl
  | cons a actions ih =>
      rw [EventRun.AllSteps, ih, step_threads, Meets]
      cases h : a.threadEvent with
      | none =>
          rw [List.filterMap_cons_none h]
          simp
      | some e =>
          rw [List.filterMap_cons_some h, EventRun.AllSteps]
          simp

theorem allSteps_sound (hinv : Inv s) {actions : List Action}
    (hpossible : EventRun.AllSteps (step cfg) (Meets Threads.Possible) s actions)
    (honly : EventRun.AllSteps (step cfg) (Meets Threads.OnlyThread) s actions) :
    EventRun.AllSteps (step cfg) (Sound cfg) s actions := by
  induction actions generalizing s with
  | nil => trivial
  | cons a actions ih => exact ⟨hinv.sound, ih (hinv.step hpossible.1 honly.1) hpossible.2 honly.2⟩

/-! ## A schedule that publishes every exit at once -/

/-- Nothing is on its way. -/
structure Drained (s : State) : Prop where
  traced : s.traced = s.sched.sent.length
  channel : s.cpuSchedEvtDataChan.queue = []
  published : s.events.center.eventPublishChan.queue = []
  dispatcher : s.events.center.dispatcher = .waiting
  programs : s.events.center.eBPFEventProgramMap = ∅

def taskOfThread (t : Thread) : Task where
  pid := t.tid
  tgid := t.tgid
  pgid := t.tgid
  pidns := 0
  kthread := false
  state := Sched.taskDead
  exitState := 0
  comm := []

def blankEvtData : EvtData := ⟨0, .none, 0, 0, []⟩

def ThreadEvent.action : ThreadEvent → Action
  | .create t => .create t
  | .exit t => .exit (taskOfThread t) (some blankEvtData)

/-- An event of a thread, followed by the steps that publish it and hand it on. -/
def ThreadEvent.promptly (e : ThreadEvent) : List Action :=
  [e.action, .trace, .update, .receive, .lock, .unlock]

theorem filterMap_promptly (threads : List ThreadEvent) :
    (threads.flatMap ThreadEvent.promptly).filterMap Action.threadEvent = threads := by
  induction threads with
  | nil => rfl
  | cons e threads ih =>
      rw [List.flatMap_cons, List.filterMap_append, ih]
      cases e <;> rfl

/-- A record that waits in the channel is published and handed on, and nothing is left. -/
theorem update_promptly {evtData : Sched.EvtData} (htype : evtData.evtType = .processExit)
    (htraced : s.traced = s.sched.sent.length)
    (hchannel : s.cpuSchedEvtDataChan.queue = [evtData])
    (hpublished : s.events.center.eventPublishChan.queue = [])
    (hdispatcher : s.events.center.dispatcher = .waiting)
    (hprograms : s.events.center.eBPFEventProgramMap = ∅) :
    (step cfg s .update).events.accepted = s.events.accepted ++ [exitEvent evtData] ∧
      Drained ([Action.update, .receive, .lock, .unlock].foldl (step cfg) s) := by
  obtain ⟨c, hrecv, hc⟩ := Chan.exists_recv hchannel
  have hroom : s.events.center.eventPublishChan.HasRoom := by
    rw [Chan.HasRoom, hpublished]
    decide
  obtain ⟨p, hsend⟩ := Chan.exists_send hroom (exitEvent evtData)
  have hp : p.queue = [exitEvent evtData] := by
    rw [Chan.queue_of_send hsend, hpublished]
    rfl
  obtain ⟨q, hrecv', hq⟩ := Chan.exists_recv hp
  have hupdate : update s =
      { s with
        cpuSchedEvtDataChan := c
        events := { s.events with
          center.eventPublishChan := p
          accepted := s.events.accepted ++ [exitEvent evtData] } } := by
    rw [update, hrecv]
    simp only [htype, if_true]
    rw [EventCenter.publish, hsend]
  refine ⟨?_, ?_⟩
  · rw [step, hupdate]
  · change Drained ([Action.receive, .lock, .unlock].foldl (step cfg) (update s))
    rw [hupdate]
    have hkeys : (∅ : AList fun _ : String =>
        EventCenter.EBPFEventProgram EBPFEventProcessExit).keys = [] := rfl
    refine ⟨?_, ?_, ?_, ?_, ?_⟩
    all_goals
      simp only [List.foldl_cons, List.foldl_nil, step, EventCenter.receive, hdispatcher, hrecv',
        EventCenter.lock, hprograms, hkeys, EventCenter.unlock]
    · exact htraced
    · exact hc
    · exact hq

/-- The exit of a thread is in the channel two steps later. -/
theorem exit_traced (h : Drained s) (t : Thread) :
    [Action.exit (taskOfThread t) (some blankEvtData), .trace].foldl (step cfg) s =
      { s with
        threads := s.threads.step (.exit t)
        sched := Sched.schedProcessExit (taskOfThread t) (some blankEvtData) s.sched
        traced := s.traced + 1
        cpuSchedEvtDataChan := s.cpuSchedEvtDataChan.offer
          (Sched.taskEvt .processExit (taskOfThread t) blankEvtData) } := by
  have hrecord : ∀ evtData, (s.sched.sent ++ [evtData])[s.traced]? = some evtData := by
    intro evtData
    rw [h.traced, List.getElem?_concat_length]
  change trace { s with
    threads := s.threads.step (.exit t)
    sched := Sched.schedProcessExit (taskOfThread t) (some blankEvtData) s.sched } = _
  have hsent : (Sched.schedProcessExit (taskOfThread t) (some blankEvtData) s.sched).sent =
      s.sched.sent ++ [Sched.taskEvt .processExit (taskOfThread t) blankEvtData] := rfl
  simp only [trace, hsent, hrecord]

/-- The exit of a thread is published two steps later. -/
theorem exit_promptly (h : Drained s) (t : Thread) :
    ∃ s' evtInfo,
      [Action.exit (taskOfThread t) (some blankEvtData), .trace].foldl (step cfg) s = s' ∧
      s'.threads = s.threads.step (.exit t) ∧
      (step cfg s' .update).events.accepted = s'.events.accepted ++ [evtInfo] ∧
      evtInfo.evtData.pid = t.tgid.toInt32 ∧
      Drained ([Action.update, .receive, .lock, .unlock].foldl (step cfg) s') := by
  let evtData := Sched.taskEvt .processExit (taskOfThread t) blankEvtData
  have hroom : s.cpuSchedEvtDataChan.HasRoom := by
    rw [Chan.HasRoom, h.channel]
    decide
  have hoffer : (s.cpuSchedEvtDataChan.offer evtData).queue = [evtData] := by
    rw [Chan.queue_offer, if_pos hroom, h.channel]
    rfl
  have htraced : s.traced + 1 = (s.sched.sent ++ [evtData]).length := by
    rw [h.traced, List.length_append]
    rfl
  obtain ⟨haccepted, hdrained⟩ := update_promptly (s := { s with
    threads := s.threads.step (.exit t)
    sched := Sched.schedProcessExit (taskOfThread t) (some blankEvtData) s.sched
    traced := s.traced + 1
    cpuSchedEvtDataChan := s.cpuSchedEvtDataChan.offer evtData })
    rfl htraced hoffer h.published h.dispatcher h.programs
  exact ⟨_, exitEvent evtData, exit_traced h t, rfl, haccepted, rfl, hdrained⟩

theorem drained_create (h : Drained s) (t : Thread) :
    [Action.create t, .trace, .update, .receive, .lock, .unlock].foldl (step cfg) s =
      { s with threads := s.threads.step (.create t) } := by
  obtain ⟨htraced, hchannel, hpublished, hdispatcher, hprograms⟩ := h
  have hrecord : s.sched.sent[s.traced]? = none := by
    rw [htraced]
    exact List.getElem?_eq_none (Nat.le_refl _)
  have hrecv : s.cpuSchedEvtDataChan.recv = none := Chan.recv_of_queue hchannel
  have hrecv' : s.events.center.eventPublishChan.recv = none := Chan.recv_of_queue hpublished
  simp only [List.foldl_cons, List.foldl_nil, step, trace, hrecord, update, hrecv,
    EventCenter.receive, hdispatcher, hrecv', EventCenter.lock, EventCenter.unlock]

/-- If every exit is published at once, a sound run shows that only the last threads exit. -/
theorem onlyThread_of_promptly (h : Drained s) {threads : List ThreadEvent}
    (hsound : EventRun.AllSteps (step cfg) (Sound cfg) s (threads.flatMap ThreadEvent.promptly)) :
    EventRun.AllSteps Threads.step Threads.OnlyThread s.threads threads := by
  induction threads generalizing s with
  | nil => trivial
  | cons e threads ih =>
      rw [List.flatMap_cons, EventRun.allSteps_append] at hsound
      obtain ⟨hfirst, hrest⟩ := hsound
      cases e with
      | create t =>
          have hcreate : (ThreadEvent.create t).promptly.foldl (step cfg) s =
              { s with threads := s.threads.step (.create t) } := drained_create h t
          rw [hcreate] at hrest
          refine ⟨trivial, ih ?_ hrest⟩
          exact ⟨h.traced, h.channel, h.published, h.dispatcher, h.programs⟩
      | exit t =>
          obtain ⟨s', evtInfo, hs', hthreads, haccepted, hpid, hdrained⟩ := exit_promptly h t
          have hpromptly : (ThreadEvent.exit t).promptly.foldl (step cfg) s =
              [Action.update, .receive, .lock, .unlock].foldl (step cfg) s' := by
            have hparts : (ThreadEvent.exit t).promptly =
                [Action.exit (taskOfThread t) (some blankEvtData), .trace] ++
                  [.update, .receive, .lock, .unlock] := rfl
            rw [hparts, List.foldl_append, hs']
          have hupdate : Sound cfg s' .update := by
            rw [← hs']
            exact hfirst.2.2.1
          refine ⟨?_, ?_⟩
          · intro u hu htgid
            by_contra hne
            apply hupdate.published evtInfo haccepted
            rw [hthreads, hpid, ← htgid]
            exact ⟨u, Finset.mem_erase.mpr ⟨hne, hu⟩, rfl⟩
          · rw [hpromptly] at hrest
            have hafter : ([Action.update, .receive, .lock, .unlock].foldl (step cfg) s').threads =
                s.threads.step (.exit t) := by
              rw [← hthreads]
              simp only [List.foldl_cons, List.foldl_nil, step_threads]
              rfl
            rw [← hafter]
            exact ih hdrained hrest

end History

/-- Whatever the parts do, no exit of a live process is published and nothing of it is
dropped, if and only if every thread that exits is the only one of its process. -/
theorem sound_iff_onlyThread (cfg : Config) (threads : List ThreadEvent)
    (h : EventRun.AllSteps Threads.step Threads.Possible {} threads) :
    (∀ actions, actions.filterMap Action.threadEvent = threads →
      EventRun.AllSteps (step cfg) (Sound cfg) {} actions) ↔
      EventRun.AllSteps Threads.step Threads.OnlyThread {} threads := by
  constructor
  · intro hsound
    have hdrained : Drained {} := ⟨rfl, rfl, rfl, rfl, rfl⟩
    exact onlyThread_of_promptly hdrained (hsound _ (filterMap_promptly threads))
  · rintro honly actions rfl
    exact allSteps_sound inv_init ((allSteps_meets actions).mpr h)
      ((allSteps_meets actions).mpr honly)

/-- Both programs run on the whole system. -/
def exporter : Config where
  filter :=
    { scopeType := 1
      scopeValue := 0
      offcpuMinDurationNanosecs := 5000000000
      offcpuMaxDurationNanosecs := 50000000000
      offcpuTaskType := 0 }
  processVM := "process_vm"
  profile := "profile"
  commFilter := fun _ => true

def singleThread : List ThreadEvent := [.create ⟨100, 100⟩, .exit ⟨100, 100⟩]

theorem sound_singleThread :
    EventRun.AllSteps (step exporter) (Sound exporter) {}
      (singleThread.flatMap ThreadEvent.promptly) := by
  have hpossible : EventRun.AllSteps Threads.step Threads.Possible {} singleThread :=
    ⟨⟨by decide, .inr (by decide)⟩, by
      change (⟨100, 100⟩ : Thread) ∈ insert (⟨100, 100⟩ : Thread) (∅ : Finset Thread)
      decide, trivial⟩
  refine (sound_iff_onlyThread exporter singleThread hpossible).mpr ?_ _
    (filterMap_promptly singleThread)
  refine ⟨trivial, ?_, trivial⟩
  intro u hu _
  exact Finset.mem_singleton.mp hu

/-- A second thread of process 100 exits, and its first one goes on. -/
def secondThread : List ThreadEvent := [.create ⟨100, 100⟩, .create ⟨101, 100⟩, .exit ⟨101, 100⟩]

theorem secondThread_not_sound :
    EventRun.AllSteps Threads.step Threads.Possible {} secondThread ∧
      ¬ EventRun.AllSteps (step exporter) (Sound exporter) {}
        (secondThread.flatMap ThreadEvent.promptly) := by
  have hfirst : (⟨100, 100⟩ : Thread) ∈ ({⟨101, 100⟩, ⟨100, 100⟩} : Finset Thread) := by decide
  have hsecond : (⟨101, 100⟩ : Thread) ∈ ({⟨101, 100⟩, ⟨100, 100⟩} : Finset Thread) := by decide
  have hpossible : EventRun.AllSteps Threads.step Threads.Possible {} secondThread := by
    refine ⟨?_, ?_, hsecond, trivial⟩
    · exact ⟨by decide, .inr (by decide)⟩
    · exact ⟨by decide, .inl ⟨⟨100, 100⟩, Finset.mem_singleton_self _, rfl⟩⟩
  refine ⟨hpossible, ?_⟩
  intro hsound
  have honly := onlyThread_of_promptly (s := {}) ⟨rfl, rfl, rfl, rfl, rfl⟩ hsound
  have heq : (⟨100, 100⟩ : Thread) = ⟨101, 100⟩ := honly.2.2.1 _ hfirst rfl
  cases heq

end XMonitor.ProcessExit
