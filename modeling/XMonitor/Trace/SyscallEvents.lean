import XMonitor.Lib.BpfHash
import XMonitor.Lib.EventRun
import Mathlib.Data.List.Nodup

/-!
# The events of system calls

The program on `sys_enter` leaves a record of the call for the thread, and the one on `sys_exit`
completes the record where it lies, sends a copy of it and deletes it. A record whose copy could
not be sent stays, and so does the one of a thread that ends inside a call.

Beside the map of the records runs what the threads of the traced process really do: the call that
each is in, from before the tracing or since, with an identifier of its own.
-/

namespace XMonitor.Trace

structure SyscallEvent where
  pid : Int32
  tid : UInt32
  syscallNr : Int64
  syscallRet : Int64 := 0
  callStartNs : UInt64
  callDelayNs : UInt64 := 0
  kernelStackId : UInt32 := 0
  userStackId : UInt32 := 0
deriving DecidableEq

/-- `xm_syscalls_record_map`. -/
abbrev RecordMap := BpfHash UInt32 SyscallEvent 10000

/-- The filter of both programs, for the process `pid`. -/
def Traced (filterPid pid : Int32) : Prop := filterPid ≠ 0 ∧ pid = filterPid

instance (filterPid pid : Int32) : Decidable (Traced filterPid pid) :=
  inferInstanceAs (Decidable (_ ∧ _))

/-- `xm_trace_tp_btf__sys_enter`. -/
def sysEnter (filterPid pid : Int32) (tid : UInt32) (syscallNr : Int64) (now : UInt64)
    (recordMap : RecordMap) : RecordMap :=
  if Traced filterPid pid then
    recordMap.put tid { pid, tid, syscallNr, callStartNs := now }
  else recordMap

/-- What `sys_exit` writes to the record. -/
def SyscallEvent.complete (se : SyscallEvent) (ret : Int64) (now : UInt64) : SyscallEvent :=
  { se with callDelayNs := now - se.callDelayNs, syscallRet := ret }

/-- `xm_trace_tp_btf__sys_exit`, with the event that it submits. `reserved` says whether the ring
buffer has room. -/
def sysExit (filterPid pid : Int32) (tid : UInt32) (ret : Int64) (now : UInt64) (reserved : Bool)
    (recordMap : RecordMap) : RecordMap × Option SyscallEvent :=
  if Traced filterPid pid then
    match recordMap.lookup tid with
    | none => (recordMap, none)
    | some se =>
        if reserved then (recordMap.delete tid, some (se.complete ret now))
        else (recordMap.put tid (se.complete ret now), none)
  else (recordMap, none)

/-! ## The threads -/

structure Call where
  id : Nat
  syscallNr : Int64
  enterNs : UInt64
deriving DecidableEq

/-- The calls that the threads of the process are in. An identifier is used once. -/
structure Ongoing where
  calls : UInt32 → Option Call
  entered : Nat
  fresh : ∀ tid call, calls tid = some call → call.id < entered
  distinct : ∀ tid tid' call call', calls tid = some call → calls tid' = some call' →
    call.id = call'.id → tid = tid'

namespace Ongoing

/-- No thread is in a call. -/
def idle : Ongoing where
  calls _ := none
  entered := 0
  fresh := by simp
  distinct := by simp

/-- A thread enters a call. -/
def enter (ongoing : Ongoing) (tid : UInt32) (syscallNr : Int64) (now : UInt64) : Ongoing where
  calls tid' := if tid' = tid then some ⟨ongoing.entered, syscallNr, now⟩ else ongoing.calls tid'
  entered := ongoing.entered + 1
  fresh := by
    intro tid' call h
    split at h
    · cases h
      exact Nat.lt_succ_self _
    · exact Nat.lt_succ_of_lt (ongoing.fresh tid' call h)
  distinct := by
    intro t t' call call' h h' hid
    split at h <;> split at h'
    · next heq heq' => exact heq.trans heq'.symm
    · cases h
      exact absurd hid.symm (ongoing.fresh t' call' h').ne
    · cases h'
      exact absurd hid (ongoing.fresh t call h).ne
    · exact ongoing.distinct t t' call call' h h' hid

/-- A thread is in no call any more. -/
def leave (ongoing : Ongoing) (tid : UInt32) : Ongoing where
  calls tid' := if tid' = tid then none else ongoing.calls tid'
  entered := ongoing.entered
  fresh := by
    intro tid' call h
    split at h
    · cases h
    · exact ongoing.fresh tid' call h
  distinct := by
    intro t t' call call' h h' hid
    split at h
    · cases h
    · split at h'
      · cases h'
      · exact ongoing.distinct t t' call call' h h' hid

end Ongoing

/-- An event in the ring buffer, with the exit at which it has been submitted and the call that
has ended there, if the thread was in one. -/
structure Submitted where
  tid : UInt32
  evt : SyscallEvent
  ended : Option Call
  ret : Int64
  exitNs : UInt64
deriving DecidableEq

structure State where
  recordMap : RecordMap := BpfHash.empty
  ongoing : Ongoing
  submitted : List Submitted := []

inductive Action where
  | sysEnter (pid : Int32) (tid : UInt32) (syscallNr : Int64) (now : UInt64)
  | sysExit (pid : Int32) (tid : UInt32) (ret : Int64) (now : UInt64) (reserved : Bool)
  /-- A thread ends, and its number may be given to another one. -/
  | threadExit (pid : Int32) (tid : UInt32)

/-- What a thread does to the calls of the process. -/
def Ongoing.step (filterPid : Int32) (ongoing : Ongoing) : Action → Ongoing
  | .sysEnter pid tid syscallNr now =>
      if Traced filterPid pid then ongoing.enter tid syscallNr now else ongoing
  | .sysExit pid tid _ _ _ | .threadExit pid tid =>
      if Traced filterPid pid then ongoing.leave tid else ongoing

def step (filterPid : Int32) (s : State) (action : Action) : State :=
  match action with
  | .sysEnter pid tid syscallNr now =>
      { s with
        recordMap := Trace.sysEnter filterPid pid tid syscallNr now s.recordMap
        ongoing := s.ongoing.step filterPid action }
  | .sysExit pid tid ret now reserved =>
      let (recordMap, evt) := Trace.sysExit filterPid pid tid ret now reserved s.recordMap
      { recordMap
        ongoing := s.ongoing.step filterPid action
        submitted := s.submitted ++
          (evt.map fun evt => ⟨tid, evt, s.ongoing.calls tid, ret, now⟩).toList }
  | .threadExit _ _ => { s with ongoing := s.ongoing.step filterPid action }

/-- A run of the programs, which are attached while threads are in calls. -/
def run (filterPid : Int32) (ongoing : Ongoing) (actions : List Action) : State :=
  actions.foldl (step filterPid) { ongoing }

/-- The event is about the call that has ended, and says how long it took. -/
def Submitted.Reports (s : Submitted) : Prop :=
  ∃ call ∈ s.ended, s.evt.tid = s.tid ∧ s.evt.syscallNr = call.syscallNr ∧
    s.evt.syscallRet = s.ret ∧ s.exitNs.toNat = call.enterNs.toNat + s.evt.callDelayNs.toNat

instance (s : Submitted) : Decidable s.Reports :=
  inferInstanceAs (Decidable (∃ call ∈ s.ended, _))

/-- The identifiers of the calls that events have been submitted for. -/
def endedIds (submitted : List Submitted) : List Nat :=
  submitted.filterMap fun s => s.ended.map Call.id

/-- Every event reports a call, and no call has two. -/
structure Paired (submitted : List Submitted) : Prop where
  reports : ∀ s ∈ submitted, s.Reports
  once : (endedIds submitted).Nodup

/-- An exit that submits an event ends a call that was entered when the clock stood at zero. -/
def FromZero (filterPid : Int32) (s : State) : Action → Prop
  | .sysExit pid tid _ _ true =>
      Traced filterPid pid → s.recordMap.lookup tid ≠ none →
        ∃ call ∈ s.ongoing.calls tid, call.enterNs = 0
  | _ => True

/-! ## Steps -/

/-- The process whose thread it is. -/
def Action.pid : Action → Int32
  | .sysEnter pid _ _ _ | .sysExit pid _ _ _ _ | .threadExit pid _ => pid

/-- What a step can do. -/
inductive Effect (filterPid : Int32) (s : State) : Action → State → Prop
  | ignored {action : Action} (htraced : ¬ Traced filterPid action.pid) :
      Effect filterPid s action s
  | entered {pid : Int32} (tid : UInt32) (syscallNr : Int64) (now : UInt64)
      (htraced : Traced filterPid pid) :
      Effect filterPid s (.sysEnter pid tid syscallNr now)
        { s with
          recordMap := s.recordMap.put tid { pid, tid, syscallNr, callStartNs := now }
          ongoing := s.ongoing.enter tid syscallNr now }
  | unmatched {pid : Int32} {tid : UInt32} (ret : Int64) (now : UInt64) (reserved : Bool)
      (htraced : Traced filterPid pid) (hnone : s.recordMap.lookup tid = none) :
      Effect filterPid s (.sysExit pid tid ret now reserved)
        { s with ongoing := s.ongoing.leave tid }
  | failed {pid : Int32} {tid : UInt32} {se : SyscallEvent} (ret : Int64) (now : UInt64)
      (htraced : Traced filterPid pid) (hse : s.recordMap.lookup tid = some se) :
      Effect filterPid s (.sysExit pid tid ret now false)
        { s with
          recordMap := s.recordMap.put tid (se.complete ret now)
          ongoing := s.ongoing.leave tid }
  | submitted {pid : Int32} {tid : UInt32} {se : SyscallEvent} (ret : Int64) (now : UInt64)
      (htraced : Traced filterPid pid) (hse : s.recordMap.lookup tid = some se) :
      Effect filterPid s (.sysExit pid tid ret now true)
        { recordMap := s.recordMap.delete tid
          ongoing := s.ongoing.leave tid
          submitted := s.submitted ++
            [⟨tid, se.complete ret now, s.ongoing.calls tid, ret, now⟩] }
  | ended {pid : Int32} (tid : UInt32) (htraced : Traced filterPid pid) :
      Effect filterPid s (.threadExit pid tid) { s with ongoing := s.ongoing.leave tid }

variable {filterPid : Int32} {tid : UInt32} {s s' : State} {action : Action}

theorem effect_step (filterPid : Int32) (s : State) (action : Action) :
    Effect filterPid s action (step filterPid s action) := by
  by_cases htraced : Traced filterPid action.pid
  · cases action with
    | sysEnter pid tid syscallNr now =>
        rw [Action.pid] at htraced
        simpa [step, sysEnter, Ongoing.step, htraced] using
          Effect.entered tid syscallNr now htraced
    | sysExit pid tid ret now reserved =>
        rw [Action.pid] at htraced
        cases hse : s.recordMap.lookup tid with
        | none =>
            simpa [step, sysExit, Ongoing.step, htraced, hse] using
              Effect.unmatched ret now reserved htraced hse
        | some se =>
            cases reserved with
            | false =>
                simpa [step, sysExit, Ongoing.step, htraced, hse] using
                  Effect.failed ret now htraced hse
            | true =>
                simpa [step, sysExit, Ongoing.step, htraced, hse] using
                  Effect.submitted ret now htraced hse
    | threadExit pid tid =>
        rw [Action.pid] at htraced
        simpa [step, Ongoing.step, htraced] using Effect.ended tid htraced
  · have hsame : step filterPid s action = s := by
      cases action <;> simp_all [step, sysEnter, sysExit, Ongoing.step, Action.pid]
    rw [hsame]
    exact .ignored htraced

/-! ## The records -/

/-- A record is of its thread, and one of the call that the thread is in is as it was made. -/
structure Recorded (s : State) : Prop where
  tid : ∀ tid se, s.recordMap.lookup tid = some se → se.tid = tid
  opened : ∀ tid se call, s.recordMap.lookup tid = some se → s.ongoing.calls tid = some call →
    se.syscallNr = call.syscallNr ∧ se.callDelayNs = 0

/-- The calls that have events are over, and they are different calls. -/
structure Over (s : State) : Prop where
  entered : ∀ id ∈ endedIds s.submitted, id < s.ongoing.entered
  ended : ∀ id ∈ endedIds s.submitted, ∀ tid call, s.ongoing.calls tid = some call → call.id ≠ id
  once : (endedIds s.submitted).Nodup

@[simp] theorem calls_leave (ongoing : Ongoing) (tid tid' : UInt32) :
    (ongoing.leave tid).calls tid' = if tid' = tid then none else ongoing.calls tid' := rfl

theorem calls_enter_self (ongoing : Ongoing) (tid : UInt32) (syscallNr : Int64) (now : UInt64) :
    (ongoing.enter tid syscallNr now).calls tid = some ⟨ongoing.entered, syscallNr, now⟩ :=
  if_pos rfl

theorem calls_enter_ne {tid tid' : UInt32} (h : tid' ≠ tid) (ongoing : Ongoing)
    (syscallNr : Int64) (now : UInt64) :
    (ongoing.enter tid syscallNr now).calls tid' = ongoing.calls tid' :=
  if_neg h

theorem calls_of_leave {ongoing : Ongoing} {tid tid' : UInt32} {call : Call}
    (h : (ongoing.leave tid).calls tid' = some call) :
    tid' ≠ tid ∧ ongoing.calls tid' = some call := by
  rw [calls_leave] at h
  split at h
  · cases h
  · next hne => exact ⟨hne, h⟩

theorem Recorded.enter (h : Recorded s) (pid : Int32) (tid : UInt32) (syscallNr : Int64)
    (now : UInt64) :
    Recorded
      { s with
        recordMap := s.recordMap.put tid { pid, tid, syscallNr, callStartNs := now }
        ongoing := s.ongoing.enter tid syscallNr now } := by
  refine ⟨?_, ?_⟩
  · intro tid' se hse
    obtain ⟨rfl, rfl⟩ | ⟨-, hse⟩ := BpfHash.of_lookup_put hse
    · rfl
    · exact h.tid tid' se hse
  · intro tid' se call hse hcall
    obtain ⟨rfl, rfl⟩ | ⟨hne, hse⟩ := BpfHash.of_lookup_put hse
    · rw [calls_enter_self] at hcall
      cases hcall
      exact ⟨rfl, rfl⟩
    · rw [calls_enter_ne hne] at hcall
      exact h.opened tid' se call hse hcall

/-- Whatever becomes of the record of a thread that is in no call any more, so long as it stays
a record of that thread. -/
theorem Recorded.leave (h : Recorded s) {recordMap : RecordMap} {submitted : List Submitted}
    (hmap : ∀ tid' se, recordMap.lookup tid' = some se →
      se.tid = tid' ∧ (tid' ≠ tid → s.recordMap.lookup tid' = some se)) :
    Recorded { recordMap, ongoing := s.ongoing.leave tid, submitted } := by
  refine ⟨fun tid' se hse => (hmap tid' se hse).1, ?_⟩
  intro tid' se call hse hcall
  obtain ⟨hne, hcall⟩ := calls_of_leave hcall
  exact h.opened tid' se call ((hmap tid' se hse).2 hne) hcall

theorem Recorded.of_effect (h : Recorded s) (heffect : Effect filterPid s action s') :
    Recorded s' := by
  cases heffect with
  | ignored => exact h
  | entered tid syscallNr now => exact h.enter _ tid syscallNr now
  | unmatched | ended => exact h.leave fun tid' se hse => ⟨h.tid tid' se hse, fun _ => hse⟩
  | failed ret now htraced hse =>
      have htid := h.tid _ _ hse
      refine h.leave fun tid' se' hse' => ?_
      obtain ⟨rfl, rfl⟩ | ⟨-, hse'⟩ := BpfHash.of_lookup_put hse'
      · exact ⟨htid, fun hne => absurd rfl hne⟩
      · exact ⟨h.tid tid' se' hse', fun _ => hse'⟩
  | submitted ret now htraced hse =>
      refine h.leave fun tid' se' hse' => ?_
      rw [BpfHash.lookup_delete] at hse'
      split at hse'
      · cases hse'
      · exact ⟨h.tid tid' se' hse', fun _ => hse'⟩

/-! ## The calls -/

theorem endedIds_append (submitted : List Submitted) (s : Submitted) :
    endedIds (submitted ++ [s]) = endedIds submitted ++ (s.ended.map Call.id).toList := by
  rw [endedIds, List.filterMap_append]
  cases h : s.ended <;> simp [endedIds, h]

theorem Over.enter (h : Over s) (recordMap : RecordMap) (tid : UInt32) (syscallNr : Int64)
    (now : UInt64) :
    Over { s with recordMap, ongoing := s.ongoing.enter tid syscallNr now } := by
  refine ⟨fun id hid => Nat.lt_succ_of_lt (h.entered id hid), ?_, h.once⟩
  intro id hid tid' call hcall
  by_cases heq : tid' = tid
  · rw [heq, calls_enter_self] at hcall
    cases hcall
    exact (h.entered id hid).ne'
  · rw [calls_enter_ne heq] at hcall
    exact h.ended id hid tid' call hcall

theorem Over.leave (h : Over s) (recordMap : RecordMap) (tid : UInt32) :
    Over { s with recordMap, ongoing := s.ongoing.leave tid } := by
  refine ⟨h.entered, ?_, h.once⟩
  intro id hid tid' call hcall
  exact h.ended id hid tid' call (calls_of_leave hcall).2

theorem Over.submit (h : Over s) (recordMap : RecordMap) (tid : UInt32) (evt : SyscallEvent)
    (ret : Int64) (now : UInt64) :
    Over
      { recordMap
        ongoing := s.ongoing.leave tid
        submitted := s.submitted ++ [⟨tid, evt, s.ongoing.calls tid, ret, now⟩] } := by
  have hleave := h.leave recordMap tid
  cases hcall : s.ongoing.calls tid with
  | none =>
      refine ⟨?_, ?_, ?_⟩ <;> rw [endedIds_append, Option.map_none, Option.toList_none,
        List.append_nil]
      · exact hleave.entered
      · exact hleave.ended
      · exact hleave.once
  | some call =>
      refine ⟨?_, ?_, ?_⟩ <;> rw [endedIds_append, Option.map_some, Option.toList_some]
      · intro id hid
        obtain hid | hid := List.mem_append.mp hid
        · exact hleave.entered id hid
        · rw [List.mem_singleton.mp hid]
          exact s.ongoing.fresh tid call hcall
      · intro id hid tid' call' hcall'
        obtain hid | hid := List.mem_append.mp hid
        · exact hleave.ended id hid tid' call' hcall'
        · obtain ⟨hne, hcall'⟩ := calls_of_leave hcall'
          rw [List.mem_singleton.mp hid]
          intro heq
          exact hne (s.ongoing.distinct tid' tid call' call hcall' hcall heq)
      · apply List.Nodup.append h.once (List.nodup_singleton _)
        intro id hid hmem
        rw [List.mem_singleton] at hmem
        exact h.ended id hid tid call hcall hmem.symm

theorem Over.of_effect (h : Over s) (heffect : Effect filterPid s action s') : Over s' := by
  cases heffect with
  | ignored => exact h
  | entered tid syscallNr now => exact h.enter _ tid syscallNr now
  | unmatched | failed | ended => exact h.leave _ _
  | submitted ret now => exact h.submit _ _ _ ret now

/-! ## The events -/

/-- The record of a call that is still open completes to an event about it exactly if the call
was entered at zero: the time of the exit is taken for the duration. -/
theorem reports_complete_iff {se : SyscallEvent} {ended : Option Call} {ret : Int64} {now : UInt64}
    (htid : se.tid = tid)
    (hopened : ∀ call ∈ ended, se.syscallNr = call.syscallNr ∧ se.callDelayNs = 0) :
    Submitted.Reports ⟨tid, se.complete ret now, ended, ret, now⟩ ↔
      ∃ call ∈ ended, call.enterNs = 0 := by
  apply exists_congr
  intro call
  apply and_congr_right
  intro hmem
  obtain ⟨hnr, hdelay⟩ := hopened call hmem
  have hexit : (se.complete ret now).callDelayNs = now := by
    rw [SyscallEvent.complete, hdelay, UInt64.sub_zero]
  have hzero : call.enterNs.toNat = 0 ↔ call.enterNs = 0 := UInt64.toNat_inj (b := 0)
  rw [hexit, right_eq_add, hzero]
  exact ⟨fun h => h.2.2.2, fun h => ⟨htid, hnr, rfl, h⟩⟩

/-- One more step keeps the events right exactly if it does not submit one, or one about a call
from zero. -/
theorem reports_effect_iff (h : Recorded s) (heffect : Effect filterPid s action s') :
    (∀ sub ∈ s'.submitted, sub.Reports) ↔
      (∀ sub ∈ s.submitted, sub.Reports) ∧ FromZero filterPid s action := by
  cases heffect with
  | ignored htraced =>
      refine (and_iff_left ?_).symm
      unfold FromZero
      split
      · exact fun h => absurd h htraced
      · trivial
  | entered | ended | failed => exact iff_of_eq (and_true _).symm
  | unmatched ret now reserved htraced hnone =>
      refine (and_iff_left ?_).symm
      unfold FromZero
      split
      · rename_i heq
        cases heq
        exact fun _ hne => absurd hnone hne
      · trivial
  | submitted ret now htraced hse =>
      rw [List.forall_mem_append, List.forall_mem_singleton,
        reports_complete_iff (h.tid _ _ hse) fun call hcall => h.opened _ _ call hse hcall]
      apply and_congr_right
      intro _
      rw [FromZero, hse]
      exact ⟨fun h _ _ => h, fun h => h htraced (Option.some_ne_none _)⟩

theorem recorded_start (ongoing : Ongoing) : Recorded { ongoing } :=
  ⟨fun _ _ h => (nomatch h), fun _ _ _ h => (nomatch h)⟩

theorem over_start (ongoing : Ongoing) : Over { ongoing } :=
  ⟨fun _ h => absurd h List.not_mem_nil, fun _ h => absurd h List.not_mem_nil, List.nodup_nil⟩

theorem over_run (filterPid : Int32) (ongoing : Ongoing) (actions : List Action) :
    Over (run filterPid ongoing actions) :=
  EventRun.foldl_preserves (fun s action h => h.of_effect (effect_step filterPid s action))
    (over_start ongoing) actions

/-- In every run, the events are those of the calls exactly if none is submitted, save for calls
that were entered when the clock stood at zero. -/
theorem paired_iff (filterPid : Int32) (ongoing : Ongoing) (actions : List Action) :
    Paired (run filterPid ongoing actions).submitted ↔
      EventRun.AllSteps (step filterPid) (FromZero filterPid) { ongoing } actions := by
  have hreports : (∀ sub ∈ (run filterPid ongoing actions).submitted, sub.Reports) ↔
      (∀ sub ∈ ([] : List Submitted), sub.Reports) ∧
        EventRun.AllSteps (step filterPid) (FromZero filterPid) { ongoing } actions :=
    EventRun.foldl_iff_allSteps (G := fun s => ∀ sub ∈ s.submitted, sub.Reports)
      (fun s action h => h.of_effect (effect_step filterPid s action))
      (fun s action h => reports_effect_iff h (effect_step filterPid s action))
      (recorded_start ongoing) actions
  constructor
  · intro hpaired
    exact (hreports.mp hpaired.reports).2
  · intro hsteps
    have hnil : ∀ sub ∈ ([] : List Submitted), sub.Reports := fun _ h => absurd h List.not_mem_nil
    exact ⟨hreports.mpr ⟨hnil, hsteps⟩, (over_run filterPid ongoing actions).once⟩

/-- A call from 100 to 150 has an event that says it took 150. -/
theorem exit_time_as_duration :
    ¬ Paired (run 7 .idle [.sysEnter 7 7 0 100, .sysExit 7 7 0 150 true]).submitted := by
  intro hpaired
  have hevent : (run 7 .idle [.sysEnter 7 7 0 100, .sysExit 7 7 0 150 true]).submitted =
      [⟨7, ⟨7, 7, 0, 0, 100, 150, 0, 0⟩, some ⟨0, 0, 100⟩, 0, 150⟩] := by decide
  rw [hevent] at hpaired
  have hreports := hpaired.reports _ List.mem_cons_self
  revert hreports
  decide

end XMonitor.Trace
