import XMonitor.Lib.Chan
import XMonitor.Lib.EventRun
import XMonitor.Utils.Strings
import Mathlib.Data.List.TakeWhile

/-!
# Processes killed for want of memory

A probe at `oom_kill_process` fills a record of the ring buffer, a reader takes the records to a
channel, and `oomKillProgram.Update` sends a metric for each.

The ring buffer hands out memory as earlier records have left it. The probe writes the fields of
the memory cgroup only if the kernel is about to kill inside one, but `Update` tells the two kinds
of events by one of these fields. A run keeps the call behind each record so that what is sent can
be compared with it.
-/

namespace XMonitor.Oom

/-- A memory cgroup, whose id is not zero in the 32 bits that a record has for it. -/
structure MemCgroup where
  cgroupId : UInt64
  usage : UInt64
  cgroupId_ne : cgroupId.toUInt32 ≠ 0

/-- A call of `oom_kill_process`: what the probe reads of `oc`, of the chosen task and of the
message, each at its address as far as it can be read. -/
structure OomKillCall where
  chosenPoints : UInt64
  totalpages : UInt64
  pid : Int32
  tgid : Int32
  memcg : Option MemCgroup
  filepages : UInt64
  anonpages : UInt64
  shmempages : UInt64
  comm : Option (List UInt8)
  message : Option (List UInt8)

/-- `struct xm_oomkill_evt_data`. -/
structure XmOomkillEvtData where
  tid : Int32
  pid : Int32
  memcgId : UInt32
  memcgPageCounter : UInt64
  points : UInt64
  rssFilepages : UInt64
  rssAnonpages : UInt64
  rssShmepages : UInt64
  totalPages : UInt64
  comm : List UInt8
  msg : List UInt8

def taskCommLen : Nat := 16
def oomKillMsgLen : Nat := 32

/-- `bpf_core_read_str`: a string with its zero, behind which the memory stays as it is. If the
string cannot be read, the memory is cleared. -/
def readStr (mem : List UInt8) (size : Nat) (str : Option (List UInt8)) : List UInt8 :=
  match str with
  | some bytes =>
      let text := (bytes.takeWhile fun b => b ≠ 0).take (size - 1)
      text ++ 0 :: mem.drop (text.length + 1)
  | none => List.replicate size 0

/-- `kprobe__xm_oom_kill_process` on the memory that has been reserved. -/
def kprobeXmOomKillProcess (call : OomKillCall) (evt : XmOomkillEvtData) : XmOomkillEvtData :=
  let evt := { evt with
    msg := readStr evt.msg oomKillMsgLen call.message
    points := call.chosenPoints
    totalPages := call.totalpages
    tid := call.pid
    pid := call.tgid }
  let evt :=
    match call.memcg with
    | some memcg => { evt with
        memcgId := memcg.cgroupId.toUInt32
        memcgPageCounter := memcg.usage }
    | none => evt
  { evt with
    rssFilepages := call.filepages
    rssAnonpages := call.anonpages
    rssShmepages := call.shmempages
    comm := readStr evt.comm taskCommLen call.comm }

/-- A label of a metric, a number or a text. -/
inductive Label where
  | int (n : Int)
  | text (bytes : List UInt8)
deriving DecidableEq

/-- The metrics `oom_kill_os` and `oom_kill_memcg` with their values and labels. -/
inductive Metric where
  | sysOomKill (value : Nat) (labels : List Label)
  | memcgOomKill (value : Nat) (labels : List Label)
deriving DecidableEq

def Metric.IsMemcg : Metric → Prop
  | .sysOomKill _ _ => False
  | .memcgOomKill _ _ => True

/-- `CommToString`. -/
def commToString (comm : List UInt8) : List UInt8 := comm.takeWhile fun c => c ≠ 0

/-- `strconv.FormatInt` of a word as a signed number. -/
def formatInt (n : UInt64) : Label := .int n.toInt64.toInt

/-- The metric that `oomKillProgram.Update` sends for a record. -/
def metricOf (data : XmOomkillEvtData) : Metric :=
  let comm := commToString data.comm
  let oomMsg := commToString data.msg
  let fileRssKB := data.rssFilepages <<< 2
  let anonRssKB := data.rssAnonpages <<< 2
  let shmemRssKB := data.rssShmepages <<< 2
  let memoryLimitKB := data.totalPages <<< 2
  if data.memcgId ≠ 0 then
    let memcgKB := data.memcgPageCounter <<< 2
    .memcgOomKill (doubleOfUInt64 data.points)
      [.int data.pid.toInt, .int data.tid.toInt, .text comm, .int data.memcgId.toNat,
        formatInt memcgKB, formatInt fileRssKB, formatInt anonRssKB, formatInt shmemRssKB,
        .text oomMsg]
  else
    .sysOomKill (doubleOfUInt64 data.points)
      [.int data.pid.toInt, .int data.tid.toInt, .text comm, formatInt fileRssKB,
        formatInt anonRssKB, formatInt shmemRssKB, formatInt memoryLimitKB, .text oomMsg]

/-- A record in the ring buffer or the channel, with the call that it is about. -/
structure Event where
  call : OomKillCall
  data : XmOomkillEvtData

def Event.metric (evt : Event) : Metric := metricOf evt.data

def defaultOomKillEvtChanSize : Nat := (1 <<< 2) <<< 10

structure State where
  /-- The records that have been submitted and not read, oldest first. -/
  ringbuf : List Event := []
  oomKillEvtDataChan : Chan Event defaultOomKillEvtChanSize := Chan.empty
  /-- The events for which `Update` has sent a metric. -/
  sent : List Event := []
  /-- All records that have been submitted. -/
  submitted : List Event := []

/-- What can happen next. A call comes with the memory that the ring buffer has for it, if it has
any. -/
inductive Action where
  | oomKillProcess (call : OomKillCall) (reserved : Option XmOomkillEvtData)
  | tracingBPFEvent
  | update

/-- The reader drops a record for which the channel has no room. -/
def State.read (s : State) : State :=
  match s.ringbuf with
  | [] => s
  | evt :: rest =>
      { s with ringbuf := rest, oomKillEvtDataChan := s.oomKillEvtDataChan.offer evt }

/-- One round of the loop of `Update`. -/
def State.updateOne (s : State) : State :=
  match s.oomKillEvtDataChan.recv with
  | some (evt, chan) => { s with oomKillEvtDataChan := chan, sent := s.sent ++ [evt] }
  | none => s

def State.submit (s : State) (evt : Event) : State :=
  { s with ringbuf := s.ringbuf ++ [evt], submitted := s.submitted ++ [evt] }

def step (s : State) : Action → State
  | .oomKillProcess call (some evt) => s.submit ⟨call, kprobeXmOomKillProcess call evt⟩
  | .oomKillProcess _ none => s
  | .tracingBPFEvent => s.read
  | .update => s.updateOne

def run (actions : List Action) : State := actions.foldl step {}

/-! ## What a call says itself -/

/-- The text of a label for a string of the kernel. -/
def textOf (size : Nat) (str : Option (List UInt8)) : Label :=
  .text (((str.getD []).takeWhile fun b => b ≠ 0).take (size - 1))

/-- The metric for a call, from its own data. -/
def ownMetric (call : OomKillCall) : Metric :=
  match call.memcg with
  | some memcg =>
      .memcgOomKill (doubleOfUInt64 call.chosenPoints)
        [.int call.tgid.toInt, .int call.pid.toInt, textOf taskCommLen call.comm,
          .int memcg.cgroupId.toUInt32.toNat, formatInt (memcg.usage <<< 2),
          formatInt (call.filepages <<< 2), formatInt (call.anonpages <<< 2),
          formatInt (call.shmempages <<< 2), textOf oomKillMsgLen call.message]
  | none =>
      .sysOomKill (doubleOfUInt64 call.chosenPoints)
        [.int call.tgid.toInt, .int call.pid.toInt, textOf taskCommLen call.comm,
          formatInt (call.filepages <<< 2), formatInt (call.anonpages <<< 2),
          formatInt (call.shmempages <<< 2), formatInt (call.totalpages <<< 2),
          textOf oomKillMsgLen call.message]

/-- The metric of an event is that of its call, and a memory cgroup is named exactly where the
call has one. -/
def Event.Own (evt : Event) : Prop :=
  evt.metric = ownMetric evt.call ∧ (evt.metric.IsMemcg ↔ evt.call.memcg.isSome)

theorem isMemcg_ownMetric (call : OomKillCall) :
    (ownMetric call).IsMemcg ↔ call.memcg.isSome := by
  cases h : call.memcg with
  | some memcg => simp [ownMetric, h, Metric.IsMemcg]
  | none => simp [ownMetric, h, Metric.IsMemcg]

/-- Behind its zero, a string may be followed by anything. -/
theorem commToString_readStr (mem : List UInt8) (size : Nat) (str : Option (List UInt8)) :
    Label.text (commToString (readStr mem size str)) = textOf size str := by
  rw [textOf, commToString]
  congr 1
  cases str with
  | none =>
      have hzeros : (List.replicate size (0 : UInt8)).takeWhile (fun c => c ≠ 0) = [] := by
        cases size with
        | zero => rfl
        | succ size => rfl
      rw [readStr, hzeros, Option.getD_none, List.takeWhile_nil, List.take_nil]
  | some bytes =>
      have hne : ∀ b ∈ (bytes.takeWhile fun b => b ≠ 0).take (size - 1), decide (b ≠ 0) = true := by
        intro b hb
        exact List.mem_takeWhile_imp (p := fun b => decide (b ≠ 0)) (List.mem_of_mem_take hb)
      rw [readStr, List.takeWhile_append_of_pos hne]
      show _ ++ [] = _
      rw [List.append_nil]
      rfl

theorem own_iff (call : OomKillCall) (evt : XmOomkillEvtData) :
    (Event.mk call (kprobeXmOomKillProcess call evt)).Own ↔
      (call.memcg = none → evt.memcgId = 0) := by
  have hcomm := commToString_readStr evt.comm taskCommLen call.comm
  have hmsg := commToString_readStr evt.msg oomKillMsgLen call.message
  rw [Event.Own, Event.metric]
  cases hmemcg : call.memcg with
  | some memcg =>
      have hid := memcg.cgroupId_ne
      have hmetric : metricOf (kprobeXmOomKillProcess call evt) = ownMetric call := by
        simp only [metricOf, kprobeXmOomKillProcess, hmemcg, if_pos hid, hcomm, hmsg, ownMetric]
      rw [hmetric, isMemcg_ownMetric, hmemcg]
      exact ⟨fun _ h => absurd h (Option.some_ne_none memcg), fun _ => ⟨rfl, Iff.rfl⟩⟩
  | none =>
      constructor
      · rintro ⟨-, h⟩ -
        by_contra hid
        have hmem : (metricOf (kprobeXmOomKillProcess call evt)).IsMemcg := by
          simp only [metricOf, kprobeXmOomKillProcess, hmemcg, if_pos hid]
          trivial
        exact absurd (h.mp hmem) (by decide)
      · intro hid
        have hmetric : metricOf (kprobeXmOomKillProcess call evt) = ownMetric call := by
          have hzero := hid rfl
          simp only [metricOf, kprobeXmOomKillProcess, hmemcg, hzero, ne_eq, not_true_eq_false,
            if_false, hcomm, hmsg, ownMetric]
        rw [hmetric, isMemcg_ownMetric, hmemcg]
        exact ⟨rfl, Iff.rfl⟩

/-! ## Runs -/

/-- A record for a call outside any memory cgroup lies in memory without an old id. -/
def Cleared (_ : State) : Action → Prop
  | .oomKillProcess call (some evt) => call.memcg = none → evt.memcgId = 0
  | _ => True

/-- Every event that has been recorded says of its call what the call says itself. -/
def EventsOwn (s : State) : Prop := ∀ evt ∈ s.submitted, evt.Own

theorem submitted_read (s : State) : s.read.submitted = s.submitted := by
  rw [State.read]
  split <;> rfl

theorem submitted_updateOne (s : State) : s.updateOne.submitted = s.submitted := by
  rw [State.updateOne]
  split <;> rfl

/-- One step adds an event of its own at most. -/
theorem eventsOwn_step_iff (s : State) (action : Action) :
    EventsOwn (step s action) ↔ EventsOwn s ∧ Cleared s action := by
  cases action with
  | oomKillProcess call reserved =>
      cases reserved with
      | some evt =>
          have hown := own_iff call evt
          show (∀ e ∈ s.submitted ++ [_], e.Own) ↔ EventsOwn s ∧ (call.memcg = none → _)
          rw [List.forall_mem_append, List.forall_mem_singleton, hown]
          exact Iff.rfl
      | none => exact iff_of_eq (and_true _).symm
  | tracingBPFEvent =>
      show (∀ e ∈ s.read.submitted, e.Own) ↔ EventsOwn s ∧ True
      rw [submitted_read, and_true]
      exact Iff.rfl
  | update =>
      show (∀ e ∈ s.updateOne.submitted, e.Own) ↔ EventsOwn s ∧ True
      rw [submitted_updateOne, and_true]
      exact Iff.rfl

theorem eventsOwn_foldl_iff (s : State) (actions : List Action) :
    EventsOwn (actions.foldl step s) ↔
      EventsOwn s ∧ EventRun.AllSteps step Cleared s actions := by
  refine EventRun.foldl_iff_allSteps (I := fun _ => True) (fun _ _ h => h) ?_ trivial actions
  intro s action _
  exact eventsOwn_step_iff s action

/-- What is sent, or on its way to be sent, has been recorded. -/
structure Recorded (s : State) : Prop where
  ringbuf : ∀ evt ∈ s.ringbuf, evt ∈ s.submitted
  chan : ∀ evt ∈ s.oomKillEvtDataChan.queue, evt ∈ s.submitted
  sent : ∀ evt ∈ s.sent, evt ∈ s.submitted

theorem Recorded.submit {s : State} (h : Recorded s) (evt : Event) : Recorded (s.submit evt) := by
  have hkeep : ∀ e ∈ s.submitted, e ∈ s.submitted ++ [evt] := fun e he =>
    List.mem_append_left _ he
  refine ⟨?_, fun e he => hkeep e (h.chan e he), fun e he => hkeep e (h.sent e he)⟩
  intro e he
  obtain he | he := List.mem_append.mp he
  · exact hkeep e (h.ringbuf e he)
  · exact List.mem_append_right _ he

theorem Recorded.read {s : State} (h : Recorded s) : Recorded s.read := by
  rw [State.read]
  split
  · exact h
  · rename_i evt rest hring
    have hmem : ∀ e ∈ evt :: rest, e ∈ s.submitted := by
      rw [← hring]
      exact h.ringbuf
    refine ⟨fun e he => hmem e (List.mem_cons_of_mem _ he), ?_, h.sent⟩
    intro e he
    rw [Chan.queue_offer] at he
    split at he
    · obtain he | he := List.mem_append.mp he
      · exact h.chan e he
      · rw [List.mem_singleton.mp he]
        exact hmem evt List.mem_cons_self
    · exact h.chan e he

theorem Recorded.updateOne {s : State} (h : Recorded s) : Recorded s.updateOne := by
  rw [State.updateOne]
  split
  · rename_i evt chan hrecv
    have hqueue := Chan.queue_of_recv hrecv
    refine ⟨h.ringbuf, ?_, ?_⟩
    · intro e he
      apply h.chan
      rw [hqueue]
      exact List.mem_cons_of_mem _ he
    · intro e he
      obtain he | he := List.mem_append.mp he
      · exact h.sent e he
      · rw [List.mem_singleton.mp he]
        apply h.chan
        rw [hqueue]
        exact List.mem_cons_self
  · exact h

theorem Recorded.step {s : State} (h : Recorded s) (action : Action) :
    Recorded (step s action) := by
  cases action with
  | oomKillProcess call reserved =>
      cases reserved with
      | some evt => exact h.submit _
      | none => exact h
  | tracingBPFEvent => exact h.read
  | update => exact h.updateOne

theorem recorded_run (actions : List Action) : Recorded (run actions) := by
  have hinit : Recorded {} :=
    ⟨fun _ h => absurd h List.not_mem_nil, fun _ h => absurd h List.not_mem_nil,
      fun _ h => absurd h List.not_mem_nil⟩
  exact EventRun.foldl_preserves (fun _ action h => h.step action) hinit actions

/-- In every run, `Update` sends metrics for recorded events only, and the recorded events are
free of what earlier ones have left exactly if the memory under each call outside any memory
cgroup has no id. -/
theorem events_own_iff (actions : List Action) :
    (∀ evt ∈ (run actions).sent, evt ∈ (run actions).submitted) ∧
      (EventsOwn (run actions) ↔ EventRun.AllSteps step Cleared {} actions) := by
  refine ⟨(recorded_run actions).sent, ?_⟩
  have hinit : EventsOwn {} := fun _ h => absurd h List.not_mem_nil
  rw [run, eventsOwn_foldl_iff]
  exact and_iff_right hinit

/-- A process in a memory cgroup, and one outside any. -/
def callIn (memcg : Option MemCgroup) : OomKillCall where
  chosenPoints := 100
  totalpages := 1000
  pid := 7
  tgid := 7
  memcg := memcg
  filepages := 1
  anonpages := 2
  shmempages := 3
  comm := some [97]
  message := some [98]

/-- Memory that has not been used before. -/
def freshMemory : XmOomkillEvtData :=
  ⟨0, 0, 0, 0, 0, 0, 0, 0, 0, List.replicate 16 0, List.replicate 32 0⟩

/-- The memory of an event in cgroup 9. -/
def usedMemory : XmOomkillEvtData :=
  kprobeXmOomKillProcess (callIn (some ⟨9, 50, by decide⟩)) freshMemory

/-- The memory of the first event is used again for one that is in no cgroup. -/
def reuse : List Action :=
  [.oomKillProcess (callIn (some ⟨9, 50, by decide⟩)) (some freshMemory),
    .oomKillProcess (callIn none) (some usedMemory),
    .tracingBPFEvent, .update, .tracingBPFEvent, .update]

/-- The second metric is sent for the cgroup of the first. -/
theorem id_leaks : ¬ ∀ actions, ∀ evt ∈ (run actions).sent, evt.Own := by
  intro h
  have hsent : Event.mk (callIn none) (kprobeXmOomKillProcess (callIn none) usedMemory) ∈
      (run reuse).sent := List.mem_cons_of_mem _ List.mem_cons_self
  have hid : usedMemory.memcgId = 0 := (own_iff _ _).mp (h reuse _ hsent) rfl
  exact absurd hid (by decide)

end XMonitor.Oom
