import XMonitor.Collector.UnwindTables
import XMonitor.Events.Delivery
import XMonitor.Sched.CpuSched

/-!
# From the exit of a thread to the end of its process

The tracepoint of `xm_cpu_sched` fires for every thread that exits. Its record goes from
the ring buffer into a channel of the exporter, `Update` publishes it as the exit of the
process with the thread's tgid, and the event center hands it on to the programs that
drop what they keep for the process: the accounting of its memory, its symbols and its
unwind tables.

The state holds the living threads next to these parts, and an action is a step of one
of them. All of them run concurrently.
-/

namespace XMonitor.ProcessExit

open Sched (Task EvtData)
open Collector (UnwindTablesOperEvt UnwindState)

def defaultCpuSchedEvtChanSize : Nat := 256
def defaultUnwindTablesOpChanSize : Nat := 128

structure Thread where
  tid : UInt32
  tgid : UInt32
deriving DecidableEq

def Thread.ofTask (ts : Task) : Thread := ⟨ts.pid, ts.tgid⟩

/-- The living threads, and the processes that have had one. -/
structure Threads where
  alive : Finset Thread := ∅
  seen : Finset UInt32 := ∅

inductive ThreadEvent where
  | create (t : Thread)
  | exit (t : Thread)
deriving DecidableEq

def Threads.step (threads : Threads) : ThreadEvent → Threads
  | .create t => { alive := insert t threads.alive, seen := insert t.tgid threads.seen }
  | .exit t => { threads with alive := threads.alive.erase t }

/-- A living thread of the process, or a first one, creates a thread; a living thread exits. -/
def Threads.Possible (threads : Threads) : ThreadEvent → Prop
  | .create t => t ∉ threads.alive ∧
      ((∃ u ∈ threads.alive, u.tgid = t.tgid) ∨ t.tgid ∉ threads.seen)
  | .exit t => t ∈ threads.alive

/-- A thread that exits is the only one of its process. -/
def Threads.OnlyThread (threads : Threads) : ThreadEvent → Prop
  | .create _ => True
  | .exit t => ∀ u ∈ threads.alive, u.tgid = t.tgid → u = t

/-- `EBPFEventProcessExit`. -/
structure EBPFEventProcessExit where
  comm : CString
  tid : Int32
  pid : Int32

structure Config where
  filter : Sched.Filter
  /-- The names of the two programs that subscribe. -/
  processVM : String
  profile : String
  /-- `ProgramCommFilter` of the first. -/
  commFilter : CString → Bool

structure State where
  threads : Threads := {}
  sched : Sched.State := .init
  /-- How many records have been read from the ring buffer. -/
  traced : Nat := 0
  cpuSchedEvtDataChan : Chan EvtData defaultCpuSchedEvtChanSize := Chan.empty
  events : EventCenter.State EBPFEventProcessExit := {}
  /-- The processes with an entry in `processVMMap` and in the cache of symbols. -/
  processVMMap : Finset Int32 := ∅
  symCache : Finset Int32 := ∅
  /-- The process for which the profiler waits to send its operation. -/
  profileOp : Option Int32 := none
  unwindTablesOperEvtChan : Chan UnwindTablesOperEvt defaultUnwindTablesOpChanSize := Chan.empty
  unwind : UnwindState := {}

inductive Action where
  | create (t : Thread)
  | exit (ts : Task) (reserved : Option EvtData)
  /-- A tracepoint other than that of an exit. -/
  | sched (e : Sched.Event)
  | trace
  | update
  | subscribe (progName : String)
  | receive
  | lock
  | visit (progName : String)
  | unlock
  | handleProcessVM
  | handleProfile
  | sendDelete
  | handleUnwind
  /-- The programs start to keep something for a process. -/
  | account (pid : Int32)
  | resolve (pid : Int32)
  | sendCreate (pid : Int32) (procModules : Option (List Collector.ProcModule)) (updateFails : Bool)

/-- A round of `tracingeBPFEvent`. -/
def trace (s : State) : State :=
  match s.sched.sent[s.traced]? with
  | some evtData =>
      { s with
        traced := s.traced + 1
        cpuSchedEvtDataChan := s.cpuSchedEvtDataChan.offer evtData }
  | none => s

def exitEvent (evtData : EvtData) : EventCenter.EBPFEventInfo EBPFEventProcessExit where
  evtData :=
    { comm := evtData.comm
      tid := evtData.tid.toInt32
      pid := evtData.pid.toInt32 }
  evtType := EventCenter.ebpfEventProcessExit

/-- A round of the loop of `cpuSchedProgram.Update`. -/
def update (s : State) : State :=
  match s.cpuSchedEvtDataChan.recv with
  | some (evtData, c) =>
      { s with
        cpuSchedEvtDataChan := c
        events := if evtData.evtType = .processExit then
          EventCenter.publish (exitEvent evtData) s.events else s.events }
  | none => s

/-- The event that a program reads next. -/
def nextEvent (progName : String) (events : EventCenter.State EBPFEventProcessExit) :
    Option (EventCenter.EBPFEventInfo EBPFEventProcessExit) :=
  (events.center.eBPFEventProgramMap.lookup progName).bind fun evtProg =>
    evtProg.eventReadChan.queue.head?

/-- A round of `processVMProgram.handlingeBPFData` that reads an event. -/
def handleProcessVM (cfg : Config) (s : State) : State :=
  match nextEvent cfg.processVM s.events with
  | some evtInfo =>
      { s with
        events := EventCenter.read cfg.processVM s.events
        processVMMap :=
          if evtInfo.evtType = EventCenter.ebpfEventProcessExit ∧
              cfg.commFilter evtInfo.evtData.comm
          then s.processVMMap.erase evtInfo.evtData.pid else s.processVMMap }
  | none => s

/-- A round of `profileProgram.handlingeBPFData` that reads an event, up to the send. -/
def handleProfile (cfg : Config) (s : State) : State :=
  match s.profileOp, nextEvent cfg.profile s.events with
  | none, some evtInfo =>
      if evtInfo.evtType = EventCenter.ebpfEventProcessExit then
        { s with
          events := EventCenter.read cfg.profile s.events
          symCache := if 0 < evtInfo.evtData.pid then s.symCache.erase evtInfo.evtData.pid
            else s.symCache
          profileOp := some evtInfo.evtData.pid }
      else { s with events := EventCenter.read cfg.profile s.events }
  | _, _ => s

/-- The blocking send of the operation that deletes the unwind tables. -/
def sendDelete (s : State) : State :=
  match s.profileOp with
  | some pid =>
      match s.unwindTablesOperEvtChan.send (.delete pid) with
      | some c => { s with unwindTablesOperEvtChan := c, profileOp := none }
      | none => s
  | none => s

/-- A round of `handlingUnwindTables`. -/
def handleUnwind (s : State) : State :=
  match s.unwindTablesOperEvtChan.recv with
  | some (opEvt, c) =>
      { s with unwindTablesOperEvtChan := c, unwind := Collector.handle s.unwind opEvt }
  | none => s

def step (cfg : Config) (s : State) : Action → State
  | .create t => { s with threads := s.threads.step (.create t) }
  | .exit ts reserved =>
      { s with
        threads := s.threads.step (.exit (.ofTask ts))
        sched := Sched.schedProcessExit ts reserved s.sched }
  | .sched (.processExit _ _) => s
  | .sched e => { s with sched := Sched.step cfg.filter s.sched e }
  | .trace => trace s
  | .update => update s
  | .subscribe progName =>
      { s with
        events := EventCenter.step s.events (.subscribe progName EventCenter.ebpfEventProcessExit) }
  | .receive => { s with events := EventCenter.receive s.events }
  | .lock => { s with events := EventCenter.lock s.events }
  | .visit progName => { s with events := EventCenter.visit progName s.events }
  | .unlock => { s with events := EventCenter.unlock s.events }
  | .handleProcessVM => handleProcessVM cfg s
  | .handleProfile => handleProfile cfg s
  | .sendDelete => sendDelete s
  | .handleUnwind => handleUnwind s
  | .account pid => { s with processVMMap := insert pid s.processVMMap }
  | .resolve pid => { s with symCache := insert pid s.symCache }
  | .sendCreate pid procModules updateFails =>
      { s with
        unwindTablesOperEvtChan :=
          s.unwindTablesOperEvtChan.offer (.create pid procModules updateFails) }

/-- What an action does to the threads. -/
def Action.threadEvent : Action → Option ThreadEvent
  | .create t => some (.create t)
  | .exit ts _ => some (.exit (.ofTask ts))
  | _ => none

end XMonitor.ProcessExit
