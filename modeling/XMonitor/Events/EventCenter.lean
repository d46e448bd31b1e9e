import XMonitor.Lib.Chan
import Mathlib.Data.List.AList

/-!
# The event center

Programs subscribe to the types of events that they want and get a channel each. A
published event goes into the channel of the center, from which `DispatchEvent` hands it
on to every program whose mask has its type. All sends are non-blocking.

Publishers, the dispatcher and the subscribers run concurrently, so the dispatcher is
modelled by its steps: it receives an event, takes the lock, visits the programs one by
one, in any order, and gives the lock back. `Subscribe` waits for the lock.

The state keeps a record of what the callers see, next to the center itself: the events
that `Publish` has accepted, what each program has read, and the visits of each program.
-/

namespace XMonitor.EventCenter

def defaultPublishChanSize : Nat := 1024
def defaultReadChanSize : Nat := 512

/-- `EBPFEventInfo`, for data of any type. -/
structure EBPFEventInfo (α : Type) where
  evtData : α
  evtType : UInt64

def ebpfEventProcessExit : UInt64 := 1

/-- `eBPFEventProgram`. -/
structure EBPFEventProgram (α : Type) where
  eventReadChan : Chan (EBPFEventInfo α) defaultReadChanSize
  focusEvents : UInt64

/-- Where `DispatchEvent` is. While it visits the programs, it holds the lock. -/
inductive Dispatcher (α : Type) where
  | waiting
  | received (evtInfo : EBPFEventInfo α)
  | visiting (evtInfo : EBPFEventInfo α) (todo : List String)

structure EBPFEventCenter (α : Type) where
  eBPFEventProgramMap : AList fun _ : String => EBPFEventProgram α := ∅
  eventPublishChan : Chan (EBPFEventInfo α) defaultPublishChanSize := Chan.empty
  dispatcher : Dispatcher α := .waiting

/-- A visit of a program with an event, with the mask and the room it has then. -/
structure Visit (α : Type) where
  evtInfo : EBPFEventInfo α
  focusEvents : UInt64
  hasRoom : Bool

variable {α : Type}

/-- The test of the mask. -/
def Visit.matches (v : Visit α) : Bool := v.focusEvents &&& v.evtInfo.evtType ≠ 0

def Visit.delivered (v : Visit α) : Bool := v.matches && v.hasRoom

def EBPFEventProgram.visit (evtProg : EBPFEventProgram α) (evtInfo : EBPFEventInfo α) :
    Visit α where
  evtInfo := evtInfo
  focusEvents := evtProg.focusEvents
  hasRoom := evtProg.eventReadChan.HasRoom

/-- The body of the loop over the programs. -/
def EBPFEventProgram.dispatch (evtProg : EBPFEventProgram α) (evtInfo : EBPFEventInfo α) :
    EBPFEventProgram α :=
  if evtProg.focusEvents &&& evtInfo.evtType ≠ 0 then
    { evtProg with eventReadChan := evtProg.eventReadChan.offer evtInfo }
  else evtProg

structure State (α : Type) where
  center : EBPFEventCenter α := {}
  accepted : List (EBPFEventInfo α) := []
  /-- The events with which the programs have been visited. -/
  dispatched : List (EBPFEventInfo α) := []
  /-- The events of this kind when a program subscribed. -/
  missed : String → List (EBPFEventInfo α) := fun _ => []
  visits : String → List (Visit α) := fun _ => []
  received : String → List (EBPFEventInfo α) := fun _ => []

/-- What a publisher, the dispatcher or a subscriber does next. -/
inductive Action (α : Type) where
  | subscribe (progName : String) (focusEvents : UInt64)
  | publish (evtInfo : EBPFEventInfo α)
  | receive
  | lock
  | visit (progName : String)
  | unlock
  | read (progName : String)

/-- A list for each program, one of which grows. -/
def push {β : Type} (lists : String → List β) (progName : String) (b : β) : String → List β :=
  Function.update lists progName (lists progName ++ [b])

/-- `Subscribe`, outside the lock of the dispatcher. -/
def subscribe (progName : String) (focusEvents : UInt64) (s : State α) : State α :=
  match s.center.eBPFEventProgramMap.lookup progName with
  | some evtProg =>
      { s with
        center.eBPFEventProgramMap := s.center.eBPFEventProgramMap.insert progName
          { evtProg with focusEvents } }
  | none =>
      { s with
        center.eBPFEventProgramMap := s.center.eBPFEventProgramMap.insert progName
          { eventReadChan := Chan.empty, focusEvents }
        missed := Function.update s.missed progName s.dispatched }

/-- `Publish`, which returns an error if the channel is full. -/
def publish (evtInfo : EBPFEventInfo α) (s : State α) : State α :=
  match s.center.eventPublishChan.send evtInfo with
  | some c => { s with center.eventPublishChan := c, accepted := s.accepted ++ [evtInfo] }
  | none => s

/-- The steps of `DispatchEvent`. -/
def receive (s : State α) : State α :=
  match s.center.dispatcher, s.center.eventPublishChan.recv with
  | .waiting, some (evtInfo, c) =>
      { s with center.eventPublishChan := c, center.dispatcher := .received evtInfo }
  | _, _ => s

def lock (s : State α) : State α :=
  match s.center.dispatcher with
  | .received evtInfo =>
      { s with
        center.dispatcher := .visiting evtInfo s.center.eBPFEventProgramMap.keys
        dispatched := s.dispatched ++ [evtInfo] }
  | _ => s

def visit (progName : String) (s : State α) : State α :=
  match s.center.dispatcher, s.center.eBPFEventProgramMap.lookup progName with
  | .visiting evtInfo todo, some evtProg =>
      if progName ∈ todo then
        { s with
          center.eBPFEventProgramMap :=
            s.center.eBPFEventProgramMap.insert progName (evtProg.dispatch evtInfo)
          center.dispatcher := .visiting evtInfo (todo.erase progName)
          visits := push s.visits progName (evtProg.visit evtInfo) }
      else s
  | _, _ => s

def unlock (s : State α) : State α :=
  match s.center.dispatcher with
  | .visiting _ [] => { s with center.dispatcher := .waiting }
  | _ => s

/-- A subscriber reads from its channel if there is something in it. -/
def read (progName : String) (s : State α) : State α :=
  match s.center.eBPFEventProgramMap.lookup progName with
  | some evtProg =>
      match evtProg.eventReadChan.recv with
      | some (evtInfo, c) =>
          { s with
            center.eBPFEventProgramMap := s.center.eBPFEventProgramMap.insert progName
              { evtProg with eventReadChan := c }
            received := push s.received progName evtInfo }
      | none => s
  | none => s

def step (s : State α) : Action α → State α
  | .subscribe progName focusEvents =>
      match s.center.dispatcher with
      | .visiting _ _ => s
      | _ => subscribe progName focusEvents s
  | .publish evtInfo => publish evtInfo s
  | .receive => receive s
  | .lock => lock s
  | .visit progName => visit progName s
  | .unlock => unlock s
  | .read progName => read progName s

def run (actions : List (Action α)) : State α := actions.foldl step {}

theorem run_append (past rest : List (Action α)) :
    run (past ++ rest) = rest.foldl step (run past) :=
  List.foldl_append

/-! ## What is accepted -/

section Accepted

variable (s : State α) (progName : String)

@[simp] theorem accepted_subscribe (focusEvents : UInt64) :
    (step s (.subscribe progName focusEvents)).accepted = s.accepted := by
  simp only [step]
  split
  · rfl
  · rw [subscribe]
    split <;> rfl

@[simp] theorem accepted_receive : (receive s).accepted = s.accepted := by
  rw [receive]
  split <;> rfl

@[simp] theorem accepted_lock : (lock s).accepted = s.accepted := by
  rw [lock]
  split <;> rfl

@[simp] theorem accepted_visit : (visit progName s).accepted = s.accepted := by
  rw [visit]
  split
  · split <;> rfl
  · rfl

@[simp] theorem accepted_unlock : (unlock s).accepted = s.accepted := by
  rw [unlock]
  split <;> rfl

@[simp] theorem accepted_read : (read progName s).accepted = s.accepted := by
  rw [read]
  split
  · split <;> rfl
  · rfl

theorem accepted_publish (evtInfo : EBPFEventInfo α) :
    (publish evtInfo s).accepted = s.accepted ++ [evtInfo] ∨
      (publish evtInfo s).accepted = s.accepted := by
  rw [publish]
  split
  · exact .inl rfl
  · exact .inr rfl

end Accepted

end XMonitor.EventCenter
