import XMonitor.Utils.Strings

/-!
# The probes of the memory system calls

The programs of `xm_process_vm` run at the entry and the return of `do_mmap`,
`do_brk_flags` and `__do_munmap`, at the entry of `mmap_region` and at the system call
`brk`. What an entry learns is kept in `hashmap_xm_vm_op` under the thread, and the
return reports it and deletes it.

The probes of a thread touch no entry but its own, so the state is that of one thread.
Other threads matter only as far as they fill the map and the ring buffer. Whether there
is room when it is needed is therefore part of a call.
-/

namespace XMonitor.ProcessVM

open XMonitor

def mapShared : UInt64 := 0x01
def mapPrivate : UInt64 := 0x02
def mapAnonymous : UInt64 := 0x20

/-- `enum xm_processvm_evt_type`. -/
inductive EvtType where
  | none
  | mmapAnonPriv
  | mmapShared
  | brk
  | brkShrink
  | munmap
deriving DecidableEq

/-- What the programs read of the current task. -/
structure Task where
  tid : UInt32
  tgid : UInt32
  pgid : UInt32
  pidns : UInt32
  comm : CString

structure Filter where
  scopeType : Int
  scopeValue : UInt64

/-- `__filter_check`, where any other type lets every task pass. -/
def Filter.check (f : Filter) (ts : Task) : Bool :=
  if f.scopeType = 2 then ts.pidns = f.scopeValue.toUInt32
  else if f.scopeType = 4 then ts.tgid = f.scopeValue.toUInt32
  else if f.scopeType = 5 then ts.pgid = f.scopeValue.toUInt32
  else true

/-- `struct vm_op_info`. -/
structure VmOpInfo where
  type : EvtType
  addr : UInt64
  len : UInt64
deriving DecidableEq

/-- `struct xm_processvm_evt_data`. -/
structure EvtData where
  tid : UInt32
  pid : UInt32
  comm : CString
  evtType : EvtType
  addr : UInt64
  len : UInt64
deriving DecidableEq

structure State where
  /-- The entry of the thread in `hashmap_xm_vm_op`. -/
  vmOp : Option VmOpInfo := none
  /-- The events of the thread in the ring buffer, oldest first. -/
  sent : List EvtData := []

/-- `bpf_map_update_elem` with `BPF_ANY`, which needs room for a new entry only. -/
def State.updateAny (s : State) (room : Bool) (voi : VmOpInfo) : State :=
  if s.vmOp.isSome || room then { s with vmOp := some voi } else s

/-- `bpf_map_update_elem` with `BPF_NOEXIST`. -/
def State.updateNoexist (s : State) (room : Bool) (voi : VmOpInfo) : State :=
  if s.vmOp.isNone && room then { s with vmOp := some voi } else s

def State.delete (s : State) : State := { s with vmOp := none }

def evtOf (ts : Task) (voi : VmOpInfo) : EvtData where
  tid := ts.tid
  pid := ts.tgid
  comm := ts.comm.take 15
  evtType := voi.type
  addr := voi.addr
  len := voi.len

/-- `__insert_processvm_event`. -/
def State.insertProcessvmEvent (s : State) (ts : Task) (reserved : Bool) (voi : VmOpInfo) : State :=
  if reserved then { s with sent := s.sent ++ [evtOf ts voi] } else s

/-- The return probes report the entry if the function succeeded, and delete it. -/
def kretprobe (ts : Task) (success reserved : Bool) (s : State) : State :=
  match s.vmOp with
  | some voi => (if success then s.insertProcessvmEvent ts reserved voi else s).delete
  | none => s.delete

def kprobeMmapRegion (addr len : UInt64) (s : State) : State :=
  { s with vmOp := s.vmOp.map fun voi => { voi with addr, len } }

def kprobeDoMmap (f : Filter) (ts : Task) (pf room : Bool) (addr len flags : UInt64) (s : State) :
    State :=
  if f.check ts then
    if !pf && addr = 0 && flags &&& (mapPrivate ||| mapAnonymous) ≠ 0 then
      s.updateNoexist room { type := .mmapAnonPriv, addr := 0, len }
    else if pf && addr = 0 && flags &&& mapShared ≠ 0 then
      s.updateAny room { type := .mmapShared, addr := 0, len }
    else s
  else s

/-- `IS_ERR_VALUE`. -/
def isErrValue (ret : UInt64) : Bool := ret ≥ 0 - 4095

def kretprobeDoMmap (ts : Task) (ret : UInt64) (reserved : Bool) (s : State) : State :=
  kretprobe ts (!isErrValue ret) reserved s

def kprobeDoBrkFlags (f : Filter) (ts : Task) (room : Bool) (addr len : UInt64) (s : State) :
    State :=
  if f.check ts then s.updateAny room { type := .brk, addr, len } else s

def kretprobeDoBrkFlags (ts : Task) (ret : Int32) (reserved : Bool) (s : State) : State :=
  kretprobe ts (ret = 0) reserved s

def tracepointSysEnterBrk (f : Filter) (ts : Task) (room : Bool) (newBrk origBrk : UInt64)
    (s : State) : State :=
  if newBrk = 0 then s
  else if f.check ts && newBrk ≤ origBrk then
    s.updateAny room { type := .brkShrink, addr := 0, len := 0 }
  else s

def kprobeDoMunmap (f : Filter) (ts : Task) (room : Bool) (addr len : UInt64) (s : State) :
    State :=
  if f.check ts then
    match s.vmOp with
    | some voi => { s with vmOp := some { voi with addr, len := voi.len + len } }
    | none => s.updateNoexist room { type := .munmap, addr, len }
  else s

/-- `__do_munmap` returns 1 if the lock has been downgraded, as the system calls ask for. -/
def kretprobeDoMunmap (ts : Task) (ret : Int32) (reserved : Bool) (s : State) : State :=
  kretprobe ts (ret = 1) reserved s

/-! ## System calls -/

/-- A call of `do_brk_flags` or `__do_munmap`, with the room that it finds in the map at
its entry and in the ring buffer at its return. -/
structure Body where
  addr : UInt64
  len : UInt64
  ret : Int32
  room : Bool
  reserved : Bool

/-- Where the system call `brk` gets to. -/
inductive BrkBody where
  | neither
  | grow (b : Body)
  | shrink (b : Body)

/-- A call of `do_mmap`. One that succeeds has gone through `mmap_region`. A mapping at a
given address may have replaced others, for which `__do_munmap` is called without
downgrading the lock. -/
structure Mmap where
  pf : Bool
  addr : UInt64
  len : UInt64
  flags : UInt64
  region : Option (UInt64 × UInt64)
  replaced : Option Body
  ret : UInt64
  room : Bool
  reserved : Bool
  reached : isErrValue ret = false → region.isSome = true
  fixed : replaced.isSome = true → addr ≠ 0
  kept : ∀ b, replaced = some b → b.ret ≠ 1

/-- A system call, with everything that the probes see of it. `munmap` may fail early. -/
inductive Call where
  | brk (newBrk origBrk : UInt64) (room : Bool) (body : BrkBody)
  | mmap (m : Mmap)
  | munmap (b : Option Body)

def Body.brkFlags (b : Body) (f : Filter) (ts : Task) (s : State) : State :=
  kretprobeDoBrkFlags ts b.ret b.reserved (kprobeDoBrkFlags f ts b.room b.addr b.len s)

def Body.munmap (b : Body) (f : Filter) (ts : Task) (s : State) : State :=
  kretprobeDoMunmap ts b.ret b.reserved (kprobeDoMunmap f ts b.room b.addr b.len s)

def Mmap.enter (m : Mmap) (f : Filter) (ts : Task) (s : State) : State :=
  kprobeDoMmap f ts m.pf m.room m.addr m.len m.flags s

/-- What happens inside `mmap_region`. -/
def Mmap.inRegion (m : Mmap) (f : Filter) (ts : Task) (s : State) : State :=
  match m.region with
  | some (addr, len) =>
      let s := kprobeMmapRegion addr len s
      match m.replaced with
      | some b => b.munmap f ts s
      | none => s
  | none => s

/-- The probes of a system call, one after the other. -/
def execute (f : Filter) (ts : Task) (s : State) : Call → State
  | .brk newBrk origBrk room body =>
      let s := tracepointSysEnterBrk f ts room newBrk origBrk s
      match body with
      | .neither => s
      | .grow b => b.brkFlags f ts s
      | .shrink b => b.munmap f ts s
  | .mmap m => kretprobeDoMmap ts m.ret m.reserved (m.inRegion f ts (m.enter f ts s))
  | .munmap (some b) => b.munmap f ts s
  | .munmap none => s

/-- The state of a thread after some system calls. -/
def run (f : Filter) (ts : Task) (calls : List Call) : State := calls.foldl (execute f ts) {}

end XMonitor.ProcessVM
