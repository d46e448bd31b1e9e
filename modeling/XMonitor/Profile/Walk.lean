import XMonitor.Lib.BoundedLoop
import XMonitor.Profile.Search

/-!
# Walking a user stack

The kernel program that unwinds a stack with the tables of the exporter. One run of
the program takes a bounded number of steps and then calls itself as a tail call;
registers, program counters and the number of tail calls are passed on in a record
of a per-CPU array.

The maps and the memory of the process are fixed during a walk. `bpf_tail_call` may
fail when the kernel's own limit is reached, so the number of calls that it still
admits is a parameter; a failed call falls through to the code behind it.
-/

namespace XMonitor.Profile

/-- `struct xm_task_userspace_regs`. -/
structure TaskUserspaceRegs where
  rip : UInt64 := 0
  rsp : UInt64 := 0
  rbp : UInt64 := 0
deriving DecidableEq, Repr

/-- `struct xm_ehframe_user_stack`. -/
structure EhframeUserStack where
  len : UInt64 := 0
  pcLst : Nat → UInt64 := fun _ => 0

/-- `struct xm_unwind_user_stack_resolve_data`. -/
structure UnwindUserStackResolveData where
  regs : TaskUserspaceRegs := {}
  eSt : EhframeUserStack := {}
  pid : Int32 := 0
  tailCallCount : UInt32 := 0

/-- What the programs read: the two maps and eight bytes of user memory. -/
structure Env where
  pidModulesMap : Int32 → Option PidMaps
  moduleFdetablesMap : UInt64 → Option ModuleFdeTables
  readUser : UInt64 → Option UInt64

/-- The error of `bpf_probe_read_user`. -/
def efault : Int32 := -14

/-- `__xm_update_u64`. -/
def updateU64 (res value : UInt64) : UInt64 :=
  if 0xFFFFFFFFFFFFFFFF - (res + value) ≤ value then value else res + value

/-- The CFA of the current frame, if the register of the row is supported. -/
def rowCfa (row : FdeTableRow) (rsp rbp : UInt64) : Option UInt64 :=
  if row.cfa.reg = amd64Rsp then some (rsp + row.cfa.offset.toUInt64)
  else if row.cfa.reg = amd64Rbp then some (rbp + row.cfa.offset.toUInt64)
  else none

/-- The address of a register that is saved at a CFA offset. -/
def savedAddr (cfa : UInt64) (cfaOffset : Int32) : UInt64 := cfa + cfaOffset.toInt64.toUInt64

/-- The `rbp` of the caller; a register without an offset keeps its value. -/
def callerRbp (env : Env) (row : FdeTableRow) (cfa rbp : UInt64) : Option UInt64 :=
  if row.rbpCfaOffset ≠ int32Max then env.readUser (savedAddr cfa row.rbpCfaOffset)
  else some rbp

/-- The `rip` of the caller, or the error that ends the walk. -/
def callerRip (env : Env) (row : FdeTableRow) (cfa rip : UInt64) : Except Int32 UInt64 :=
  if row.raCfaOffset ≠ int32Max then
    match env.readUser (savedAddr cfa row.raCfaOffset) with
    | none => .error efault
    | some rip => if rip = 0 then .error (-1) else .ok rip
  else .ok rip

/-- The frame is the last one: its caller has no frame pointer or no address. -/
def atBottom (row : FdeTableRow) (rbp : UInt64) : Bool :=
  (decide (row.rbpCfaOffset ≠ int32Max) && decide (rbp = 0)) || decide (row.raCfaOffset = int32Max)

/-- The local variables of `__get_user_stack`. -/
structure Walker where
  usi : UnwindUserStackResolveData
  rip : UInt64
  rsp : UInt64
  rbp : UInt64
  ret : Int32 := 0
  reachedBottom : Bool := false

def Walker.start (usi : UnwindUserStackResolveData) : Walker :=
  { usi, rip := usi.regs.rip, rsp := usi.regs.rsp, rbp := usi.regs.rbp }

/-- A frame is stored, and the registers are saved, as long as there is room. -/
def pushFrame (usi : UnwindUserStackResolveData) (rip cfa rbp : UInt64) :
    UnwindUserStackResolveData :=
  if usi.eSt.len < UInt64.ofNat perfMaxStackDepth then
    { usi with
      eSt :=
        { len := updateU64 usi.eSt.len 1
          pcLst := Function.update usi.eSt.pcLst usi.eSt.len.toNat rip }
      regs := { rip, rsp := cfa, rbp } }
  else usi

/-- The body of the loop. Locals that a failing iteration has changed are dead. -/
def frameStep (env : Env) (pidMaps : PidMaps) (w : Walker) : Walker × Bool :=
  match findFdeTableRowByPc env.moduleFdetablesMap pidMaps w.rip with
  | none => ({ w with ret := -1 }, true)
  | some row =>
    match rowCfa row w.rsp w.rbp with
    | none => ({ w with ret := -1 }, true)
    | some cfa =>
      match callerRbp env row cfa w.rbp with
      | none => ({ w with ret := efault }, true)
      | some rbp =>
        match callerRip env row cfa w.rip with
        | .error ret => ({ w with ret }, true)
        | .ok rip =>
          ({ usi := pushFrame w.usi rip cfa rbp
             rip
             rsp := if atBottom row rbp then w.rsp else cfa
             rbp
             ret := 0
             reachedBottom := atBottom row rbp }, atBottom row rbp)

/-- What `__get_user_stack` returns, and whether it asks for a tail call. -/
structure GetUserStack where
  usi : UnwindUserStackResolveData
  ret : Int32
  tailCall : Bool

/-- `__get_user_stack`. -/
def getUserStack (env : Env) (pidMaps : PidMaps) (usi : UnwindUserStackResolveData) :
    GetUserStack :=
  let w := (BoundedLoop.run (frameStep env pidMaps) maxStackDepthPerProgram (.start usi)).1
  if w.ret = 0 ∧ w.reachedBottom = false ∧ w.usi.eSt.len < UInt64.ofNat perfMaxStackDepth ∧
      w.usi.tailCallCount < UInt32.ofNat (maxTailCallCount - 1) then
    { usi := { w.usi with tailCallCount := w.usi.tailCallCount + 1 }
      ret := w.ret
      tailCall := true }
  else { usi := w.usi, ret := w.ret, tailCall := false }

/-- The outcome of a walk: the record, the stack that is recorded as a sample and
the number of programs that ran. -/
structure WalkResult where
  usi : UnwindUserStackResolveData
  sample : Option (Int32 × EhframeUserStack)
  programs : Nat

/-- The sample of a program that ends with `ret`. -/
def sampleOf (usi : UnwindUserStackResolveData) (ret : Int32) :
    Option (Int32 × EhframeUserStack) :=
  if ret = 0 then some (usi.pid, usi.eSt) else none

/-- `xm_walk_user_stacktrace`. `tailCall` is the program that a tail call jumps to,
none if the kernel does not admit another one. -/
def walkProgram (env : Env) (tailCall : Option (UnwindUserStackResolveData → WalkResult))
    (usi : UnwindUserStackResolveData) : WalkResult :=
  match env.pidModulesMap usi.pid with
  | none => { usi, sample := none, programs := 1 }
  | some pidMaps =>
    let r := getUserStack env pidMaps usi
    let finish : WalkResult := { usi := r.usi, sample := sampleOf r.usi r.ret, programs := 1 }
    match tailCall with
    | none => finish
    | some jump =>
      if r.tailCall then { jump r.usi with programs := (jump r.usi).programs + 1 } else finish

/-- The program with `calls` tail calls left. -/
def walkUserStacktrace (env : Env) : Nat → UnwindUserStackResolveData → WalkResult
  | 0 => walkProgram env none
  | calls + 1 => walkProgram env (some (walkUserStacktrace env calls))

/-- `in_kernel_space`. -/
def inKernelSpace (ip : UInt64) : Bool := decide (ip > 0xffff880000000000)

/-- `__xm_get_task_userspace_regs`: in kernel space, the registers that the entry
into the kernel has left on the stack of the task. -/
def getTaskUserspaceRegs (userRegs stackRegs : TaskUserspaceRegs) : TaskUserspaceRegs :=
  if inKernelSpace userRegs.rip then stackRegs else userRegs

/-- The record with which a walk starts. -/
def initUnwind (pid : Int32) (regs : TaskUserspaceRegs) : UnwindUserStackResolveData :=
  { pid
    regs
    eSt := { len := 1, pcLst := Function.update (fun _ => 0) 0 regs.rip }
    tailCallCount := 0 }

/-- The part of `xm_do_perf_event` that starts a walk, for a process whose maps are
known. The tail call that starts it is one of `calls`. -/
def doPerfEvent (env : Env) (calls : Nat) (pid : Int32)
    (userRegs stackRegs : TaskUserspaceRegs) : WalkResult :=
  let usi := initUnwind pid (getTaskUserspaceRegs userRegs stackRegs)
  match calls with
  | 0 => { usi, sample := none, programs := 0 }
  | calls + 1 => walkUserStacktrace env calls usi

end XMonitor.Profile
