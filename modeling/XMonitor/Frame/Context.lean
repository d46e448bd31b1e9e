import Mathlib.Logic.Function.Basic
import XMonitor.Profile.Layout

/-!
# The CFA program interpreter

The interpreter of `internal/frame/table.go` for the call frame instructions of a
CIE and an FDE: the byte buffer, the operand readers and one handler for each
opcode of `fnlookup`. A Go map from register numbers to rules is a function into
`Option`; a missing key reads as the zero rule, whose kind is `undefined`.

Every way the Go code can panic is an `Except` error. Reading past the end of the
buffer is not one of them in general: LEB128 decoding of an empty buffer gives `0`
and `binary.Read` leaves its target at `0`, and the interpreter goes on.
-/

namespace XMonitor.Frame

/-- The panics that can leave the interpreter and its callers. -/
inductive Panic
  | couldNotReadInstruction
  | couldNotReadByte
  | couldNotParseLeb128
  | unexpectedOpcode (instruction : UInt8)
  | emptyStateStack
  | nilByteOrder
  | sliceBoundsOutOfRange
  | tableIndexOutOfRange
deriving DecidableEq, Repr

inductive ByteOrder
  | littleEndian
  | bigEndian
deriving DecidableEq, Repr

/-- The kinds of `dlvFrame.Rule`. -/
inductive Rule
  | undefined
  | sameVal
  | offset
  | valOffset
  | register
  | expression
  | valExpression
  | architectural
  | cfa
  | framePointer
deriving DecidableEq, Repr, Inhabited

/-- `dlvFrame.DWRule`. -/
structure DWRule where
  rule : Rule := .undefined
  offset : Int64 := 0
  reg : UInt64 := 0
  expression : List UInt8 := []
deriving DecidableEq, Repr, Inhabited

/-- `map[uint64]dlvFrame.DWRule`. -/
abbrev Regs := UInt64 → Option DWRule

/-- `regs[reg] = rule`. -/
def Regs.set (regs : Regs) (reg : UInt64) (rule : DWRule) : Regs :=
  Function.update regs reg (some rule)

/-- `regs[reg]`, with the zero rule for a missing key. -/
def Regs.get (regs : Regs) (reg : UInt64) : DWRule := (regs reg).getD {}

structure RowState where
  cfa : DWRule
  regs : Regs

/-- `FrameContext`, without the fields `address` and `cie`, which nothing reads.
The head of `rememberedState` is the top of the state stack. -/
structure FrameContext where
  loc : UInt64 := 0
  order : Option ByteOrder := none
  cfa : DWRule := {}
  regs : Regs := fun _ => none
  initialRegs : Regs := fun _ => none
  buf : List UInt8
  retAddrReg : UInt64
  codeAlignment : UInt64
  dataAlignment : Int64
  rememberedState : List RowState := []

/-! ## Operands -/

def readByte : List UInt8 → Except Panic (UInt8 × List UInt8)
  | [] => .error .couldNotReadByte
  | b :: buf => .ok (b, buf)

/-- Go's `<<` gives `0` for counts of at least the word size. -/
def shiftLeft (x : UInt64) (count : Nat) : UInt64 :=
  if count < 64 then x <<< UInt64.ofNat count else 0

/-- The loop of both LEB128 decoders: the accumulated word, the bit count after
the last group, the last byte and the rest of the buffer. -/
def decodeGroups (result : UInt64) (shift : Nat) :
    List UInt8 → Except Panic (UInt64 × Nat × UInt8 × List UInt8)
  | [] => .error .couldNotParseLeb128
  | b :: buf =>
    if b &&& 0x80 = 0 then
      .ok (result ||| shiftLeft (b &&& 0x7f).toUInt64 shift, shift + 7, b, buf)
    else decodeGroups (result ||| shiftLeft (b &&& 0x7f).toUInt64 shift) (shift + 7) buf

/-- `leb128.DecodeUnsigned`. -/
def decodeUnsigned (buf : List UInt8) : Except Panic (UInt64 × List UInt8) :=
  if buf = [] then .ok (0, [])
  else do
    let (result, _, _, buf) ← decodeGroups 0 0 buf
    return (result, buf)

/-- `leb128.DecodeSigned`. Its test `shift < 8 * length` is always true, since
`shift` is seven times `length` there. -/
def decodeSigned (buf : List UInt8) : Except Panic (Int64 × List UInt8) :=
  if buf = [] then .ok (0, [])
  else do
    let (result, shift, b, buf) ← decodeGroups 0 0 buf
    let result := if b &&& 0x40 ≠ 0 then result ||| (0 - shiftLeft 1 shift) else result
    return (result.toInt64, buf)

def ByteOrder.uint (bytes : List UInt8) : ByteOrder → UInt64
  | .littleEndian => bytes.foldr (fun b x => x * 256 + b.toUInt64) 0
  | .bigEndian => bytes.foldl (fun x b => x * 256 + b.toUInt64) 0

/-- `binary.Read` of an `n`-byte unsigned integer whose error is ignored. A short
buffer is consumed and leaves `0`; otherwise the byte order is used, and a nil one
is a nil method call. -/
def binaryRead (n : Nat) (order : Option ByteOrder) (buf : List UInt8) :
    Except Panic (UInt64 × List UInt8) :=
  if buf.length < n then .ok (0, [])
  else order.elim (.error .nilByteOrder) fun order =>
    .ok (order.uint (buf.take n), buf.drop n)

/-- `buf.Next(int(l))`: at most the whole buffer, and a slice error for the
lengths that `int` turns into negative numbers. -/
def next (l : UInt64) (buf : List UInt8) : Except Panic (List UInt8 × List UInt8) :=
  if l.toInt64 < 0 then .error .sliceBoundsOutOfRange
  else .ok (buf.take l.toNat, buf.drop l.toNat)

/-! ## Handlers -/

abbrev Instruction := FrameContext → Except Panic FrameContext

def low6Offset : UInt8 := 0x3f

def advanceloc : Instruction := fun frame => do
  let (b, buf) ← readByte frame.buf
  let delta := b &&& low6Offset
  return { frame with buf, loc := frame.loc + delta.toUInt64 * frame.codeAlignment }

def advanceloc1 : Instruction := fun frame => do
  let (delta, buf) ← readByte frame.buf
  return { frame with buf, loc := frame.loc + delta.toUInt64 * frame.codeAlignment }

/-- `advanceloc2` and `advanceloc4`, which differ in the width of the operand. -/
def advancelocWide (width : Nat) : Instruction := fun frame => do
  let (delta, buf) ← binaryRead width frame.order frame.buf
  return { frame with buf, loc := frame.loc + delta * frame.codeAlignment }

def advanceloc2 : Instruction := advancelocWide 2

def advanceloc4 : Instruction := advancelocWide 4

def offset : Instruction := fun frame => do
  let (b, buf) ← readByte frame.buf
  let reg := b &&& low6Offset
  let (offset, buf) ← decodeUnsigned buf
  return { frame with
    buf
    regs := frame.regs.set reg.toUInt64
      { offset := offset.toInt64 * frame.dataAlignment, rule := .offset } }

/-- The rule that `restore` and `restoreextended` put back. -/
def restoredRule (frame : FrameContext) (reg : UInt64) : DWRule :=
  match frame.initialRegs reg with
  | some oldrule => { offset := oldrule.offset, rule := .offset }
  | none => { rule := .undefined }

def restore : Instruction := fun frame => do
  let (b, buf) ← readByte frame.buf
  let reg := (b &&& low6Offset).toUInt64
  return { frame with buf, regs := frame.regs.set reg (restoredRule frame reg) }

def setloc : Instruction := fun frame => do
  let (loc, buf) ← binaryRead 8 frame.order frame.buf
  return { frame with buf, loc }

def offsetextended : Instruction := fun frame => do
  let (reg, buf) ← decodeUnsigned frame.buf
  let (offset, buf) ← decodeUnsigned buf
  return { frame with
    buf
    regs := frame.regs.set reg
      { offset := offset.toInt64 * frame.dataAlignment, rule := .offset } }

def undefined : Instruction := fun frame => do
  let (reg, buf) ← decodeUnsigned frame.buf
  return { frame with buf, regs := frame.regs.set reg { rule := .undefined } }

def samevalue : Instruction := fun frame => do
  let (reg, buf) ← decodeUnsigned frame.buf
  return { frame with buf, regs := frame.regs.set reg { rule := .sameVal } }

def register : Instruction := fun frame => do
  let (reg1, buf) ← decodeUnsigned frame.buf
  let (reg2, buf) ← decodeUnsigned buf
  return { frame with buf, regs := frame.regs.set reg1 { reg := reg2, rule := .register } }

def rememberstate : Instruction := fun frame =>
  .ok { frame with
    rememberedState := { cfa := frame.cfa, regs := frame.regs } :: frame.rememberedState }

def restorestate : Instruction := fun frame =>
  match frame.rememberedState with
  | [] => .error .emptyStateStack
  | restored :: rest =>
    .ok { frame with cfa := restored.cfa, regs := restored.regs, rememberedState := rest }

def restoreextended : Instruction := fun frame => do
  let (reg, buf) ← decodeUnsigned frame.buf
  return { frame with buf, regs := frame.regs.set reg (restoredRule frame reg) }

def defcfa : Instruction := fun frame => do
  let (reg, buf) ← decodeUnsigned frame.buf
  let (offset, buf) ← decodeUnsigned buf
  return { frame with buf, cfa := { frame.cfa with rule := .cfa, reg, offset := offset.toInt64 } }

def defcfaregister : Instruction := fun frame => do
  let (reg, buf) ← decodeUnsigned frame.buf
  return { frame with buf, cfa := { frame.cfa with reg } }

def defcfaoffset : Instruction := fun frame => do
  let (offset, buf) ← decodeUnsigned frame.buf
  return { frame with buf, cfa := { frame.cfa with offset := offset.toInt64 } }

def defcfasf : Instruction := fun frame => do
  let (reg, buf) ← decodeUnsigned frame.buf
  let (offset, buf) ← decodeSigned buf
  return { frame with
    buf, cfa := { frame.cfa with rule := .cfa, reg, offset := offset * frame.dataAlignment } }

def defcfaoffsetsf : Instruction := fun frame => do
  let (offset, buf) ← decodeSigned frame.buf
  return { frame with buf, cfa := { frame.cfa with offset := offset * frame.dataAlignment } }

/-- The register and the offset of the previous rule stay in place. -/
def defcfaexpression : Instruction := fun frame => do
  let (l, buf) ← decodeUnsigned frame.buf
  let (expr, buf) ← next l buf
  return { frame with buf, cfa := { frame.cfa with expression := expr, rule := .expression } }

def expression : Instruction := fun frame => do
  let (reg, buf) ← decodeUnsigned frame.buf
  let (l, buf) ← decodeUnsigned buf
  let (expr, buf) ← next l buf
  return { frame with buf, regs := frame.regs.set reg { rule := .expression, expression := expr } }

def offsetextendedsf : Instruction := fun frame => do
  let (reg, buf) ← decodeUnsigned frame.buf
  let (offset, buf) ← decodeSigned buf
  return { frame with
    buf
    regs := frame.regs.set reg { offset := offset * frame.dataAlignment, rule := .offset } }

/-- Unlike `valoffsetsf`, this handler does not scale by the data alignment. -/
def valoffset : Instruction := fun frame => do
  let (reg, buf) ← decodeUnsigned frame.buf
  let (offset, buf) ← decodeUnsigned buf
  return { frame with
    buf, regs := frame.regs.set reg { offset := offset.toInt64, rule := .valOffset } }

def valoffsetsf : Instruction := fun frame => do
  let (reg, buf) ← decodeUnsigned frame.buf
  let (offset, buf) ← decodeSigned buf
  return { frame with
    buf
    regs := frame.regs.set reg { offset := offset * frame.dataAlignment, rule := .valOffset } }

def valexpression : Instruction := fun frame => do
  let (reg, buf) ← decodeUnsigned frame.buf
  let (l, buf) ← decodeUnsigned buf
  let (expr, buf) ← next l buf
  return { frame with
    buf, regs := frame.regs.set reg { rule := .valExpression, expression := expr } }

def louser : Instruction := fun frame => .ok { frame with buf := frame.buf.drop 1 }

def hiuser : Instruction := fun frame => .ok { frame with buf := frame.buf.drop 1 }

/-- The operand is unsigned; the signed decoder reads the same bytes. -/
def gnuargsize : Instruction := fun frame => do
  let (_, buf) ← decodeSigned frame.buf
  return { frame with buf }

/-! ## Dispatch -/

/-- The opcodes that `fnlookup` has a handler for. -/
inductive DwCfaOp
  | advanceLoc | offset | restore | setLoc | advanceLoc1 | advanceLoc2 | advanceLoc4
  | offsetExtended | restoreExtended | undefined | sameValue | register
  | rememberState | restoreState | defCfa | defCfaRegister | defCfaOffset
  | defCfaExpression | expression | offsetExtendedSf | defCfaSf | defCfaOffsetSf
  | valOffset | valOffsetSf | valExpression | loUser | hiUser | gnuArgsSize
deriving DecidableEq, Repr

/-- The values of the `DW_CFA` constants. -/
def DwCfaOp.ofByte (b : UInt8) : Option DwCfaOp :=
  match b.toNat with
  | 0x40 => some .advanceLoc
  | 0x80 => some .offset
  | 0xc0 => some .restore
  | 0x01 => some .setLoc
  | 0x02 => some .advanceLoc1
  | 0x03 => some .advanceLoc2
  | 0x04 => some .advanceLoc4
  | 0x05 => some .offsetExtended
  | 0x06 => some .restoreExtended
  | 0x07 => some .undefined
  | 0x08 => some .sameValue
  | 0x09 => some .register
  | 0x0a => some .rememberState
  | 0x0b => some .restoreState
  | 0x0c => some .defCfa
  | 0x0d => some .defCfaRegister
  | 0x0e => some .defCfaOffset
  | 0x0f => some .defCfaExpression
  | 0x10 => some .expression
  | 0x11 => some .offsetExtendedSf
  | 0x12 => some .defCfaSf
  | 0x13 => some .defCfaOffsetSf
  | 0x14 => some .valOffset
  | 0x15 => some .valOffsetSf
  | 0x16 => some .valExpression
  | 0x1c => some .loUser
  | 0x3f => some .hiUser
  | 0x2e => some .gnuArgsSize
  | _ => none

def fnlookup : DwCfaOp → Instruction
  | .advanceLoc => advanceloc
  | .offset => offset
  | .restore => restore
  | .setLoc => setloc
  | .advanceLoc1 => advanceloc1
  | .advanceLoc2 => advanceloc2
  | .advanceLoc4 => advanceloc4
  | .offsetExtended => offsetextended
  | .restoreExtended => restoreextended
  | .undefined => undefined
  | .sameValue => samevalue
  | .register => register
  | .rememberState => rememberstate
  | .restoreState => restorestate
  | .defCfa => defcfa
  | .defCfaRegister => defcfaregister
  | .defCfaOffset => defcfaoffset
  | .defCfaExpression => defcfaexpression
  | .expression => expression
  | .offsetExtendedSf => offsetextendedsf
  | .defCfaSf => defcfasf
  | .defCfaOffsetSf => defcfaoffsetsf
  | .valOffset => valoffset
  | .valOffsetSf => valoffsetsf
  | .valExpression => valexpression
  | .loUser => louser
  | .hiUser => hiuser
  | .gnuArgsSize => gnuargsize

/-- The three opcodes that carry their operand in the low six bits. -/
def isPrimary (instruction : UInt8) : Bool := instruction &&& 0xc0 != 0

/-- `lookupFunc`: the opcode that `fnlookup` is asked for and the buffer it leaves.
A primary opcode loses its operand bits and the byte is put back, since its
handler reads the operand from it. -/
def lookupFunc (instruction : UInt8) (buf : List UInt8) :
    Except Panic (DwCfaOp × List UInt8) :=
  let opcode := if isPrimary instruction then instruction &&& 0xc0 else instruction
  let buf := if isPrimary instruction then instruction :: buf else buf
  match DwCfaOp.ofByte opcode with
  | some op => .ok (op, buf)
  | none => .error (.unexpectedOpcode opcode)

def executeDwarfInstruction (frame : FrameContext) : Except Panic FrameContext :=
  match frame.buf with
  | [] => .error .couldNotReadInstruction
  | instruction :: buf =>
    -- `DW_CFA_nop` has no entry in `fnlookup`
    if instruction = 0 then .ok { frame with buf }
    else do
      let (op, buf) ← lookupFunc instruction buf
      fnlookup op { frame with buf }

end XMonitor.Frame
