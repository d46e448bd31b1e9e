import XMonitor.Frame.Program
import XMonitor.Lib.Cfi

/-!
# Decoding and performing an instruction

The interpreter reads operands and changes its context in one go. Here the two are
taken apart: `decode` is the encoding of the DWARF standard, and it rejects what
the interpreter reads leniently (an operand that is cut off by the end of the
buffer); `perform` is what the interpreter does with a decoded instruction.

Both sides share the LEB128 decoders, which are taken to be right on the bytes that
they accept.
-/

namespace XMonitor.Frame

open ExceptRules Cfi

/-! ## The encoding -/

section

variable (order : ByteOrder)

def unsignedOperand (buf : List UInt8) : Option (UInt64 × List UInt8) :=
  if buf = [] then none else (decodeUnsigned buf).toOption

def signedOperand (buf : List UInt8) : Option (Int64 × List UInt8) :=
  if buf = [] then none else (decodeSigned buf).toOption

def fixedOperand (n : Nat) (buf : List UInt8) : Option (UInt64 × List UInt8) :=
  if buf.length < n then none else some (order.uint (buf.take n), buf.drop n)

/-- A block that is preceded by its length. -/
def blockOperand (buf : List UInt8) : Option (List UInt8 × List UInt8) := do
  let (l, buf) ← unsignedOperand buf
  if l.toNat ≤ buf.length then some (buf.take l.toNat, buf.drop l.toNat) else none

/-- The instructions whose opcode fills the whole byte. The operands of the vendor
opcodes have no effect on the table. -/
def decodeExtended (op : DwCfaOp) (buf : List UInt8) : Option (Instr × List UInt8) :=
  match op with
  | .advanceLoc | .offset | .restore => none
  | .setLoc => do
    let (loc, buf) ← fixedOperand order 8 buf
    return (.setLoc loc, buf)
  | .advanceLoc1 => do
    let (delta, buf) ← fixedOperand order 1 buf
    return (.advanceLoc delta, buf)
  | .advanceLoc2 => do
    let (delta, buf) ← fixedOperand order 2 buf
    return (.advanceLoc delta, buf)
  | .advanceLoc4 => do
    let (delta, buf) ← fixedOperand order 4 buf
    return (.advanceLoc delta, buf)
  | .offsetExtended => do
    let (reg, buf) ← unsignedOperand buf
    let (n, buf) ← unsignedOperand buf
    return (.offset reg n.toInt64, buf)
  | .offsetExtendedSf => do
    let (reg, buf) ← unsignedOperand buf
    let (n, buf) ← signedOperand buf
    return (.offset reg n, buf)
  | .restoreExtended => do
    let (reg, buf) ← unsignedOperand buf
    return (.restore reg, buf)
  | .undefined => do
    let (reg, buf) ← unsignedOperand buf
    return (.undefined reg, buf)
  | .sameValue => do
    let (reg, buf) ← unsignedOperand buf
    return (.sameValue reg, buf)
  | .register => do
    let (reg, buf) ← unsignedOperand buf
    let (reg', buf) ← unsignedOperand buf
    return (.register reg reg', buf)
  | .rememberState => some (.rememberState, buf)
  | .restoreState => some (.restoreState, buf)
  | .defCfa => do
    let (reg, buf) ← unsignedOperand buf
    let (off, buf) ← unsignedOperand buf
    return (.defCfa reg off.toInt64, buf)
  | .defCfaSf => do
    let (reg, buf) ← unsignedOperand buf
    let (n, buf) ← signedOperand buf
    return (.defCfaSf reg n, buf)
  | .defCfaRegister => do
    let (reg, buf) ← unsignedOperand buf
    return (.defCfaRegister reg, buf)
  | .defCfaOffset => do
    let (off, buf) ← unsignedOperand buf
    return (.defCfaOffset off.toInt64, buf)
  | .defCfaOffsetSf => do
    let (n, buf) ← signedOperand buf
    return (.defCfaOffsetSf n, buf)
  | .defCfaExpression => do
    let (block, buf) ← blockOperand buf
    return (.defCfaExpression block, buf)
  | .expression => do
    let (reg, buf) ← unsignedOperand buf
    let (block, buf) ← blockOperand buf
    return (.expression reg block, buf)
  | .valOffset => do
    let (reg, buf) ← unsignedOperand buf
    let (n, buf) ← unsignedOperand buf
    return (.valOffset reg n.toInt64, buf)
  | .valOffsetSf => do
    let (reg, buf) ← unsignedOperand buf
    let (n, buf) ← signedOperand buf
    return (.valOffsetSf reg n, buf)
  | .valExpression => do
    let (reg, buf) ← unsignedOperand buf
    let (block, buf) ← blockOperand buf
    return (.valExpression reg block, buf)
  | .loUser | .hiUser => do
    let (_, buf) ← fixedOperand order 1 buf
    return (.nop, buf)
  | .gnuArgsSize => do
    let (_, buf) ← unsignedOperand buf
    return (.nop, buf)

/-- One instruction. The two high bits of the byte select the three opcodes that
carry an operand in the low bits. -/
def decode : List UInt8 → Option (Instr × List UInt8)
  | [] => none
  | b :: buf =>
    if b = 0 then some (.nop, buf)
    else if b &&& 0xc0 = 0x40 then some (.advanceLoc (b &&& 0x3f).toUInt64, buf)
    else if b &&& 0xc0 = 0x80 then do
      let (n, buf) ← unsignedOperand buf
      return (.offset (b &&& 0x3f).toUInt64 n.toInt64, buf)
    else if b &&& 0xc0 = 0xc0 then some (.restore (b &&& 0x3f).toUInt64, buf)
    else do
      let op ← DwCfaOp.ofByte b
      decodeExtended order op buf

/-- A string of instructions, with the length of the buffer as fuel. -/
def decodeAll : Nat → List UInt8 → Option (List Instr)
  | 0, buf => if buf = [] then some [] else none
  | fuel + 1, buf =>
    if buf = [] then some []
    else do
      let (i, buf) ← decode order buf
      let is ← decodeAll fuel buf
      return i :: is

end

/-- The call frame program of an FDE. -/
def FrameDescriptionEntry.program (fde : FrameDescriptionEntry) (order : ByteOrder) :
    Option Program := do
  let initial ← decodeAll order fde.cie.initialInstructions.length fde.cie.initialInstructions
  let instructions ← decodeAll order fde.instructions.length fde.instructions
  return { codeAlignment := fde.cie.codeAlignmentFactor
           dataAlignment := fde.cie.dataAlignmentFactor
           initialInstructions := initial
           instructions
           begin_ := fde.begin_ }

/-! ## What the interpreter does with a decoded instruction -/

def FrameContext.setReg (frame : FrameContext) (reg : UInt64) (rule : DWRule) : FrameContext :=
  { frame with regs := frame.regs.set reg rule }

/-- The effect of the handlers, without the buffer. An empty state stack, on which
the interpreter panics, is left alone. -/
def perform (frame : FrameContext) : Instr → FrameContext
  | .nop => frame
  | .setLoc loc => { frame with loc }
  | .advanceLoc delta => { frame with loc := frame.loc + delta * frame.codeAlignment }
  | .offset reg n => frame.setReg reg { offset := n * frame.dataAlignment, rule := .offset }
  | .restore reg => frame.setReg reg (restoredRule frame reg)
  | .undefined reg => frame.setReg reg { rule := .undefined }
  | .sameValue reg => frame.setReg reg { rule := .sameVal }
  | .register reg reg' => frame.setReg reg { reg := reg', rule := .register }
  | .rememberState => { frame with
      rememberedState := { cfa := frame.cfa, regs := frame.regs } :: frame.rememberedState }
  | .restoreState =>
    match frame.rememberedState with
    | [] => frame
    | restored :: rest =>
      { frame with cfa := restored.cfa, regs := restored.regs, rememberedState := rest }
  | .defCfa reg off => { frame with cfa := { frame.cfa with rule := .cfa, reg, offset := off } }
  | .defCfaSf reg n => { frame with
      cfa := { frame.cfa with rule := .cfa, reg, offset := n * frame.dataAlignment } }
  | .defCfaRegister reg => { frame with cfa := { frame.cfa with reg } }
  | .defCfaOffset off => { frame with cfa := { frame.cfa with offset := off } }
  | .defCfaOffsetSf n => { frame with
      cfa := { frame.cfa with offset := n * frame.dataAlignment } }
  | .defCfaExpression block => { frame with
      cfa := { frame.cfa with expression := block, rule := .expression } }
  | .expression reg block => frame.setReg reg { rule := .expression, expression := block }
  | .valOffset reg n => frame.setReg reg { offset := n, rule := .valOffset }
  | .valOffsetSf reg n =>
    frame.setReg reg { offset := n * frame.dataAlignment, rule := .valOffset }
  | .valExpression reg block =>
    frame.setReg reg { rule := .valExpression, expression := block }

/-! ## Executing is decoding and performing -/

section

variable {order : ByteOrder}

theorem decodeUnsigned_of_operand {buf : List UInt8} {x : UInt64 × List UInt8}
    (h : unsignedOperand buf = some x) : decodeUnsigned buf = .ok x := by
  rw [unsignedOperand] at h
  split at h
  · cases h
  · cases hd : decodeUnsigned buf with
    | error e => simp [hd, Except.toOption] at h
    | ok y => simpa [hd, Except.toOption] using h

theorem decodeSigned_of_operand {buf : List UInt8} {x : Int64 × List UInt8}
    (h : signedOperand buf = some x) : decodeSigned buf = .ok x := by
  rw [signedOperand] at h
  split at h
  · cases h
  · cases hd : decodeSigned buf with
    | error e => simp [hd, Except.toOption] at h
    | ok y => simpa [hd, Except.toOption] using h

/-- Both LEB128 decoders consume the same bytes. -/
theorem decodeSigned_rest {buf : List UInt8} {x : UInt64 × List UInt8} {y : Int64 × List UInt8}
    (hx : decodeUnsigned buf = .ok x) (hy : decodeSigned buf = .ok y) : y.2 = x.2 := by
  rw [decodeUnsigned] at hx
  rw [decodeSigned] at hy
  split at hx
  · rw [if_pos ‹_›] at hy
    cases hx
    cases hy
    rfl
  · rw [if_neg ‹_›] at hy
    obtain ⟨a, ha, hx⟩ := bind_eq_ok.mp hx
    obtain ⟨a', ha', hy⟩ := bind_eq_ok.mp hy
    rw [ha] at ha'
    cases ha'
    cases hx
    cases hy
    rfl

theorem readByte_of_operand {buf : List UInt8} {x : UInt64 × List UInt8}
    {y : UInt8 × List UInt8} (hx : fixedOperand order 1 buf = some x)
    (hy : readByte buf = .ok y) : x = (y.1.toUInt64, y.2) := by
  cases buf with
  | nil => cases hy
  | cons b buf =>
      cases hy
      cases order <;> simpa [fixedOperand, ByteOrder.uint] using hx.symm

theorem binaryRead_of_operand {n : Nat} {ord : Option ByteOrder} {buf : List UInt8}
    {x y : UInt64 × List UInt8} (hord : ord = none ∨ ord = some order)
    (hx : fixedOperand order n buf = some x) (hy : binaryRead n ord buf = .ok y) : y = x := by
  rw [fixedOperand] at hx
  rw [binaryRead] at hy
  split at hx
  · cases hx
  · rw [if_neg ‹_›] at hy
    obtain rfl | rfl := hord
    · cases hy
    · cases hy
      exact Option.some.inj hx

theorem next_of_operand {buf : List UInt8} {x : List UInt8 × List UInt8}
    {l : UInt64 × List UInt8} {y : List UInt8 × List UInt8} (hx : blockOperand buf = some x)
    (hl : decodeUnsigned buf = .ok l) (hy : next l.1 l.2 = .ok y) : y = x := by
  obtain ⟨l', hl', hx⟩ := Option.bind_eq_some_iff.mp hx
  rw [decodeUnsigned_of_operand hl'] at hl
  cases hl
  rw [next] at hy
  split at hy
  · cases hy
  · cases hy
    simp only at hx
    split at hx
    · exact Option.some.inj hx
    · cases hx

/-- A handler does what `perform` says. The cases are grouped by their operands. -/
theorem fnlookup_eq {op : DwCfaOp} {frame frame' : FrameContext} {i : Instr}
    {rest : List UInt8} (hord : frame.order = none ∨ frame.order = some order)
    (hdec : decodeExtended order op frame.buf = some (i, rest))
    (h : fnlookup op frame = .ok frame') : frame' = { perform frame i with buf := rest } := by
  cases op with
  | advanceLoc | offset | restore => cases hdec
  | setLoc | advanceLoc2 | advanceLoc4 =>
      obtain ⟨x, hx, hdec⟩ := Option.bind_eq_some_iff.mp hdec
      obtain ⟨a, ha, h⟩ := bind_eq_ok.mp h
      rw [binaryRead_of_operand hord hx ha] at h
      cases hdec
      cases h
      rfl
  | advanceLoc1 =>
      obtain ⟨x, hx, hdec⟩ := Option.bind_eq_some_iff.mp hdec
      obtain ⟨a, ha, h⟩ := bind_eq_ok.mp h
      rw [readByte_of_operand hx ha] at hdec
      cases hdec
      cases h
      rfl
  | restoreExtended | undefined | sameValue | defCfaRegister | defCfaOffset =>
      obtain ⟨x, hx, hdec⟩ := Option.bind_eq_some_iff.mp hdec
      obtain ⟨a, ha, h⟩ := bind_eq_ok.mp h
      rw [decodeUnsigned_of_operand hx] at ha
      cases ha
      cases hdec
      cases h
      rfl
  | defCfaOffsetSf =>
      obtain ⟨x, hx, hdec⟩ := Option.bind_eq_some_iff.mp hdec
      obtain ⟨a, ha, h⟩ := bind_eq_ok.mp h
      rw [decodeSigned_of_operand hx] at ha
      cases ha
      cases hdec
      cases h
      rfl
  | offsetExtended | register | defCfa | valOffset =>
      obtain ⟨x, hx, hdec⟩ := Option.bind_eq_some_iff.mp hdec
      obtain ⟨y, hy, hdec⟩ := Option.bind_eq_some_iff.mp hdec
      obtain ⟨a, ha, h⟩ := bind_eq_ok.mp h
      rw [decodeUnsigned_of_operand hx] at ha
      cases ha
      obtain ⟨b, hb, h⟩ := bind_eq_ok.mp h
      rw [decodeUnsigned_of_operand hy] at hb
      cases hb
      cases hdec
      cases h
      rfl
  | offsetExtendedSf | defCfaSf | valOffsetSf =>
      obtain ⟨x, hx, hdec⟩ := Option.bind_eq_some_iff.mp hdec
      obtain ⟨y, hy, hdec⟩ := Option.bind_eq_some_iff.mp hdec
      obtain ⟨a, ha, h⟩ := bind_eq_ok.mp h
      rw [decodeUnsigned_of_operand hx] at ha
      cases ha
      obtain ⟨b, hb, h⟩ := bind_eq_ok.mp h
      rw [decodeSigned_of_operand hy] at hb
      cases hb
      cases hdec
      cases h
      rfl
  | defCfaExpression =>
      obtain ⟨x, hx, hdec⟩ := Option.bind_eq_some_iff.mp hdec
      obtain ⟨l, hl, h⟩ := bind_eq_ok.mp h
      obtain ⟨b, hb, h⟩ := bind_eq_ok.mp h
      rw [next_of_operand hx hl hb] at h
      cases hdec
      cases h
      rfl
  | expression | valExpression =>
      obtain ⟨x, hx, hdec⟩ := Option.bind_eq_some_iff.mp hdec
      obtain ⟨y, hy, hdec⟩ := Option.bind_eq_some_iff.mp hdec
      obtain ⟨a, ha, h⟩ := bind_eq_ok.mp h
      rw [decodeUnsigned_of_operand hx] at ha
      cases ha
      obtain ⟨l, hl, h⟩ := bind_eq_ok.mp h
      obtain ⟨b, hb, h⟩ := bind_eq_ok.mp h
      rw [next_of_operand hy hl hb] at h
      cases hdec
      cases h
      rfl
  | rememberState =>
      cases hdec
      cases h
      rfl
  | restoreState =>
      cases hdec
      change restorestate frame = .ok frame' at h
      rw [restorestate] at h
      split at h
      · cases h
      · rename_i hstack
        cases h
        simp only [perform, hstack]
  | loUser | hiUser =>
      obtain ⟨x, hx, hdec⟩ := Option.bind_eq_some_iff.mp hdec
      cases hdec
      cases h
      rw [fixedOperand] at hx
      split at hx
      · cases hx
      · cases hx
        rfl
  | gnuArgsSize =>
      obtain ⟨x, hx, hdec⟩ := Option.bind_eq_some_iff.mp hdec
      obtain ⟨a, ha, h⟩ := bind_eq_ok.mp h
      cases hdec
      cases h
      rw [decodeSigned_rest (decodeUnsigned_of_operand hx) ha]
      rfl

theorem perform_buf (frame : FrameContext) (buf rest : List UInt8) (i : Instr) :
    { perform { frame with buf } i with buf := rest } = { perform frame i with buf := rest } := by
  cases i with
  | restoreState =>
      simp only [perform]
      split <;> rfl
  | _ => rfl

private theorem high_bits_cases : ∀ b : Fin 256, UInt8.ofFin b &&& 0xc0 = 0x40 ∨
    UInt8.ofFin b &&& 0xc0 = 0x80 ∨ UInt8.ofFin b &&& 0xc0 = 0xc0 ∨
    isPrimary (UInt8.ofFin b) = false := by
  decide +kernel

theorem high_bits (b : UInt8) : b &&& 0xc0 = 0x40 ∨ b &&& 0xc0 = 0x80 ∨ b &&& 0xc0 = 0xc0 ∨
    isPrimary b = false := high_bits_cases b.toFin

theorem lookupFunc_of_high_bits {b bits : UInt8} {op : DwCfaOp} (buf : List UInt8)
    (hbits : b &&& 0xc0 = bits) (hne : bits ≠ 0) (hop : DwCfaOp.ofByte bits = some op) :
    lookupFunc b buf = .ok (op, b :: buf) := by
  have hprimary : isPrimary b = true := by simpa [isPrimary, hbits] using hne
  simp only [lookupFunc, hprimary, if_true, hbits, hop]

theorem executeDwarfInstruction_eq {frame frame' : FrameContext} {i : Instr}
    {rest : List UInt8} (hord : frame.order = none ∨ frame.order = some order)
    (hdec : decode order frame.buf = some (i, rest))
    (h : executeDwarfInstruction frame = .ok frame') :
    frame' = { perform frame i with buf := rest } := by
  cases hbuf : frame.buf with
  | nil => simp [hbuf, decode] at hdec
  | cons b buf =>
      simp only [executeDwarfInstruction, hbuf] at h
      simp only [decode, hbuf] at hdec
      split at h
      · rw [if_pos ‹_›] at hdec
        cases hdec
        cases h
        rfl
      rw [if_neg ‹_›] at hdec
      obtain hbits | hbits | hbits | hlow := high_bits b
      · rw [if_pos hbits] at hdec
        rw [lookupFunc_of_high_bits buf hbits (by decide) rfl, ok_bind] at h
        cases hdec
        cases h
        rfl
      · rw [if_neg (by rw [hbits]; decide), if_pos hbits] at hdec
        rw [lookupFunc_of_high_bits buf hbits (by decide) rfl, ok_bind] at h
        obtain ⟨x, hx, hdec⟩ := Option.bind_eq_some_iff.mp hdec
        obtain ⟨a, ha, h⟩ := bind_eq_ok.mp h
        cases ha
        obtain ⟨y, hy, h⟩ := bind_eq_ok.mp h
        rw [decodeUnsigned_of_operand hx] at hy
        cases hy
        cases hdec
        cases h
        rfl
      · rw [if_neg (by rw [hbits]; decide), if_neg (by rw [hbits]; decide), if_pos hbits] at hdec
        rw [lookupFunc_of_high_bits buf hbits (by decide) rfl, ok_bind] at h
        cases hdec
        cases h
        rfl
      · have hbits : b &&& 0xc0 = 0 := by simpa [isPrimary] using hlow
        rw [if_neg (by rw [hbits]; decide), if_neg (by rw [hbits]; decide),
          if_neg (by rw [hbits]; decide)] at hdec
        obtain ⟨op, hop, hdec⟩ := Option.bind_eq_some_iff.mp hdec
        obtain ⟨⟨op', buf'⟩, hlookup, hstep⟩ := bind_eq_ok.mp h
        obtain ⟨hop', hbuf'⟩ := lookupFunc_secondary hlow hlookup
        rw [hop] at hop'
        cases hop'
        cases hbuf'
        have hperform : frame' = { perform { frame with buf := buf' } i with buf := rest } :=
          fnlookup_eq hord hdec hstep
        rw [hperform]
        exact perform_buf frame buf' rest i

end

end XMonitor.Frame
