import XMonitor.Frame.Context
import XMonitor.Lib.ExceptRules

/-!
# Running the program of an FDE

`ExecuteDwarfProgram` runs the initial instructions of the CIE and then the
instructions of the FDE, and hands a row to its callback each time the location
has moved and once at the end. The callback is a state transformer here; it is the
only thing the interpreter does that its caller can see.

The loops run as long as bytes are left. They take the length of the buffer as
their fuel: every instruction consumes at least its opcode
(`executeDwarfInstruction_consumes`), so the fuel never ends before the buffer does.
-/

namespace XMonitor.Frame

open ExceptRules

/-- `dlvFrame.CommonInformationEntry`, with the fields the interpreter reads. -/
structure CommonInformationEntry where
  codeAlignmentFactor : UInt64
  dataAlignmentFactor : Int64
  returnAddressRegister : UInt64
  initialInstructions : List UInt8

/-- `dlvFrame.FrameDescriptionEntry`, as the parser of the section delivers it. -/
structure FrameDescriptionEntry where
  cie : CommonInformationEntry
  instructions : List UInt8
  begin_ : UInt64
  size : UInt64

/-- `FrameDescriptionEntry.End`. -/
def FrameDescriptionEntry.end_ (fde : FrameDescriptionEntry) : UInt64 := fde.begin_ + fde.size

/-- The arguments of the row callback. -/
structure ReceivedRow where
  loc : UInt64
  cfa : DWRule
  regs : Regs
  retAddrReg : UInt64

/-- The loop of `executeDwarfProgram`. -/
def executeDwarfProgram : Nat → FrameContext → Except Panic FrameContext
  | 0, frame => .ok frame
  | fuel + 1, frame =>
    if frame.buf = [] then .ok frame
    else do
      let frame ← executeDwarfInstruction frame
      executeDwarfProgram fuel frame

/-- The byte order of the context is still unset while the CIE runs. -/
def executeCIEInstructions (cie : CommonInformationEntry) : Except Panic FrameContext :=
  executeDwarfProgram cie.initialInstructions.length
    { buf := cie.initialInstructions
      retAddrReg := cie.returnAddressRegister
      codeAlignment := cie.codeAlignmentFactor
      dataAlignment := cie.dataAlignmentFactor }

/-- The row of the current context, starting at `prevLoc`. -/
def FrameContext.row (frame : FrameContext) (prevLoc : UInt64) : ReceivedRow :=
  ⟨prevLoc, frame.cfa, frame.regs, frame.retAddrReg⟩

section

variable {σ : Type} (receiveRow : σ → ReceivedRow → Except Panic σ)

/-- The loop of `buildFDETables`, with the location of the row that is being built. -/
def buildRows : Nat → FrameContext → UInt64 → σ → Except Panic (FrameContext × UInt64 × σ)
  | 0, frame, prevLoc, s => .ok (frame, prevLoc, s)
  | fuel + 1, frame, prevLoc, s =>
    if frame.buf = [] then .ok (frame, prevLoc, s)
    else do
      let frame ← executeDwarfInstruction frame
      if frame.loc ≠ prevLoc then
        let s ← receiveRow s (frame.row prevLoc)
        buildRows fuel frame frame.loc s
      else buildRows fuel frame prevLoc s

def buildFDETables (frame : FrameContext) (instructions : List UInt8) (s : σ) :
    Except Panic σ := do
  let frame := { frame with buf := instructions }
  let (frame, prevLoc, s) ← buildRows receiveRow instructions.length frame frame.loc s
  receiveRow s (frame.row prevLoc)

/-- `ExecuteDwarfProgram`. -/
def executeFDE (fde : FrameDescriptionEntry) (order : ByteOrder) (s : σ) : Except Panic σ := do
  let frame ← executeCIEInstructions fde.cie
  buildFDETables receiveRow { frame with order := some order, loc := fde.begin_ }
    fde.instructions s

end

/-! ## The rows of a run

A callback that never fails sees the same rows whatever its state is. -/

/-- The rows that the loop of `buildFDETables` delivers, with the context and the
location it ends with. -/
def rowsFrom : Nat → FrameContext → UInt64 →
    Except Panic (FrameContext × UInt64 × List ReceivedRow)
  | 0, frame, prevLoc => .ok (frame, prevLoc, [])
  | fuel + 1, frame, prevLoc =>
    if frame.buf = [] then .ok (frame, prevLoc, [])
    else do
      let frame ← executeDwarfInstruction frame
      if frame.loc ≠ prevLoc then
        let (last, lastLoc, rows) ← rowsFrom fuel frame frame.loc
        return (last, lastLoc, frame.row prevLoc :: rows)
      else rowsFrom fuel frame prevLoc

/-- The context in which the instructions of an FDE start. -/
def startFDE (fde : FrameDescriptionEntry) (order : ByteOrder) : Except Panic FrameContext := do
  let frame ← executeCIEInstructions fde.cie
  return { frame with order := some order, loc := fde.begin_, buf := fde.instructions }

/-- All rows of an FDE, the last one included. -/
def fdeRows (fde : FrameDescriptionEntry) (order : ByteOrder) :
    Except Panic (List ReceivedRow) := do
  let frame ← startFDE fde order
  let (last, lastLoc, rows) ← rowsFrom fde.instructions.length frame frame.loc
  return rows ++ [last.row lastLoc]

section

variable {σ : Type} {receive : σ → ReceivedRow → Except Panic σ} {f : σ → ReceivedRow → σ}

theorem buildRows_eq (total : ∀ s r, receive s r = .ok (f s r))
    (fuel : Nat) (frame : FrameContext) (prevLoc : UInt64) (s : σ) :
    buildRows receive fuel frame prevLoc s =
      (rowsFrom fuel frame prevLoc).map fun x => (x.1, x.2.1, x.2.2.foldl f s) := by
  induction fuel generalizing frame prevLoc s with
  | zero => rfl
  | succ fuel ih =>
      rw [buildRows, rowsFrom]
      split
      · rfl
      cases executeDwarfInstruction frame with
      | error e => rfl
      | ok frame' =>
          simp only [ok_bind, total]
          split
          · rw [ih]
            cases rowsFrom fuel frame' frame'.loc with
            | error e => rfl
            | ok x => rfl
          · exact ih frame' prevLoc s

/-- The callback is folded over the rows of the FDE. -/
theorem executeFDE_eq (total : ∀ s r, receive s r = .ok (f s r))
    (fde : FrameDescriptionEntry) (order : ByteOrder) (s : σ) :
    executeFDE receive fde order s = (fdeRows fde order).map fun rows => rows.foldl f s := by
  rw [executeFDE, fdeRows, startFDE]
  cases executeCIEInstructions fde.cie with
  | error e => rfl
  | ok frame =>
      simp only [ok_bind, buildFDETables, buildRows_eq total, pure, Except.pure]
      generalize rowsFrom _ _ _ = run
      cases run with
      | error e => rfl
      | ok x => simp [Except.map, bind, Except.bind, total]

end

theorem fdeRows_ne_nil {fde : FrameDescriptionEntry} {order : ByteOrder}
    {rows : List ReceivedRow} (h : fdeRows fde order = .ok rows) : rows ≠ [] := by
  obtain ⟨frame, -, h⟩ := bind_eq_ok.mp h
  obtain ⟨x, -, h⟩ := bind_eq_ok.mp h
  cases h
  simp

/-! ## What one instruction consumes and keeps -/

theorem decodeGroups_length {result : UInt64} {shift : Nat} {buf : List UInt8}
    {r : UInt64 × Nat × UInt8 × List UInt8} (h : decodeGroups result shift buf = .ok r) :
    r.2.2.2.length < buf.length := by
  induction buf generalizing result shift with
  | nil => simp [decodeGroups] at h
  | cons b buf ih =>
      rw [decodeGroups] at h
      split at h
      · cases h
        exact Nat.lt_succ_self _
      · exact Nat.lt_succ_of_lt (ih h)

theorem decodeUnsigned_length {buf : List UInt8} {r : UInt64 × List UInt8}
    (h : decodeUnsigned buf = .ok r) : r.2.length ≤ buf.length := by
  rw [decodeUnsigned] at h
  split at h
  · cases h
    exact Nat.zero_le _
  · obtain ⟨a, ha, hr⟩ := bind_eq_ok.mp h
    cases hr
    exact Nat.le_of_lt (decodeGroups_length ha)

theorem decodeSigned_length {buf : List UInt8} {r : Int64 × List UInt8}
    (h : decodeSigned buf = .ok r) : r.2.length ≤ buf.length := by
  rw [decodeSigned] at h
  split at h
  · cases h
    exact Nat.zero_le _
  · obtain ⟨a, ha, hr⟩ := bind_eq_ok.mp h
    cases hr
    exact Nat.le_of_lt (decodeGroups_length ha)

theorem readByte_length {buf : List UInt8} {r : UInt8 × List UInt8}
    (h : readByte buf = .ok r) : r.2.length < buf.length := by
  cases buf with
  | nil => simp [readByte] at h
  | cons b buf =>
      cases h
      exact Nat.lt_succ_self _

theorem binaryRead_length {n : Nat} {order : Option ByteOrder} {buf : List UInt8}
    {r : UInt64 × List UInt8} (h : binaryRead n order buf = .ok r) :
    r.2.length ≤ buf.length := by
  rw [binaryRead] at h
  split at h
  · cases h
    exact Nat.zero_le _
  · cases order with
    | none => cases h
    | some order =>
        cases h
        simp

theorem next_length {l : UInt64} {buf : List UInt8} {r : List UInt8 × List UInt8}
    (h : next l buf = .ok r) : r.2.length ≤ buf.length := by
  rw [next] at h
  split at h
  · cases h
  · cases h
    simp

/-- The part of the context that is fixed for the whole run. -/
structure Setting where
  order : Option ByteOrder
  initialRegs : Regs
  retAddrReg : UInt64
  codeAlignment : UInt64
  dataAlignment : Int64

def FrameContext.setting (frame : FrameContext) : Setting :=
  ⟨frame.order, frame.initialRegs, frame.retAddrReg, frame.codeAlignment, frame.dataAlignment⟩

/-- No handler gives bytes back. The cases are grouped by the operands they read. -/
theorem fnlookup_setting {op : DwCfaOp} {frame frame' : FrameContext}
    (h : fnlookup op frame = .ok frame') :
    frame'.setting = frame.setting ∧ frame'.buf.length ≤ frame.buf.length := by
  cases op with
  | advanceLoc | restore | advanceLoc1 =>
      obtain ⟨a, ha, h⟩ := bind_eq_ok.mp h
      cases h
      exact ⟨rfl, Nat.le_of_lt (readByte_length ha)⟩
  | offset =>
      obtain ⟨a, ha, h⟩ := bind_eq_ok.mp h
      obtain ⟨b, hb, h⟩ := bind_eq_ok.mp h
      cases h
      exact ⟨rfl, Nat.le_trans (decodeUnsigned_length hb) (Nat.le_of_lt (readByte_length ha))⟩
  | setLoc | advanceLoc2 | advanceLoc4 =>
      obtain ⟨a, ha, h⟩ := bind_eq_ok.mp h
      cases h
      exact ⟨rfl, binaryRead_length ha⟩
  | undefined | sameValue | restoreExtended | defCfaRegister | defCfaOffset =>
      obtain ⟨a, ha, h⟩ := bind_eq_ok.mp h
      cases h
      exact ⟨rfl, decodeUnsigned_length ha⟩
  | offsetExtended | register | defCfa | valOffset =>
      obtain ⟨a, ha, h⟩ := bind_eq_ok.mp h
      obtain ⟨b, hb, h⟩ := bind_eq_ok.mp h
      cases h
      exact ⟨rfl, Nat.le_trans (decodeUnsigned_length hb) (decodeUnsigned_length ha)⟩
  | offsetExtendedSf | defCfaSf | valOffsetSf =>
      obtain ⟨a, ha, h⟩ := bind_eq_ok.mp h
      obtain ⟨b, hb, h⟩ := bind_eq_ok.mp h
      cases h
      exact ⟨rfl, Nat.le_trans (decodeSigned_length hb) (decodeUnsigned_length ha)⟩
  | defCfaOffsetSf | gnuArgsSize =>
      obtain ⟨a, ha, h⟩ := bind_eq_ok.mp h
      cases h
      exact ⟨rfl, decodeSigned_length ha⟩
  | defCfaExpression =>
      obtain ⟨a, ha, h⟩ := bind_eq_ok.mp h
      obtain ⟨b, hb, h⟩ := bind_eq_ok.mp h
      cases h
      exact ⟨rfl, Nat.le_trans (next_length hb) (decodeUnsigned_length ha)⟩
  | expression | valExpression =>
      obtain ⟨a, ha, h⟩ := bind_eq_ok.mp h
      obtain ⟨b, hb, h⟩ := bind_eq_ok.mp h
      obtain ⟨c, hc, h⟩ := bind_eq_ok.mp h
      cases h
      exact ⟨rfl, Nat.le_trans (next_length hc)
        (Nat.le_trans (decodeUnsigned_length hb) (decodeUnsigned_length ha))⟩
  | rememberState =>
      cases h
      exact ⟨rfl, Nat.le_refl _⟩
  | restoreState =>
      change restorestate frame = .ok frame' at h
      rw [restorestate] at h
      split at h
      · cases h
      · cases h
        exact ⟨rfl, Nat.le_refl _⟩
  | loUser | hiUser =>
      cases h
      exact ⟨rfl, by simp⟩

private theorem ofByte_primary : ∀ b : Fin 256, isPrimary (UInt8.ofFin b) = true →
    DwCfaOp.ofByte (UInt8.ofFin b &&& 0xc0) = some .advanceLoc ∨
    DwCfaOp.ofByte (UInt8.ofFin b &&& 0xc0) = some .offset ∨
    DwCfaOp.ofByte (UInt8.ofFin b &&& 0xc0) = some .restore := by
  decide +kernel

/-- A primary opcode has one of three handlers, and the byte is put back for it. -/
theorem lookupFunc_primary {b : UInt8} (buf : List UInt8) (hb : isPrimary b = true) :
    ∃ op, lookupFunc b buf = .ok (op, b :: buf) ∧
      (op = .advanceLoc ∨ op = .offset ∨ op = .restore) := by
  have found {op : DwCfaOp} (h : DwCfaOp.ofByte (b &&& 0xc0) = some op) :
      lookupFunc b buf = .ok (op, b :: buf) := by
    simp only [lookupFunc, hb, if_true, h]
  obtain h | h | h := ofByte_primary b.toFin hb
  · exact ⟨.advanceLoc, found h, .inl rfl⟩
  · exact ⟨.offset, found h, .inr (.inl rfl)⟩
  · exact ⟨.restore, found h, .inr (.inr rfl)⟩

theorem lookupFunc_secondary {b : UInt8} {buf : List UInt8} (hb : isPrimary b = false)
    {r : DwCfaOp × List UInt8} (h : lookupFunc b buf = .ok r) :
    DwCfaOp.ofByte b = some r.1 ∧ r.2 = buf := by
  simp only [lookupFunc, hb, Bool.false_eq_true, if_false] at h
  split at h
  · cases h
    exact ⟨‹_›, rfl⟩
  · cases h

/-- The operand byte that was put back is read again. -/
theorem fnlookup_primary_consumes {op : DwCfaOp} {frame frame' : FrameContext}
    (hop : op = .advanceLoc ∨ op = .offset ∨ op = .restore)
    (h : fnlookup op frame = .ok frame') : frame'.buf.length < frame.buf.length := by
  obtain rfl | rfl | rfl := hop
  · obtain ⟨a, ha, h⟩ := bind_eq_ok.mp h
    cases h
    exact readByte_length ha
  · obtain ⟨a, ha, h⟩ := bind_eq_ok.mp h
    obtain ⟨b, hb, h⟩ := bind_eq_ok.mp h
    cases h
    exact Nat.lt_of_le_of_lt (decodeUnsigned_length hb) (readByte_length ha)
  · obtain ⟨a, ha, h⟩ := bind_eq_ok.mp h
    cases h
    exact readByte_length ha

/-- Every instruction consumes at least its opcode, so the loops of the
interpreter end with the buffer and not with their fuel. -/
theorem executeDwarfInstruction_consumes {frame frame' : FrameContext}
    (h : executeDwarfInstruction frame = .ok frame') :
    frame'.setting = frame.setting ∧ frame'.buf.length < frame.buf.length := by
  cases hbuf : frame.buf with
  | nil => simp [executeDwarfInstruction, hbuf] at h
  | cons b buf =>
      simp only [executeDwarfInstruction, hbuf] at h
      split at h
      · cases h
        exact ⟨rfl, Nat.lt_succ_self _⟩
      obtain ⟨⟨op, buf'⟩, hlookup, h⟩ := bind_eq_ok.mp h
      have hkept := fnlookup_setting h
      cases hb : isPrimary b with
      | true =>
          obtain ⟨op', hop, hcases⟩ := lookupFunc_primary buf hb
          rw [hop] at hlookup
          cases hlookup
          exact ⟨hkept.1, fnlookup_primary_consumes hcases h⟩
      | false =>
          obtain ⟨-, rfl⟩ := lookupFunc_secondary hb hlookup
          exact ⟨hkept.1, Nat.lt_succ_of_le hkept.2⟩

/-! ## The panics of the interpreter

The interpreter has no table to write to. Each reader panics in its own way, and a
handler only through its readers. -/

theorem readByte_ne_tableIndex (buf : List UInt8) :
    readByte buf ≠ .error .tableIndexOutOfRange := by
  cases buf <;> simp [readByte]

theorem decodeGroups_ne_tableIndex (result : UInt64) (shift : Nat) (buf : List UInt8) :
    decodeGroups result shift buf ≠ .error .tableIndexOutOfRange := by
  induction buf generalizing result shift with
  | nil => simp [decodeGroups]
  | cons b buf ih =>
      rw [decodeGroups]
      split
      · simp
      · exact ih _ _

theorem decodeUnsigned_ne_tableIndex (buf : List UInt8) :
    decodeUnsigned buf ≠ .error .tableIndexOutOfRange := by
  rw [decodeUnsigned]
  split
  · simp
  · exact bind_ne_error (decodeGroups_ne_tableIndex 0 0 buf) fun _ _ h => by cases h

theorem decodeSigned_ne_tableIndex (buf : List UInt8) :
    decodeSigned buf ≠ .error .tableIndexOutOfRange := by
  rw [decodeSigned]
  split
  · simp
  · exact bind_ne_error (decodeGroups_ne_tableIndex 0 0 buf) fun _ _ h => by cases h

theorem binaryRead_ne_tableIndex (n : Nat) (order : Option ByteOrder) (buf : List UInt8) :
    binaryRead n order buf ≠ .error .tableIndexOutOfRange := by
  rw [binaryRead]
  split
  · simp
  · cases order <;> simp

theorem next_ne_tableIndex (l : UInt64) (buf : List UInt8) :
    next l buf ≠ .error .tableIndexOutOfRange := by
  rw [next]
  split <;> simp

theorem fnlookup_ne_tableIndex (op : DwCfaOp) (frame : FrameContext) :
    fnlookup op frame ≠ .error .tableIndexOutOfRange := by
  have last {frame' : FrameContext} :
      (pure frame' : Except Panic FrameContext) ≠ .error .tableIndexOutOfRange := by
    intro h
    cases h
  cases op with
  | advanceLoc | restore | advanceLoc1 =>
      exact bind_ne_error (readByte_ne_tableIndex _) fun _ _ => last
  | offset =>
      exact bind_ne_error (readByte_ne_tableIndex _) fun _ _ =>
        bind_ne_error (decodeUnsigned_ne_tableIndex _) fun _ _ => last
  | setLoc | advanceLoc2 | advanceLoc4 =>
      exact bind_ne_error (binaryRead_ne_tableIndex _ _ _) fun _ _ => last
  | undefined | sameValue | restoreExtended | defCfaRegister | defCfaOffset =>
      exact bind_ne_error (decodeUnsigned_ne_tableIndex _) fun _ _ => last
  | offsetExtended | register | defCfa | valOffset =>
      exact bind_ne_error (decodeUnsigned_ne_tableIndex _) fun _ _ =>
        bind_ne_error (decodeUnsigned_ne_tableIndex _) fun _ _ => last
  | offsetExtendedSf | defCfaSf | valOffsetSf =>
      exact bind_ne_error (decodeUnsigned_ne_tableIndex _) fun _ _ =>
        bind_ne_error (decodeSigned_ne_tableIndex _) fun _ _ => last
  | defCfaOffsetSf | gnuArgsSize =>
      exact bind_ne_error (decodeSigned_ne_tableIndex _) fun _ _ => last
  | defCfaExpression =>
      exact bind_ne_error (decodeUnsigned_ne_tableIndex _) fun _ _ =>
        bind_ne_error (next_ne_tableIndex _ _) fun _ _ => last
  | expression | valExpression =>
      exact bind_ne_error (decodeUnsigned_ne_tableIndex _) fun _ _ =>
        bind_ne_error (decodeUnsigned_ne_tableIndex _) fun _ _ =>
          bind_ne_error (next_ne_tableIndex _ _) fun _ _ => last
  | rememberState | loUser | hiUser => exact last
  | restoreState =>
      change restorestate frame ≠ _
      rw [restorestate]
      split <;> simp

theorem executeDwarfInstruction_ne_tableIndex (frame : FrameContext) :
    executeDwarfInstruction frame ≠ .error .tableIndexOutOfRange := by
  rw [executeDwarfInstruction]
  split
  · simp
  split
  · simp
  · refine bind_ne_error ?_ fun _ _ => fnlookup_ne_tableIndex _ _
    rw [lookupFunc]
    split <;> simp

theorem executeDwarfProgram_ne_tableIndex (fuel : Nat) (frame : FrameContext) :
    executeDwarfProgram fuel frame ≠ .error .tableIndexOutOfRange := by
  induction fuel generalizing frame with
  | zero => simp [executeDwarfProgram]
  | succ fuel ih =>
      rw [executeDwarfProgram]
      split
      · simp
      · exact bind_ne_error (executeDwarfInstruction_ne_tableIndex frame) fun _ _ => ih _

theorem rowsFrom_ne_tableIndex (fuel : Nat) (frame : FrameContext) (prevLoc : UInt64) :
    rowsFrom fuel frame prevLoc ≠ .error .tableIndexOutOfRange := by
  induction fuel generalizing frame prevLoc with
  | zero => simp [rowsFrom]
  | succ fuel ih =>
      rw [rowsFrom]
      split
      · simp
      refine bind_ne_error (executeDwarfInstruction_ne_tableIndex frame) fun frame' _ => ?_
      split
      · exact bind_ne_error (ih _ _) fun _ _ h => by cases h
      · exact ih _ _

theorem fdeRows_ne_tableIndex (fde : FrameDescriptionEntry) (order : ByteOrder) :
    fdeRows fde order ≠ .error .tableIndexOutOfRange := by
  refine bind_ne_error ?_ fun frame _ => ?_
  · exact bind_ne_error (executeDwarfProgram_ne_tableIndex _ _) fun _ _ h => by cases h
  · exact bind_ne_error (rowsFrom_ne_tableIndex _ _ _) fun _ _ h => by cases h

end XMonitor.Frame
