import XMonitor.Frame.Program

/-!
# Which programs the interpreter runs to the end

A malformed program makes the interpreter panic, and nothing above it turns the panic into
an error. Whether it panics can be read off the bytes: `scan` skips the operands of each
instruction and counts the remembered states, but keeps no row. The interpreter delivers the
rows of an FDE exactly if the scan of its two programs gets through.
-/

namespace XMonitor.Frame

open ExceptRules

/-! ## Skipping over a program -/

inductive Operand
  /-- One byte that has to be there. -/
  | byte
  /-- A number of bytes, read with the byte order of the context. -/
  | fixed (width : Nat)
  | leb128
  /-- A length and as many bytes. -/
  | block
  /-- A byte that may be missing. -/
  | skipped
deriving DecidableEq, Repr

/-- The operands of an opcode, in their order. The three primary opcodes read the opcode
itself as a byte. -/
def DwCfaOp.operands : DwCfaOp → List Operand
  | .advanceLoc | .restore | .advanceLoc1 => [.byte]
  | .offset => [.byte, .leb128]
  | .setLoc => [.fixed 8]
  | .advanceLoc2 => [.fixed 2]
  | .advanceLoc4 => [.fixed 4]
  | .undefined | .sameValue | .restoreExtended | .defCfaRegister | .defCfaOffset
  | .defCfaOffsetSf | .gnuArgsSize => [.leb128]
  | .offsetExtended | .register | .defCfa | .valOffset | .offsetExtendedSf | .defCfaSf
  | .valOffsetSf => [.leb128, .leb128]
  | .defCfaExpression => [.block]
  | .expression | .valExpression => [.leb128, .block]
  | .rememberState | .restoreState => []
  | .loUser | .hiUser => [.skipped]

/-- The bytes behind the first one whose high bit is clear. -/
def skipLeb128 : List UInt8 → Option (List UInt8)
  | [] => none
  | b :: buf => if b &&& 0x80 = 0 then some buf else skipLeb128 buf

/-- The bytes behind an operand. At the end of the buffer most operands may be missing; a
fixed number of bytes that is there needs a byte order. -/
def Operand.skip (ordered : Bool) : Operand → List UInt8 → Option (List UInt8)
  | .byte, buf => if buf = [] then none else some buf.tail
  | .fixed width, buf =>
    if buf.length < width then some [] else if ordered then some (buf.drop width) else none
  | .leb128, buf => if buf = [] then some [] else skipLeb128 buf
  | .block, buf => do
    let (l, buf) ← (decodeUnsigned buf).toOption
    if l.toNat < 2 ^ 63 then some (buf.drop l.toNat) else none
  | .skipped, buf => some (buf.drop 1)

def skipOperands (ordered : Bool) : List Operand → List UInt8 → Option (List UInt8)
  | [], buf => some buf
  | operand :: operands, buf => (operand.skip ordered buf).bind (skipOperands ordered operands)

/-- The number of remembered states behind an opcode. -/
def DwCfaOp.remembered : DwCfaOp → Nat → Option Nat
  | .rememberState, n => some (n + 1)
  | .restoreState, 0 => none
  | .restoreState, n + 1 => some n
  | _, n => some n

/-- The buffer and the number of remembered states behind an instruction. -/
def scanInstruction (ordered : Bool) (buf : List UInt8) (n : Nat) : Option (List UInt8 × Nat) :=
  match buf with
  | [] => none
  | instruction :: buf =>
    if instruction = 0 then some (buf, n)
    else do
      let (op, buf) ← (lookupFunc instruction buf).toOption
      let n ← op.remembered n
      let buf ← skipOperands ordered op.operands buf
      return (buf, n)

/-- The number of remembered states behind a program. -/
def scan (ordered : Bool) : Nat → List UInt8 → Nat → Option Nat
  | 0, _, n => some n
  | fuel + 1, buf, n =>
    if buf = [] then some n
    else do
      let (buf, n) ← scanInstruction ordered buf n
      scan ordered fuel buf n

/-- Both programs of an FDE can be scanned. The byte order is not known to that of the CIE,
and the states that it remembers are still there in that of the FDE. -/
def FrameDescriptionEntry.WellFormed (fde : FrameDescriptionEntry) : Prop :=
  ∃ n, scan false fde.cie.initialInstructions.length fde.cie.initialInstructions 0 = some n ∧
    (scan true fde.instructions.length fde.instructions n).isSome

/-! ## The readers skip their operands -/

theorem readByte_skip (ordered : Bool) (buf : List UInt8) :
    (readByte buf).toOption.map Prod.snd = Operand.byte.skip ordered buf := by
  cases buf <;> rfl

theorem decodeGroups_skip (result : UInt64) (shift : Nat) (buf : List UInt8) :
    (decodeGroups result shift buf).toOption.map (fun r => r.2.2.2) = skipLeb128 buf := by
  induction buf generalizing result shift with
  | nil => rfl
  | cons b buf ih =>
      rw [decodeGroups, skipLeb128]
      split
      · rfl
      · exact ih _ _

theorem decodeUnsigned_skip (ordered : Bool) (buf : List UInt8) :
    (decodeUnsigned buf).toOption.map Prod.snd = Operand.leb128.skip ordered buf := by
  rw [decodeUnsigned, Operand.skip]
  split
  · rfl
  · rw [← decodeGroups_skip 0 0 buf]
    cases decodeGroups 0 0 buf <;> rfl

theorem decodeSigned_skip (ordered : Bool) (buf : List UInt8) :
    (decodeSigned buf).toOption.map Prod.snd = Operand.leb128.skip ordered buf := by
  rw [decodeSigned, Operand.skip]
  split
  · rfl
  · rw [← decodeGroups_skip 0 0 buf]
    cases decodeGroups 0 0 buf <;> rfl

theorem binaryRead_skip (width : Nat) (order : Option ByteOrder) (buf : List UInt8) :
    (binaryRead width order buf).toOption.map Prod.snd =
      (Operand.fixed width).skip order.isSome buf := by
  rw [binaryRead, Operand.skip]
  split
  · rfl
  · cases order <;> rfl

theorem next_skip (l : UInt64) (buf : List UInt8) :
    (next l buf).toOption.map Prod.snd =
      if l.toNat < 2 ^ 63 then some (buf.drop l.toNat) else none := by
  have hneg : l.toInt64 < 0 ↔ ¬ l.toNat < 2 ^ 63 := by
    rw [Int64.lt_iff_toInt_lt]
    change l.toBitVec.toInt < 0 ↔ _
    rw [BitVec.toInt_neg_iff, UInt64.toNat_toBitVec]
    omega
  rw [next]
  by_cases hlong : l.toNat < 2 ^ 63
  · rw [if_neg fun h => hneg.mp h hlong, if_pos hlong]
    rfl
  · rw [if_pos (hneg.mpr hlong), if_neg hlong]
    rfl

/-! ## The handlers skip theirs -/

/-- The part of a context that decides whether the run goes on. -/
def FrameContext.shape (frame : FrameContext) : List UInt8 × Nat :=
  (frame.buf, frame.rememberedState.length)

section

variable {α : Type} {x : Except Panic (α × List UInt8)}
  {f : α × List UInt8 → Except Panic FrameContext} {ordered : Bool} {operands : List Operand}
  {buf : List UInt8} {n : Nat}

theorem shape_bind {operand : Operand} (hx : x.toOption.map Prod.snd = operand.skip ordered buf)
    (hf : ∀ a rest, (f (a, rest)).toOption.map FrameContext.shape =
      (skipOperands ordered operands rest).map fun buf => (buf, n)) :
    (x >>= f).toOption.map FrameContext.shape =
      (skipOperands ordered (operand :: operands) buf).map fun buf => (buf, n) := by
  rw [skipOperands, ← hx]
  cases x with
  | error e => rfl
  | ok a => exact hf a.1 a.2

theorem shape_block {g : List UInt8 × List UInt8 → Except Panic FrameContext}
    (hg : ∀ expr rest, (g (expr, rest)).toOption.map FrameContext.shape =
      (skipOperands ordered operands rest).map fun buf => (buf, n)) :
    (decodeUnsigned buf >>= fun x => next x.1 x.2 >>= g).toOption.map FrameContext.shape =
      (skipOperands ordered (.block :: operands) buf).map fun buf => (buf, n) := by
  rw [skipOperands, Operand.skip]
  cases decodeUnsigned buf with
  | error e => rfl
  | ok l =>
      have hnext := next_skip l.1 l.2
      change (next l.1 l.2 >>= g).toOption.map FrameContext.shape =
        ((if l.1.toNat < 2 ^ 63 then some (l.2.drop l.1.toNat) else none).bind
          (skipOperands ordered operands)).map fun buf => (buf, n)
      rw [← hnext]
      cases next l.1 l.2 with
      | error e => rfl
      | ok y => exact hg y.1 y.2

end

theorem fnlookup_shape (op : DwCfaOp) (frame : FrameContext) :
    (fnlookup op frame).toOption.map FrameContext.shape =
      (op.remembered frame.rememberedState.length).bind fun n =>
        (skipOperands frame.order.isSome op.operands frame.buf).map fun buf => (buf, n) := by
  cases op with
  | advanceLoc | restore | advanceLoc1 =>
      exact shape_bind (readByte_skip _ _) fun _ _ => rfl
  | offset =>
      exact shape_bind (readByte_skip _ _) fun _ _ =>
        shape_bind (decodeUnsigned_skip _ _) fun _ _ => rfl
  | setLoc | advanceLoc2 | advanceLoc4 =>
      exact shape_bind (binaryRead_skip _ _ _) fun _ _ => rfl
  | undefined | sameValue | restoreExtended | defCfaRegister | defCfaOffset =>
      exact shape_bind (decodeUnsigned_skip _ _) fun _ _ => rfl
  | offsetExtended | register | defCfa | valOffset =>
      exact shape_bind (decodeUnsigned_skip _ _) fun _ _ =>
        shape_bind (decodeUnsigned_skip _ _) fun _ _ => rfl
  | offsetExtendedSf | defCfaSf | valOffsetSf =>
      exact shape_bind (decodeUnsigned_skip _ _) fun _ _ =>
        shape_bind (decodeSigned_skip _ _) fun _ _ => rfl
  | defCfaOffsetSf | gnuArgsSize =>
      exact shape_bind (decodeSigned_skip _ _) fun _ _ => rfl
  | defCfaExpression => exact shape_block fun _ _ => rfl
  | expression | valExpression =>
      exact shape_bind (decodeUnsigned_skip _ _) fun _ _ => shape_block fun _ _ => rfl
  | rememberState => rfl
  | restoreState =>
      change (restorestate frame).toOption.map FrameContext.shape = _
      rw [restorestate]
      cases hstack : frame.rememberedState with
      | nil => rfl
      | cons restored rest => rfl
  | loUser | hiUser => rfl

theorem executeDwarfInstruction_shape (frame : FrameContext) :
    (executeDwarfInstruction frame).toOption.map FrameContext.shape =
      scanInstruction frame.order.isSome frame.buf frame.rememberedState.length := by
  rw [executeDwarfInstruction]
  cases hbuf : frame.buf with
  | nil => rfl
  | cons instruction buf =>
      simp only [scanInstruction]
      split
      · rfl
      · cases lookupFunc instruction buf with
        | error e => rfl
        | ok found =>
            refine (fnlookup_shape found.1 { frame with buf := found.2 }).trans ?_
            change (found.1.remembered frame.rememberedState.length).bind _ =
              (found.1.remembered frame.rememberedState.length).bind _
            congr 1
            funext n
            cases skipOperands frame.order.isSome found.1.operands found.2 <;> rfl

/-! ## Whole programs -/

/-- One step of a run and of the scan. -/
theorem scanInstruction_of_execute {frame frame' : FrameContext}
    (h : executeDwarfInstruction frame = .ok frame') :
    scanInstruction frame.order.isSome frame.buf frame.rememberedState.length =
        some (frame'.buf, frame'.rememberedState.length) ∧
      frame'.order = frame.order := by
  refine ⟨?_, congrArg Setting.order (executeDwarfInstruction_consumes h).1⟩
  rw [← executeDwarfInstruction_shape, h]
  rfl

theorem scanInstruction_of_panic {frame : FrameContext} {e : Panic}
    (h : executeDwarfInstruction frame = .error e) :
    scanInstruction frame.order.isSome frame.buf frame.rememberedState.length = none := by
  rw [← executeDwarfInstruction_shape, h]
  rfl

theorem executeDwarfProgram_scan (fuel : Nat) (frame : FrameContext) :
    (executeDwarfProgram fuel frame).toOption.map (fun last => last.rememberedState.length) =
      scan frame.order.isSome fuel frame.buf frame.rememberedState.length := by
  induction fuel generalizing frame with
  | zero => rfl
  | succ fuel ih =>
      rw [executeDwarfProgram, scan]
      split
      · rfl
      · cases hstep : executeDwarfInstruction frame with
        | error e =>
            rw [scanInstruction_of_panic hstep]
            rfl
        | ok frame' =>
            obtain ⟨hscan, horder⟩ := scanInstruction_of_execute hstep
            rw [hscan, ok_bind, ih frame', horder]
            rfl

theorem rowsFrom_scan (fuel : Nat) (frame : FrameContext) (prevLoc : UInt64) :
    (rowsFrom fuel frame prevLoc).toOption.map (fun run => run.1.rememberedState.length) =
      scan frame.order.isSome fuel frame.buf frame.rememberedState.length := by
  induction fuel generalizing frame prevLoc with
  | zero => rfl
  | succ fuel ih =>
      rw [rowsFrom, scan]
      split
      · rfl
      · cases hstep : executeDwarfInstruction frame with
        | error e =>
            rw [scanInstruction_of_panic hstep]
            rfl
        | ok frame' =>
            obtain ⟨hscan, horder⟩ := scanInstruction_of_execute hstep
            rw [hscan, ok_bind]
            split
            · refine Eq.trans ?_ ((ih frame' frame'.loc).trans (by rw [horder]; rfl))
              cases rowsFrom fuel frame' frame'.loc <;> rfl
            · rw [ih frame' prevLoc, horder]
              rfl

/-! ## The loops end with their buffers -/

theorem executeDwarfProgram_buf {fuel : Nat} {frame frame' : FrameContext}
    (hfuel : frame.buf.length ≤ fuel) (h : executeDwarfProgram fuel frame = .ok frame') :
    frame'.buf = [] := by
  induction fuel generalizing frame with
  | zero =>
      cases h
      exact List.length_eq_zero_iff.mp (Nat.le_zero.mp hfuel)
  | succ fuel ih =>
      rw [executeDwarfProgram] at h
      split at h
      · cases h
        assumption
      · obtain ⟨next, hstep, h⟩ := bind_eq_ok.mp h
        have hless := (executeDwarfInstruction_consumes hstep).2
        exact ih (by omega) h

theorem rowsFrom_buf {fuel : Nat} {frame last : FrameContext} {prevLoc lastLoc : UInt64}
    {rows : List ReceivedRow} (hfuel : frame.buf.length ≤ fuel)
    (h : rowsFrom fuel frame prevLoc = .ok (last, lastLoc, rows)) : last.buf = [] := by
  induction fuel generalizing frame prevLoc rows with
  | zero =>
      cases h
      exact List.length_eq_zero_iff.mp (Nat.le_zero.mp hfuel)
  | succ fuel ih =>
      rw [rowsFrom] at h
      split at h
      · cases h
        assumption
      · obtain ⟨next, hstep, h⟩ := bind_eq_ok.mp h
        have hless := (executeDwarfInstruction_consumes hstep).2
        split at h
        · obtain ⟨run, hrun, h⟩ := bind_eq_ok.mp h
          cases h
          exact ih (by omega) hrun
        · exact ih (by omega) h

/-- The FDE is run to the end of both its programs and all of its rows are delivered. -/
def Delivers (fde : FrameDescriptionEntry) (order : ByteOrder) : Prop :=
  ∃ cie last lastLoc rows, executeCIEInstructions fde.cie = .ok cie ∧ cie.buf = [] ∧
    rowsFrom fde.instructions.length
        { cie with order := some order, loc := fde.begin_, buf := fde.instructions } fde.begin_ =
      .ok (last, lastLoc, rows) ∧
    last.buf = [] ∧ fdeRows fde order = .ok (rows ++ [last.row lastLoc])

theorem executeCIEInstructions_scan (cie : CommonInformationEntry) :
    (executeCIEInstructions cie).toOption.map (fun frame => frame.rememberedState.length) =
      scan false cie.initialInstructions.length cie.initialInstructions 0 := by
  rw [executeCIEInstructions, executeDwarfProgram_scan]
  rfl

theorem fdeRows_scan (fde : FrameDescriptionEntry) (order : ByteOrder) :
    (∃ rows, fdeRows fde order = .ok rows) ↔ fde.WellFormed := by
  rw [FrameDescriptionEntry.WellFormed, ← executeCIEInstructions_scan, fdeRows, startFDE]
  cases executeCIEInstructions fde.cie with
  | error e =>
      refine iff_of_false ?_ ?_
      · rintro ⟨rows, h⟩
        cases h
      · rintro ⟨n, h, -⟩
        cases h
  | ok cie =>
      let start : FrameContext :=
        { cie with order := some order, loc := fde.begin_, buf := fde.instructions }
      have hrun := rowsFrom_scan fde.instructions.length start start.loc
      change (∃ rows, ((rowsFrom fde.instructions.length start start.loc).bind fun run =>
        .ok (run.2.2 ++ [run.1.row run.2.1])) = .ok rows) ↔
          ∃ n, some cie.rememberedState.length = some n ∧
            (scan true fde.instructions.length fde.instructions n).isSome
      simp only [Option.some.injEq, exists_eq_left']
      rw [show scan true fde.instructions.length fde.instructions cie.rememberedState.length = _
        from hrun.symm]
      cases rowsFrom fde.instructions.length start start.loc with
      | error e =>
          refine iff_of_false ?_ Bool.false_ne_true
          rintro ⟨rows, h⟩
          cases h
      | ok run => exact iff_of_true ⟨_, rfl⟩ rfl

theorem delivers_iff_fdeRows {fde : FrameDescriptionEntry} {order : ByteOrder} :
    Delivers fde order ↔ ∃ rows, fdeRows fde order = .ok rows := by
  constructor
  · rintro ⟨_, _, _, rows, -, -, -, -, h⟩
    exact ⟨_, h⟩
  · rintro ⟨rows, h⟩
    obtain ⟨frame, hstart, hrows⟩ := bind_eq_ok.mp h
    obtain ⟨⟨last, lastLoc, front⟩, hrun, hlast⟩ := bind_eq_ok.mp hrows
    obtain ⟨cie, hcie, hframe⟩ := bind_eq_ok.mp hstart
    cases hframe
    cases hlast
    refine ⟨cie, last, lastLoc, front, hcie, ?_, hrun, ?_, h⟩
    · rw [executeCIEInstructions] at hcie
      refine executeDwarfProgram_buf ?_ hcie
      exact Nat.le_refl _
    · refine rowsFrom_buf ?_ hrun
      exact Nat.le_refl _

end XMonitor.Frame
