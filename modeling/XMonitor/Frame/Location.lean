import XMonitor.Frame.Program

/-!
# The locations of the rows

The first row of an FDE starts where the FDE starts. If its instructions only
advance the location, each further row starts above the one before.

`OnlyAdvances` is read off the instructions that the run comes to: none of them is
`DW_CFA_set_loc`, and no advance, taken as an exact product, leaves the range of a
64-bit address.
-/

namespace XMonitor.Frame

open ExceptRules

/-- The factor by which a handler advances the location, none for `DW_CFA_set_loc`. -/
def locationOperand (op : DwCfaOp) (frame : FrameContext) : Option Nat :=
  match op with
  | .setLoc => none
  | .advanceLoc => some (frame.buf.headD 0 &&& low6Offset).toNat
  | .advanceLoc1 => some (frame.buf.headD 0).toNat
  | .advanceLoc2 => ((binaryRead 2 frame.order frame.buf).toOption.map fun x => x.1.toNat)
  | .advanceLoc4 => ((binaryRead 4 frame.order frame.buf).toOption.map fun x => x.1.toNat)
  | _ => some 0

/-- The instruction at the head of the buffer is not `DW_CFA_set_loc` and moves the
location without wrapping. -/
def StepAdvances (frame : FrameContext) : Prop :=
  ∀ instruction buf op buf', frame.buf = instruction :: buf → instruction ≠ 0 →
    lookupFunc instruction buf = .ok (op, buf') →
    ∃ delta, locationOperand op { frame with buf := buf' } = some delta ∧
      frame.loc.toNat + delta * frame.codeAlignment.toNat < 2 ^ 64

/-- Every instruction of the run only advances the location. -/
def OnlyAdvances : Nat → FrameContext → Prop
  | 0, _ => True
  | fuel + 1, frame =>
    StepAdvances frame ∧
      ∀ frame', executeDwarfInstruction frame = .ok frame' → OnlyAdvances fuel frame'

/-- The instructions of the FDE only advance the location. -/
def FrameDescriptionEntry.OnlyAdvances (fde : FrameDescriptionEntry) (order : ByteOrder) : Prop :=
  ∀ frame, startFDE fde order = .ok frame →
    Frame.OnlyAdvances fde.instructions.length frame

theorem locationOperand_lt {op : DwCfaOp} {frame : FrameContext} {delta : Nat}
    (h : locationOperand op frame = some delta) : delta < 2 ^ 64 := by
  have byte (b : UInt8) : b.toNat < 2 ^ 64 := Nat.lt_trans b.toNat_lt (by decide)
  have wide (n : Nat) (h : (binaryRead n frame.order frame.buf).toOption.map
      (fun x => x.1.toNat) = some delta) : delta < 2 ^ 64 := by
    obtain ⟨x, -, rfl⟩ := Option.map_eq_some_iff.mp h
    exact x.1.toNat_lt
  cases op with
  | setLoc => cases h
  | advanceLoc | advanceLoc1 =>
      obtain rfl := Option.some.inj h
      exact byte _
  | advanceLoc2 => exact wide 2 h
  | advanceLoc4 => exact wide 4 h
  | _ =>
      obtain rfl := Option.some.inj h
      decide

/-- Handlers that do not read a location operand leave the location alone; the
others add their operand times the code alignment. -/
theorem fnlookup_loc {op : DwCfaOp} {frame frame' : FrameContext} {delta : Nat}
    (hdelta : locationOperand op frame = some delta) (h : fnlookup op frame = .ok frame') :
    frame'.loc = frame.loc + UInt64.ofNat delta * frame.codeAlignment := by
  have stay : frame.loc = frame.loc + UInt64.ofNat 0 * frame.codeAlignment := by simp
  cases op with
  | setLoc => cases hdelta
  | advanceLoc | advanceLoc1 =>
      obtain rfl := Option.some.inj hdelta
      obtain ⟨a, ha, h⟩ := bind_eq_ok.mp h
      cases h
      cases hbuf : frame.buf with
      | nil => simp [readByte, hbuf] at ha
      | cons b buf =>
          simp only [readByte, hbuf, Except.ok.injEq] at ha
          subst ha
          simp
  | advanceLoc2 | advanceLoc4 =>
      obtain ⟨a, ha, h⟩ := bind_eq_ok.mp h
      simp only [locationOperand, ha, Except.toOption, Option.map_some, Option.some.injEq] at hdelta
      cases h
      subst hdelta
      simp
  | undefined | sameValue | restoreExtended | defCfaRegister | defCfaOffset | defCfaOffsetSf
  | gnuArgsSize | restore =>
      obtain rfl := Option.some.inj hdelta
      obtain ⟨a, -, h⟩ := bind_eq_ok.mp h
      cases h
      exact stay
  | offset | offsetExtended | register | defCfa | valOffset | offsetExtendedSf | defCfaSf
  | valOffsetSf | defCfaExpression =>
      obtain rfl := Option.some.inj hdelta
      obtain ⟨a, -, h⟩ := bind_eq_ok.mp h
      obtain ⟨b, -, h⟩ := bind_eq_ok.mp h
      cases h
      exact stay
  | expression | valExpression =>
      obtain rfl := Option.some.inj hdelta
      obtain ⟨a, -, h⟩ := bind_eq_ok.mp h
      obtain ⟨b, -, h⟩ := bind_eq_ok.mp h
      obtain ⟨c, -, h⟩ := bind_eq_ok.mp h
      cases h
      exact stay
  | rememberState | loUser | hiUser =>
      obtain rfl := Option.some.inj hdelta
      cases h
      exact stay
  | restoreState =>
      obtain rfl := Option.some.inj hdelta
      change restorestate frame = .ok frame' at h
      rw [restorestate] at h
      split at h
      · cases h
      · cases h
        exact stay

theorem loc_le_of_advance {loc codeAlignment : UInt64} {delta : Nat} (hdelta : delta < 2 ^ 64)
    (h : loc.toNat + delta * codeAlignment.toNat < 2 ^ 64) :
    loc ≤ loc + UInt64.ofNat delta * codeAlignment := by
  rw [UInt64.le_iff_toNat_le, UInt64.toNat_add, UInt64.toNat_mul,
    UInt64.toNat_ofNat_of_lt' hdelta, Nat.mod_eq_of_lt (by omega : delta * _ < 2 ^ 64),
    Nat.mod_eq_of_lt h]
  exact Nat.le_add_right _ _

theorem executeDwarfInstruction_loc {frame frame' : FrameContext} (hstep : StepAdvances frame)
    (h : executeDwarfInstruction frame = .ok frame') : frame.loc ≤ frame'.loc := by
  cases hbuf : frame.buf with
  | nil => simp [executeDwarfInstruction, hbuf] at h
  | cons instruction buf =>
      simp only [executeDwarfInstruction, hbuf] at h
      split at h
      · cases h
        exact UInt64.le_refl _
      · obtain ⟨⟨op, buf'⟩, hlookup, h⟩ := bind_eq_ok.mp h
        obtain ⟨delta, hdelta, hwrap⟩ := hstep instruction buf op buf' hbuf ‹_› hlookup
        rw [fnlookup_loc hdelta h]
        exact loc_le_of_advance (locationOperand_lt hdelta) hwrap

/-! ## Rows of a run -/

/-- The row that is being built when the loop starts is the first one delivered. -/
theorem rowsFrom_first {fuel : Nat} {frame last : FrameContext} {prevLoc lastLoc : UInt64}
    {rows : List ReceivedRow} (h : rowsFrom fuel frame prevLoc = .ok (last, lastLoc, rows)) :
    (rows ++ [last.row lastLoc]).head?.map ReceivedRow.loc = some prevLoc := by
  induction fuel generalizing frame prevLoc rows with
  | zero =>
      cases h
      rfl
  | succ fuel ih =>
      rw [rowsFrom] at h
      split at h
      · cases h
        rfl
      obtain ⟨frame', hstep, h⟩ := bind_eq_ok.mp h
      split at h
      · obtain ⟨x, hrest, h⟩ := bind_eq_ok.mp h
        cases h
        rfl
      · exact ih h

theorem fdeRows_first {fde : FrameDescriptionEntry} {order : ByteOrder} {rows : List ReceivedRow}
    (h : fdeRows fde order = .ok rows) : rows.head?.map ReceivedRow.loc = some fde.begin_ := by
  obtain ⟨frame, hstart, h⟩ := bind_eq_ok.mp h
  obtain ⟨⟨last, lastLoc, front⟩, hrun, h⟩ := bind_eq_ok.mp h
  obtain ⟨cie, -, hframe⟩ := bind_eq_ok.mp hstart
  cases h
  cases hframe
  exact rowsFrom_first hrun

/-- No step of the run moves the location down. -/
def NeverDown : Nat → FrameContext → Prop
  | 0, _ => True
  | fuel + 1, frame =>
    ∀ frame', executeDwarfInstruction frame = .ok frame' →
      frame.loc ≤ frame'.loc ∧ NeverDown fuel frame'

theorem OnlyAdvances.neverDown {fuel : Nat} {frame : FrameContext}
    (h : OnlyAdvances fuel frame) : NeverDown fuel frame := by
  induction fuel generalizing frame with
  | zero => trivial
  | succ fuel ih =>
      intro frame' hstep
      exact ⟨executeDwarfInstruction_loc h.1 hstep, ih (h.2 frame' hstep)⟩

/-- From a row that starts at the current location, the loop only goes up. -/
theorem rowsFrom_increasing {fuel : Nat} {frame last : FrameContext} {lastLoc : UInt64}
    {rows : List ReceivedRow} (hadv : NeverDown fuel frame)
    (h : rowsFrom fuel frame frame.loc = .ok (last, lastLoc, rows)) :
    (rows ++ [last.row lastLoc]).Pairwise (fun r r' => r.loc < r'.loc) ∧
      ∀ r ∈ rows ++ [last.row lastLoc], frame.loc ≤ r.loc := by
  induction fuel generalizing frame rows with
  | zero =>
      cases h
      simp [FrameContext.row]
  | succ fuel ih =>
      rw [rowsFrom] at h
      split at h
      · cases h
        simp [FrameContext.row]
      obtain ⟨frame', hstep, h⟩ := bind_eq_ok.mp h
      obtain ⟨hle, hadv'⟩ := hadv frame' hstep
      split at h
      · rename_i hne
        obtain ⟨⟨last', lastLoc', rows'⟩, hrest, h⟩ := bind_eq_ok.mp h
        cases h
        obtain ⟨hpair, hlow⟩ := ih hadv' hrest
        have hlt : frame.loc < frame'.loc := UInt64.lt_of_le_of_ne hle (Ne.symm hne)
        refine ⟨?_, ?_⟩
        · rw [List.cons_append]
          refine List.pairwise_cons.mpr ⟨fun r hr => ?_, hpair⟩
          exact UInt64.lt_of_lt_of_le hlt (hlow r hr)
        · intro r hr
          rw [List.cons_append] at hr
          obtain rfl | hr := List.mem_cons.mp hr
          · exact UInt64.le_refl _
          · exact UInt64.le_trans hle (hlow r hr)
      · rename_i heq
        have hloc : frame'.loc = frame.loc := Classical.not_not.mp heq
        rw [← hloc] at h ⊢
        exact ih hadv' h

theorem fdeRows_increasing {fde : FrameDescriptionEntry} {order : ByteOrder}
    {rows : List ReceivedRow} (hadv : fde.OnlyAdvances order) (h : fdeRows fde order = .ok rows) :
    rows.Pairwise fun r r' => r.loc < r'.loc := by
  obtain ⟨frame, hstart, h⟩ := bind_eq_ok.mp h
  obtain ⟨⟨last, lastLoc, front⟩, hrun, h⟩ := bind_eq_ok.mp h
  cases h
  exact (rowsFrom_increasing (hadv frame hstart).neverDown hrun).1

end XMonitor.Frame
