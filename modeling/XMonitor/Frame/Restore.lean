import XMonitor.Frame.Refinement

/-!
# The rule that a restore gives back

`DW_CFA_restore` and `DW_CFA_restore_extended` put the rule back that the CIE has left for a
register. The interpreter looks it up in `initialRegs`, which is made empty when the CIE
starts and never filled, so that every restored register becomes undefined. That is right
exactly for the registers that the CIE leaves undefined.
-/

namespace XMonitor.Frame

open ExceptRules

/-- The contexts in which an instruction of the FDE is executed, or the last one has been. -/
inductive ReachedInFDE (fde : FrameDescriptionEntry) (order : ByteOrder) : FrameContext → Prop
  | start {frame : FrameContext} (h : startFDE fde order = .ok frame) : ReachedInFDE fde order frame
  | step {frame frame' : FrameContext} (reached : ReachedInFDE fde order frame)
      (h : executeDwarfInstruction frame = .ok frame') : ReachedInFDE fde order frame'

/-- The next instruction restores a register. -/
inductive NextRestores : List UInt8 → UInt64 → Prop
  | restore {b : UInt8} (buf : List UInt8) (h : b &&& 0xc0 = 0xc0) :
      NextRestores (b :: buf) (b &&& low6Offset).toUInt64
  | restoreExtended {buf rest : List UInt8} {reg : UInt64}
      (h : decodeUnsigned buf = .ok (reg, rest)) : NextRestores (0x06 :: buf) reg

/-- The register has the rule that it has in the context of the CIE, and the rest of the
row is as before. -/
structure GivesBack (cie frame frame' : FrameContext) (reg : UInt64) : Prop where
  rule : (frame'.regs.get reg).rule = (cie.regs.get reg).rule
  offset : (frame'.regs.get reg).offset = (cie.regs.get reg).offset
  others : ∀ reg', reg' ≠ reg → frame'.regs reg' = frame.regs reg'
  cfa : frame'.cfa = frame.cfa

/-! ## Undefined rules have no offset -/

def DWRule.Plain (rule : DWRule) : Prop := rule.rule = .undefined → rule.offset = 0

def Regs.Plain (regs : Regs) : Prop := ∀ reg, (regs.get reg).Plain

theorem Regs.Plain.set {regs : Regs} {rule : DWRule} (h : regs.Plain) (hrule : rule.Plain)
    (reg : UInt64) : (regs.set reg rule).Plain := by
  intro reg'
  rw [Regs.get_set]
  split
  · exact hrule
  · exact h reg'

structure FrameContext.Plain (frame : FrameContext) : Prop where
  regs : frame.regs.Plain
  remembered : ∀ st ∈ frame.rememberedState, st.regs.Plain

theorem restoredRule_plain (frame : FrameContext) (reg : UInt64) :
    (restoredRule frame reg).Plain := by
  rw [restoredRule]
  split
  · intro h
    cases h
  · exact fun _ => rfl

theorem fnlookup_plain {op : DwCfaOp} {frame frame' : FrameContext} (hplain : frame.Plain)
    (h : fnlookup op frame = .ok frame') : frame'.Plain := by
  cases op with
  | advanceLoc | advanceLoc1 | setLoc | advanceLoc2 | advanceLoc4 | defCfaRegister
  | defCfaOffset | defCfaOffsetSf | gnuArgsSize =>
      obtain ⟨a, -, h⟩ := bind_eq_ok.mp h
      cases h
      exact ⟨hplain.regs, hplain.remembered⟩
  | defCfa | defCfaSf | defCfaExpression =>
      obtain ⟨a, -, h⟩ := bind_eq_ok.mp h
      obtain ⟨b, -, h⟩ := bind_eq_ok.mp h
      cases h
      exact ⟨hplain.regs, hplain.remembered⟩
  | restore | restoreExtended =>
      obtain ⟨a, -, h⟩ := bind_eq_ok.mp h
      cases h
      exact ⟨hplain.regs.set (restoredRule_plain _ _) _, hplain.remembered⟩
  | undefined =>
      obtain ⟨a, -, h⟩ := bind_eq_ok.mp h
      cases h
      exact ⟨hplain.regs.set (fun _ => rfl) _, hplain.remembered⟩
  | sameValue =>
      obtain ⟨a, -, h⟩ := bind_eq_ok.mp h
      cases h
      exact ⟨hplain.regs.set (by nofun) _, hplain.remembered⟩
  | offset | offsetExtended | register | valOffset | offsetExtendedSf | valOffsetSf =>
      obtain ⟨a, -, h⟩ := bind_eq_ok.mp h
      obtain ⟨b, -, h⟩ := bind_eq_ok.mp h
      cases h
      exact ⟨hplain.regs.set (by nofun) _, hplain.remembered⟩
  | expression | valExpression =>
      obtain ⟨a, -, h⟩ := bind_eq_ok.mp h
      obtain ⟨b, -, h⟩ := bind_eq_ok.mp h
      obtain ⟨c, -, h⟩ := bind_eq_ok.mp h
      cases h
      exact ⟨hplain.regs.set (by nofun) _, hplain.remembered⟩
  | rememberState =>
      cases h
      exact ⟨hplain.regs, List.forall_mem_cons.mpr ⟨hplain.regs, hplain.remembered⟩⟩
  | restoreState =>
      change restorestate frame = .ok frame' at h
      rw [restorestate] at h
      split at h
      · cases h
      · rename_i hstack
        have hremembered := hplain.remembered
        rw [hstack, List.forall_mem_cons] at hremembered
        cases h
        exact ⟨hremembered.1, hremembered.2⟩
  | loUser | hiUser =>
      cases h
      exact ⟨hplain.regs, hplain.remembered⟩

theorem executeDwarfInstruction_plain {frame frame' : FrameContext} (hplain : frame.Plain)
    (h : executeDwarfInstruction frame = .ok frame') : frame'.Plain := by
  rw [executeDwarfInstruction] at h
  split at h
  · cases h
  split at h
  · cases h
    exact ⟨hplain.regs, hplain.remembered⟩
  · obtain ⟨⟨op, buf⟩, -, h⟩ := bind_eq_ok.mp h
    have hbuf : ({ frame with buf } : FrameContext).Plain := ⟨hplain.regs, hplain.remembered⟩
    exact fnlookup_plain hbuf h

theorem executeDwarfProgram_plain {fuel : Nat} {frame frame' : FrameContext}
    (hplain : frame.Plain) (h : executeDwarfProgram fuel frame = .ok frame') : frame'.Plain := by
  induction fuel generalizing frame with
  | zero =>
      cases h
      exact hplain
  | succ fuel ih =>
      rw [executeDwarfProgram] at h
      split at h
      · cases h
        exact hplain
      · obtain ⟨next, hnext, h⟩ := bind_eq_ok.mp h
        exact ih (executeDwarfInstruction_plain hplain hnext) h

theorem executeCIEInstructions_plain {cie : CommonInformationEntry} {frame : FrameContext}
    (h : executeCIEInstructions cie = .ok frame) : frame.Plain := by
  refine executeDwarfProgram_plain ⟨fun _ _ => rfl, ?_⟩ h
  intro st hst
  cases hst

/-! ## The initial rules are never filled -/

theorem ReachedInFDE.initialRegs {fde : FrameDescriptionEntry} {order : ByteOrder}
    {frame : FrameContext} (h : ReachedInFDE fde order frame) :
    frame.initialRegs = fun _ => none := by
  induction h with
  | start h =>
      obtain ⟨cie, hcie, h⟩ := bind_eq_ok.mp h
      cases h
      exact congrArg Setting.initialRegs (executeDwarfProgram_setting hcie)
  | step _ h ih =>
      exact (congrArg Setting.initialRegs (executeDwarfInstruction_consumes h).1).trans ih

theorem restoredRule_of_initialRegs {frame : FrameContext}
    (h : frame.initialRegs = fun _ => none) (reg : UInt64) : restoredRule frame reg = {} := by
  rw [restoredRule, h]

/-- Both opcodes put the restored rule into the row and leave the rest as it is. -/
theorem execute_of_nextRestores {frame : FrameContext} {bytes : List UInt8} {reg : UInt64}
    (hbuf : frame.buf = bytes) (h : NextRestores bytes reg) :
    ∃ buf, executeDwarfInstruction frame =
      .ok { frame with buf, regs := frame.regs.set reg (restoredRule frame reg) } := by
  cases h with
  | @restore b buf hb =>
      have hne : b ≠ 0 := by
        rintro rfl
        exact absurd hb (by decide)
      refine ⟨buf, ?_⟩
      simp only [executeDwarfInstruction, hbuf]
      rw [if_neg hne, lookupFunc_of_high_bits buf hb (by decide) rfl]
      rfl
  | @restoreExtended buf rest _ hreg =>
      refine ⟨rest, ?_⟩
      simp only [executeDwarfInstruction, hbuf]
      change restoreextended { frame with buf } = _
      rw [restoreextended, hreg]
      rfl

/-- A restore gives back the rule of the CIE exactly if that leaves the register undefined. -/
theorem restore_gives_back_iff (fde : FrameDescriptionEntry) (order : ByteOrder)
    (cie frame : FrameContext) (reg : UInt64) (hcie : executeCIEInstructions fde.cie = .ok cie)
    (hreached : ReachedInFDE fde order frame) (hnext : NextRestores frame.buf reg) :
    ∃ frame', executeDwarfInstruction frame = .ok frame' ∧
      (GivesBack cie frame frame' reg ↔ (cie.regs.get reg).rule = .undefined) := by
  obtain ⟨buf, hstep⟩ := execute_of_nextRestores rfl hnext
  rw [restoredRule_of_initialRegs hreached.initialRegs] at hstep
  refine ⟨_, hstep, fun hback => ?_, fun hundefined => ?_⟩
  · have hrule := hback.rule
    rw [Regs.get_set, if_pos rfl] at hrule
    exact hrule.symm
  · refine ⟨?_, ?_, fun reg' hne => Function.update_of_ne hne _ _, rfl⟩
    · rw [Regs.get_set, if_pos rfl]
      exact hundefined.symm
    · rw [Regs.get_set, if_pos rfl]
      exact ((executeCIEInstructions_plain hcie).regs reg hundefined).symm

/-- A function whose last row restores one register. -/
def restoringFDE (instructions : List UInt8) : FrameDescriptionEntry :=
  { cie := amd64CIE, instructions, begin_ := 0x1000, size := 16 }

def amd64Start (instructions : List UInt8) : FrameContext :=
  { amd64Frame with order := some .littleEndian, loc := 0x1000, buf := instructions }

theorem reached_amd64Start (instructions : List UInt8) :
    ReachedInFDE (restoringFDE instructions) .littleEndian (amd64Start instructions) := by
  refine .start ?_
  rw [startFDE]
  change (executeCIEInstructions amd64CIE).bind _ = _
  rw [executeCIEInstructions_amd64CIE]
  rfl

/-- The frame pointer has no rule in the CIE. -/
theorem restore_framePointer : ∃ frame',
    executeDwarfInstruction (amd64Start [0xc6]) = .ok frame' ∧
      GivesBack amd64Frame (amd64Start [0xc6]) frame' 6 := by
  obtain ⟨frame', hstep, hiff⟩ := restore_gives_back_iff (restoringFDE [0xc6]) .littleEndian
    amd64Frame (amd64Start [0xc6]) 6 rfl (reached_amd64Start [0xc6]) (.restore [] (by decide))
  exact ⟨frame', hstep, hiff.mpr (by decide)⟩

/-- The return address is saved at an offset according to the CIE, and lost by the restore. -/
theorem restore_loses_return_address :
    ¬ ∀ fde order cie frame frame' reg, executeCIEInstructions fde.cie = .ok cie →
      ReachedInFDE fde order frame → NextRestores frame.buf reg →
      executeDwarfInstruction frame = .ok frame' → GivesBack cie frame frame' reg := by
  intro hclaim
  have hback := hclaim (restoringFDE [0xd0]) .littleEndian amd64Frame (amd64Start [0xd0])
    { amd64Start [] with regs := amd64Frame.regs.set 16 {} } 16 rfl
    (reached_amd64Start [0xd0]) (.restore [] (by decide)) rfl
  have hrule := hback.rule
  rw [Regs.get_set, if_pos rfl] at hrule
  exact absurd hrule (by decide)

end XMonitor.Frame
