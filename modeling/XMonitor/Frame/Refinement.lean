import XMonitor.Frame.Decode
import XMonitor.Frame.TableInvariant

/-!
# Tables against call frame information

The rows of an FDE are compared with the unwind rules that its call frame program
defines. The context of the interpreter follows the state of the program, with two
losses: the rule of a CFA that is not a register and an offset keeps the register
and the offset of the rule before it, and `restore` forgets the rule it should put
back, since the initial rules are never recorded.

Both losses show up in the tables, so a committed table is right exactly at the
addresses where neither has happened and the offsets fit their 32-bit fields.
-/

namespace XMonitor.Frame

open ExceptRules Cfi

/-! ## The context follows the state -/

/-- The CFA offset that a rule of the interpreter saves its register at. -/
def savedOffset (r : DWRule) : Option Int64 := if r.rule = .offset then some r.offset else none

/-- The CFA offset that the interpreter still knows of a register. -/
def recorded (e : RegEntry) : Option Int64 :=
  match e.rule with
  | .offset n => if e.byRestore then none else some n
  | _ => none

structure RowMatches (cfa : DWRule) (regs : Regs) (rules : Rules) : Prop where
  cfa : ∀ reg off, rules.cfa = .regOffset reg off → cfa.reg = reg ∧ cfa.offset = off
  regs : ∀ reg, savedOffset (regs.get reg) = recorded (rules.regs reg)

structure Matches (p : Params) (frame : FrameContext) (s : State) : Prop where
  row : RowMatches frame.cfa frame.regs s.rules
  stack : List.Forall₂ (fun saved rules => RowMatches saved.cfa saved.regs rules)
    frame.rememberedState s.stack
  codeAlignment : frame.codeAlignment = p.codeAlignment
  dataAlignment : frame.dataAlignment = p.dataAlignment
  initial : frame.initialRegs = fun _ => none

theorem Regs.get_set (regs : Regs) (reg reg' : UInt64) (rule : DWRule) :
    (regs.set reg rule).get reg' = if reg' = reg then rule else regs.get reg' := by
  by_cases h : reg' = reg
  · subst h
    simp [Regs.get, Regs.set]
  · simp [Regs.get, Regs.set, h]

theorem RowMatches.update {cfa rule : DWRule} {regs : Regs} {rules : Rules} {e : RegEntry}
    (h : RowMatches cfa regs rules) (reg : UInt64) (hrule : savedOffset rule = recorded e) :
    RowMatches cfa (regs.set reg rule)
      { rules with regs := Function.update rules.regs reg e } := by
  refine ⟨h.cfa, fun reg' => ?_⟩
  rw [Regs.get_set]
  by_cases heq : reg' = reg
  · subst heq
    simpa using hrule
  · simpa [heq] using h.regs reg'

theorem RowMatches.setCfa {cfa cfa' : DWRule} {regs : Regs} {rules : Rules} {rule : CfaRule}
    (h : RowMatches cfa regs rules)
    (hrule : ∀ reg off, rule = .regOffset reg off → cfa'.reg = reg ∧ cfa'.offset = off) :
    RowMatches cfa' regs { rules with cfa := rule } := ⟨hrule, h.regs⟩

/-- Both have a register and an offset for the CFA. -/
theorem RowMatches.setRegOffset {cfa cfa' : DWRule} {regs : Regs} {rules : Rules} {reg : UInt64}
    {off : Int64} (h : RowMatches cfa regs rules) (hreg : cfa'.reg = reg)
    (hoff : cfa'.offset = off) :
    RowMatches cfa' regs { rules with cfa := .regOffset reg off } := by
  apply h.setCfa
  rintro _ _ ⟨⟩
  exact ⟨hreg, hoff⟩

/-- No rule is ever restored. -/
theorem savedOffset_restoredRule {frame : FrameContext}
    (h : frame.initialRegs = fun _ => none) (reg : UInt64) :
    savedOffset (restoredRule frame reg) = none := by
  simp [restoredRule, h, savedOffset]

theorem recorded_restored (rule : RegRule) : recorded { rule, byRestore := true } = none := by
  cases rule <;> rfl

/-- One instruction, apart from the location. -/
theorem Matches.perform {p : Params} {frame : FrameContext} {s s' : State} {i : Instr}
    (h : Matches p frame s) (hstep : i.apply p s = some s') :
    Matches p (perform frame i) s' := by
  obtain ⟨hrow, hstack, hcode, hdata, hinit⟩ := h
  cases i with
  | nop | setLoc _ | advanceLoc _ =>
      cases hstep
      exact ⟨hrow, hstack, hcode, hdata, hinit⟩
  | offset reg n =>
      cases hstep
      exact ⟨hrow.update reg (by simp [savedOffset, recorded, hdata]), hstack, hcode, hdata, hinit⟩
  | valOffset reg _ | valOffsetSf reg _ | undefined reg | sameValue reg | register reg _
  | expression reg _ | valExpression reg _ =>
      cases hstep
      exact ⟨hrow.update reg rfl, hstack, hcode, hdata, hinit⟩
  | restore reg =>
      cases hstep
      have hrule : savedOffset (restoredRule frame reg) =
          recorded { rule := (p.initial reg).rule, byRestore := true } := by
        rw [savedOffset_restoredRule hinit, recorded_restored]
      exact ⟨hrow.update reg hrule, hstack, hcode, hdata, hinit⟩
  | rememberState =>
      cases hstep
      exact ⟨hrow, .cons hrow hstack, hcode, hdata, hinit⟩
  | restoreState =>
      simp only [Instr.apply] at hstep
      split at hstep
      · cases hstep
      · rename_i rules stack hs
        cases hstep
        rw [hs] at hstack
        simp only [Frame.perform]
        cases hsaved : frame.rememberedState with
        | nil => simp [hsaved] at hstack
        | cons saved rest =>
            rw [hsaved] at hstack
            cases hstack with
            | cons hhead htail => exact ⟨hhead, htail, hcode, hdata, hinit⟩
  | defCfa reg off =>
      cases hstep
      exact ⟨hrow.setRegOffset rfl rfl, hstack, hcode, hdata, hinit⟩
  | defCfaSf reg n =>
      cases hstep
      refine ⟨hrow.setRegOffset rfl ?_, hstack, hcode, hdata, hinit⟩
      rw [← hdata]
      rfl
  | defCfaRegister reg =>
      simp only [Instr.apply] at hstep
      split at hstep
      · rename_i hcfa
        cases hstep
        exact ⟨hrow.setRegOffset rfl (hrow.cfa _ _ hcfa).2, hstack, hcode, hdata, hinit⟩
      · cases hstep
  | defCfaOffset off =>
      simp only [Instr.apply] at hstep
      split at hstep
      · rename_i hcfa
        cases hstep
        exact ⟨hrow.setRegOffset (hrow.cfa _ _ hcfa).1 rfl, hstack, hcode, hdata, hinit⟩
      · cases hstep
  | defCfaOffsetSf n =>
      simp only [Instr.apply] at hstep
      split at hstep
      · rename_i hcfa
        cases hstep
        refine ⟨hrow.setRegOffset (hrow.cfa _ _ hcfa).1 ?_, hstack, hcode, hdata, hinit⟩
        rw [← hdata]
        rfl
      · cases hstep
  | defCfaExpression block =>
      cases hstep
      refine ⟨hrow.setCfa ?_, hstack, hcode, hdata, hinit⟩
      rintro _ _ ⟨⟩

theorem perform_loc {p : Params} {frame : FrameContext} {i : Instr} {loc : UInt64}
    (hcode : frame.codeAlignment = p.codeAlignment)
    (h : i.moveLoc p frame.loc = some loc) : (perform frame i).loc = loc := by
  cases i with
  | setLoc _ =>
      simp only [Instr.moveLoc] at h
      split at h
      · cases h
        rfl
      · cases h
  | advanceLoc _ =>
      simp only [Instr.moveLoc] at h
      split at h
      · cases h
        simp only [perform, hcode]
      · cases h
  | restoreState =>
      cases h
      simp only [perform]
      split <;> rfl
  | _ =>
      cases h
      rfl

/-! ## Runs -/

section

variable {order : ByteOrder} {p : Params}

theorem Matches.withBuf {frame : FrameContext} {s : State} (h : Matches p frame s)
    (buf : List UInt8) : Matches p { frame with buf } s :=
  ⟨h.row, h.stack, h.codeAlignment, h.dataAlignment, h.initial⟩

theorem order_of_execute {frame frame' : FrameContext}
    (h : executeDwarfInstruction frame = .ok frame') : frame'.order = frame.order :=
  congrArg Setting.order (executeDwarfInstruction_consumes h).1

/-- The initial instructions of the CIE. -/
theorem executeDwarfProgram_matches {fuel : Nat} {frame frame' : FrameContext} {is : List Instr}
    {s s' : State} (hord : frame.order = none) (hdec : decodeAll order fuel frame.buf = some is)
    (hmatch : Matches p frame s) (hrun : applyAll p is s = some s')
    (h : executeDwarfProgram fuel frame = .ok frame') : Matches p frame' s' := by
  induction fuel generalizing frame is s with
  | zero =>
      cases h
      rw [decodeAll] at hdec
      split at hdec
      · cases hdec
        cases hrun
        exact hmatch
      · cases hdec
  | succ fuel ih =>
      rw [executeDwarfProgram] at h
      rw [decodeAll] at hdec
      split at h
      · rw [if_pos ‹_›] at hdec
        cases hdec
        cases hrun
        cases h
        exact hmatch
      · rw [if_neg ‹_›] at hdec
        obtain ⟨⟨i, rest⟩, hi, hdec⟩ := Option.bind_eq_some_iff.mp hdec
        obtain ⟨is', his, hdec⟩ := Option.bind_eq_some_iff.mp hdec
        cases hdec
        obtain ⟨t, hstep, hrun⟩ := Option.bind_eq_some_iff.mp hrun
        obtain ⟨mid, hexec, h⟩ := bind_eq_ok.mp h
        have hord' := (order_of_execute hexec).trans hord
        obtain rfl := executeDwarfInstruction_eq (.inl hord) hi hexec
        exact ih hord' his ((hmatch.perform hstep).withBuf rest) hrun h

/-- `r` is the row with the greatest location that is not above `pc`. -/
def IsRowOf (rows : List ReceivedRow) (pc : UInt64) (r : ReceivedRow) : Prop :=
  r ∈ rows ∧ r.loc ≤ pc ∧ ∀ r' ∈ rows, r'.loc ≤ pc → r'.loc ≤ r.loc

theorem isRowOf_head {head : ReceivedRow} {rows : List ReceivedRow} {pc : UInt64}
    (hpc : head.loc ≤ pc) (habove : ∀ r ∈ rows, pc < r.loc) : IsRowOf (head :: rows) pc head := by
  refine ⟨List.mem_cons_self, hpc, fun r hr hrpc => ?_⟩
  obtain rfl | hr := List.mem_cons.mp hr
  · exact UInt64.le_refl _
  · exact absurd hrpc (UInt64.not_le.mpr (habove r hr))

theorem IsRowOf.cons {head r : ReceivedRow} {rows : List ReceivedRow} {pc : UInt64}
    (h : IsRowOf rows pc r) (hlow : ∀ r ∈ rows, head.loc ≤ r.loc) :
    IsRowOf (head :: rows) pc r := by
  refine ⟨List.mem_cons_of_mem head h.1, h.2.1, fun r' hr' hpc => ?_⟩
  obtain rfl | hr' := List.mem_cons.mp hr'
  · exact hlow r h.1
  · exact h.2.2 r' hr' hpc

/-- One step of both, for the instructions of an FDE. -/
theorem execute_matches {frame frame' : FrameContext} {i : Instr} {rest : List UInt8}
    {s t : State} (hord : frame.order = some order) (hdec : decode order frame.buf = some (i, rest))
    (hmatch : Matches p frame s) (hloc : frame.loc = s.loc) (hstep : i.step p s = some t)
    (h : executeDwarfInstruction frame = .ok frame') :
    frame'.order = some order ∧ frame'.buf = rest ∧ Matches p frame' t ∧ frame'.loc = t.loc := by
  have hord' := (order_of_execute h).trans hord
  obtain rfl := executeDwarfInstruction_eq (.inr hord) hdec h
  obtain ⟨loc, u, hmove, happly, rfl⟩ := step_eq_some.mp hstep
  have hnext := (hmatch.perform happly).withBuf rest
  refine ⟨hord', rfl, ⟨hnext.row, hnext.stack, hnext.codeAlignment, hnext.dataAlignment,
    hnext.initial⟩, ?_⟩
  exact perform_loc hmatch.codeAlignment (hloc ▸ hmove)

/-- A well-formed program never moves the location down. -/
theorem neverDown_of_run {fuel : Nat} {frame : FrameContext} {is : List Instr} {s s' : State}
    (hord : frame.order = some order) (hdec : decodeAll order fuel frame.buf = some is)
    (hmatch : Matches p frame s) (hloc : frame.loc = s.loc) (hrun : run p is s = some s') :
    NeverDown fuel frame := by
  induction fuel generalizing frame is s with
  | zero => trivial
  | succ fuel ih =>
      intro frame' h
      rw [decodeAll] at hdec
      split at hdec
      · rename_i hnil
        simp [executeDwarfInstruction, hnil] at h
      · obtain ⟨⟨i, rest⟩, hi, hdec⟩ := Option.bind_eq_some_iff.mp hdec
        obtain ⟨is', his, hdec⟩ := Option.bind_eq_some_iff.mp hdec
        cases hdec
        obtain ⟨t, hstep, hrun⟩ := Option.bind_eq_some_iff.mp hrun
        obtain ⟨hord', hbuf', hmatch', hloc'⟩ := execute_matches hord hi hmatch hloc hstep h
        refine ⟨?_, ih hord' (hbuf' ▸ his) hmatch' hloc' hrun⟩
        rw [hloc, hloc']
        exact step_loc_le hstep

/-- Every address from the current location on has a row, and the row matches the
rules of the program there. -/
theorem rowsFrom_matches {fuel : Nat} {frame last : FrameContext} {lastLoc pc : UInt64}
    {rows : List ReceivedRow} {is : List Instr} {s s' : State}
    (hord : frame.order = some order) (hdec : decodeAll order fuel frame.buf = some is)
    (hmatch : Matches p frame s) (hloc : frame.loc = s.loc) (hrun : run p is s = some s')
    (h : rowsFrom fuel frame frame.loc = .ok (last, lastLoc, rows)) (hpc : frame.loc ≤ pc) :
    ∃ r rules, IsRowOf (rows ++ [last.row lastLoc]) pc r ∧ rulesFrom p pc is s = some rules ∧
      RowMatches r.cfa r.regs rules := by
  induction fuel generalizing frame is s rows with
  | zero =>
      cases h
      rw [decodeAll] at hdec
      split at hdec
      · cases hdec
        exact ⟨_, _, isRowOf_head hpc (by simp), rfl, hmatch.row⟩
      · cases hdec
  | succ fuel ih =>
      have hnever := neverDown_of_run hord hdec hmatch hloc hrun
      rw [rowsFrom] at h
      rw [decodeAll] at hdec
      split at h
      · rw [if_pos ‹_›] at hdec
        cases hdec
        cases h
        exact ⟨_, _, isRowOf_head hpc (by simp), rfl, hmatch.row⟩
      rw [if_neg ‹_›] at hdec
      obtain ⟨⟨i, rest⟩, hi, hdec⟩ := Option.bind_eq_some_iff.mp hdec
      obtain ⟨is', his, hdec⟩ := Option.bind_eq_some_iff.mp hdec
      cases hdec
      obtain ⟨t, hstep, hrun⟩ := Option.bind_eq_some_iff.mp hrun
      obtain ⟨frame', hexec, h⟩ := bind_eq_ok.mp h
      obtain ⟨hord', hbuf', hmatch', hloc'⟩ := execute_matches hord hi hmatch hloc hstep hexec
      obtain ⟨hle, hnever'⟩ := hnever frame' hexec
      have hrules : rulesFrom p pc (i :: is') s =
          if pc < t.loc then some s.rules else rulesFrom p pc is' t := by
        simp only [rulesFrom, hstep, Option.bind_eq_bind, Option.bind_some]
        rfl
      rw [hrules]
      split at h
      · rename_i hne
        obtain ⟨⟨last', lastLoc', rows'⟩, hrest, h⟩ := bind_eq_ok.mp h
        cases h
        obtain ⟨-, hlow⟩ := rowsFrom_increasing hnever' hrest
        by_cases hbelow : pc < t.loc
        · -- the row that has just been delivered is the one of `pc`
          rw [if_pos hbelow]
          have hsame : t.rules = s.rules :=
            step_rules_of_loc_ne hstep (by rw [← hloc, ← hloc']; exact hne)
          refine ⟨_, _, isRowOf_head hpc fun r hr => ?_, rfl, hsame ▸ hmatch'.row⟩
          exact UInt64.lt_of_lt_of_le (hloc' ▸ hbelow) (hlow r hr)
        · rw [if_neg hbelow]
          have hpc' : frame'.loc ≤ pc := hloc' ▸ UInt64.not_lt.mp hbelow
          obtain ⟨r, rules, hr, hru, hm⟩ :=
            ih hord' (hbuf' ▸ his) hmatch' hloc' hrun hrest hpc'
          exact ⟨r, rules, hr.cons fun r' hr' => UInt64.le_trans hle (hlow r' hr'), hru, hm⟩
      · rename_i heq
        have hsame : frame'.loc = frame.loc := Classical.not_not.mp heq
        rw [← hsame] at h hpc
        rw [if_neg (by rw [← hloc']; exact UInt64.not_lt.mpr hpc)]
        exact ih hord' (hbuf' ▸ his) hmatch' hloc' hrun h hpc

end

/-- All rows carry the return address column of the CIE. -/
theorem rowsFrom_retAddrReg {fuel : Nat} {frame last : FrameContext} {prevLoc lastLoc : UInt64}
    {rows : List ReceivedRow} (h : rowsFrom fuel frame prevLoc = .ok (last, lastLoc, rows)) :
    ∀ r ∈ rows ++ [last.row lastLoc], r.retAddrReg = frame.retAddrReg := by
  induction fuel generalizing frame prevLoc rows with
  | zero =>
      cases h
      simp [FrameContext.row]
  | succ fuel ih =>
      rw [rowsFrom] at h
      split at h
      · cases h
        simp [FrameContext.row]
      obtain ⟨frame', hstep, h⟩ := bind_eq_ok.mp h
      have hkeep : frame'.retAddrReg = frame.retAddrReg :=
        congrArg Setting.retAddrReg (executeDwarfInstruction_consumes hstep).1
      split at h
      · obtain ⟨⟨last', lastLoc', rows'⟩, hrest, h⟩ := bind_eq_ok.mp h
        cases h
        intro r hr
        rw [List.cons_append] at hr
        obtain rfl | hr := List.mem_cons.mp hr
        · exact hkeep
        · exact (ih hrest r hr).trans hkeep
      · exact fun r hr => (ih h r hr).trans hkeep

theorem executeDwarfProgram_setting {fuel : Nat} {frame frame' : FrameContext}
    (h : executeDwarfProgram fuel frame = .ok frame') : frame'.setting = frame.setting := by
  induction fuel generalizing frame with
  | zero =>
      cases h
      rfl
  | succ fuel ih =>
      rw [executeDwarfProgram] at h
      split at h
      · cases h
        rfl
      · obtain ⟨mid, hstep, h⟩ := bind_eq_ok.mp h
        exact (ih h).trans (executeDwarfInstruction_consumes hstep).1

/-- The rows of a well-formed FDE, address by address. -/
theorem fdeRows_matches {fde : FrameDescriptionEntry} {order : ByteOrder} {prog : Program}
    {rows : List ReceivedRow} (hprog : fde.program order = some prog) (hwf : prog.WellFormed)
    (h : fdeRows fde order = .ok rows) :
    (rows.Pairwise fun r r' => r.loc < r'.loc) ∧
      (∀ r ∈ rows, r.retAddrReg = fde.cie.returnAddressRegister) ∧
      ∀ pc, fde.begin_ ≤ pc → ∃ r rules, IsRowOf rows pc r ∧ prog.rulesAt pc = some rules ∧
        RowMatches r.cfa r.regs rules := by
  obtain ⟨initial, hinitial, hprog⟩ := Option.bind_eq_some_iff.mp hprog
  obtain ⟨is, his, hprog⟩ := Option.bind_eq_some_iff.mp hprog
  cases hprog
  obtain ⟨p, s, s', hstart, hrun⟩ := hwf
  obtain ⟨s₀, hs₀, heq⟩ := Option.bind_eq_some_iff.mp hstart
  cases heq
  obtain ⟨frame, hframe, hbuild⟩ := bind_eq_ok.mp h
  obtain ⟨⟨last, lastLoc, front⟩, hrows, hlast⟩ := bind_eq_ok.mp hbuild
  obtain ⟨cie, hcie, heq⟩ := bind_eq_ok.mp hframe
  cases heq
  cases hlast
  have hzero : Matches { codeAlignment := fde.cie.codeAlignmentFactor
                         dataAlignment := fde.cie.dataAlignmentFactor }
      { buf := fde.cie.initialInstructions
        retAddrReg := fde.cie.returnAddressRegister
        codeAlignment := fde.cie.codeAlignmentFactor
        dataAlignment := fde.cie.dataAlignmentFactor } ({} : State) :=
    ⟨⟨nofun, fun _ => rfl⟩, .nil, rfl, rfl, rfl⟩
  have hm := executeDwarfProgram_matches rfl hinitial hzero hs₀ hcie
  have hm' : Matches { codeAlignment := fde.cie.codeAlignmentFactor
                       dataAlignment := fde.cie.dataAlignmentFactor
                       initial := s₀.rules.regs }
      { cie with order := some order, loc := fde.begin_, buf := fde.instructions }
      { s₀ with loc := fde.begin_ } :=
    ⟨hm.row, hm.stack, hm.codeAlignment, hm.dataAlignment, hm.initial⟩
  have hset := executeDwarfProgram_setting hcie
  refine ⟨?_, ?_, fun pc hpc => ?_⟩
  · exact (rowsFrom_increasing (neverDown_of_run rfl his hm' rfl hrun) hrows).1
  · exact fun r hr => (rowsFrom_retAddrReg hrows r hr).trans (congrArg Setting.retAddrReg hset)
  · obtain ⟨r, rules, hr, hrules, hmatch⟩ := rowsFrom_matches rfl his hm' rfl hrun hrows hpc
    refine ⟨r, rules, hr, ?_, hmatch⟩
    simp only [Program.rulesAt, hstart, Option.bind_eq_bind, Option.bind_some, hrules]

/-! ## Rows of the tables -/

/-- A field holds the CFA offset of a register, or `INT_MAX` if it has none. -/
def DescribesOffset (field : Int32) (rule : RegRule) : Prop :=
  match rule with
  | .offset n => field ≠ int32Max ∧ field.toInt64 = n
  | _ => field = int32Max

/-- A table row describes unwind rules with the return address in column `ra`. -/
structure Describes (row : FdeTableRow) (ra : UInt64) (rules : Rules) : Prop where
  cfa : rules.cfa = .regOffset row.cfa.reg row.cfa.offset
  rbp : DescribesOffset row.rbpCfaOffset (rules.regs amd64Rbp).rule
  ra : DescribesOffset row.raCfaOffset (rules.regs ra).rule

/-- The CFA offset of a register fits its field, and no `restore` has set it. -/
def RepresentableReg (e : RegEntry) : Prop :=
  ∀ n, e.rule = .offset n →
    e.byRestore = false ∧ -2147483648 ≤ n.toInt ∧ n.toInt < 2147483647

/-- The unwind rules that the tables can express. -/
structure Representable (ra : UInt64) (rules : Rules) : Prop where
  cfa : ∃ reg off, rules.cfa = .regOffset reg off
  rbp : RepresentableReg (rules.regs amd64Rbp)
  ra : RepresentableReg (rules.regs ra)

theorem toInt32_eq_iff (n : Int64) : n.toInt32 ≠ int32Max ∧ n.toInt32.toInt64 = n ↔
    -2147483648 ≤ n.toInt ∧ n.toInt < 2147483647 := by
  have hmax : int32Max.toInt = 2147483647 := rfl
  rw [← Int64.toInt_inj, ← Int32.toInt_inj.ne, Int32.toInt_toInt64, Int64.toInt_toInt32, hmax,
    Int.bmod_def]
  omega

theorem describesOffset_iff {regs : Regs} {reg : UInt64} {e : RegEntry}
    (h : savedOffset (regs.get reg) = recorded e) :
    DescribesOffset (cfaOffset regs reg) e.rule ↔ RepresentableReg e := by
  have hfield : cfaOffset regs reg =
      match recorded e with
      | some n => n.toInt32
      | none => int32Max := by
    rw [← h, cfaOffset, savedOffset]
    split <;> rfl
  rw [hfield]
  obtain ⟨rule, byRestore⟩ := e
  cases rule with
  | offset n =>
      cases byRestore with
      | true => simp [DescribesOffset, RepresentableReg, recorded]
      | false => simpa [DescribesOffset, RepresentableReg, recorded] using toInt32_eq_iff n
  | _ => simp [DescribesOffset, RepresentableReg, recorded]

theorem describes_iff {r : ReceivedRow} {rules : Rules} (h : RowMatches r.cfa r.regs rules) :
    Describes (tableRow r) r.retAddrReg rules ↔ Representable r.retAddrReg rules := by
  have hrbp := describesOffset_iff (h.regs amd64Rbp)
  have hra := describesOffset_iff (h.regs r.retAddrReg)
  constructor
  · rintro ⟨hcfa, h₁, h₂⟩
    exact ⟨⟨_, _, hcfa⟩, hrbp.mp h₁, hra.mp h₂⟩
  · rintro ⟨⟨reg, off, hcfa⟩, h₁, h₂⟩
    obtain ⟨rfl, rfl⟩ := h.cfa reg off hcfa
    exact ⟨hcfa, hrbp.mpr h₁, hra.mpr h₂⟩

/-- The `k`-th row of an info has the greatest location that is not above `pc`. -/
def IsTableRowOf (t : ModuleFdeTables) (info : FdeTableInfo) (pc : UInt64) (k : Nat) : Prop :=
  k < info.rowCount ∧ (t.fdeRows (info.rowPos + k)).loc ≤ pc ∧
    ∀ k', k' < info.rowCount → (t.fdeRows (info.rowPos + k')).loc ≤ pc →
      (t.fdeRows (info.rowPos + k')).loc ≤ (t.fdeRows (info.rowPos + k)).loc

/-- The row of an address, and what it takes to be right. -/
theorem tableRow_describes_iff {S : SortFunc startLess} {order : ByteOrder}
    {fdes : List FrameDescriptionEntry} {t : ModuleFdeTables} {fde : FrameDescriptionEntry}
    {info : FdeTableInfo} {prog : Program} (h : createModuleFDETables S order fdes = .ok t)
    (hc : CommittedAs order fdes fde info) (hprog : fde.program order = some prog)
    (hwf : prog.WellFormed) {pc : UInt64} (hpc : fde.begin_ ≤ pc) :
    ∃ rules, prog.rulesAt pc = some rules ∧ (∃ k, IsTableRowOf t info pc k) ∧
      ∀ k, IsTableRowOf t info pc k →
        (Describes (t.fdeRows (info.rowPos + k)) fde.cie.returnAddressRegister rules ↔
          Representable fde.cie.returnAddressRegister rules) := by
  obtain ⟨-, rows, hrun, hshape, hstored, -⟩ := hc.finished h
  obtain ⟨hpair, hra, hrows⟩ := fdeRows_matches hprog hwf hrun
  obtain ⟨r, rules, ⟨hr, hrpc, hmax⟩, hrules, hmatch⟩ := hrows pc hpc
  have hcount : info.rowCount = rows.length := by
    rw [hshape]
    rfl
  have hrow (k : Nat) (hk : k < rows.length) :
      t.fdeRows (info.rowPos + k) = tableRow rows[k] := by
    rw [← ModuleFdeTables.getElem_rowsOf t info k (by simpa [hcount] using hk)]
    simp [hstored]
  obtain ⟨j, hj, rfl⟩ := List.getElem_of_mem hr
  have hj' : IsTableRowOf t info pc j := by
    refine ⟨hcount ▸ hj, by rw [hrow j hj]; exact hrpc, fun k' hk' hle => ?_⟩
    rw [hrow k' (hcount ▸ hk')] at hle ⊢
    rw [hrow j hj]
    exact hmax _ (List.getElem_mem _) hle
  refine ⟨rules, hrules, ⟨j, hj'⟩, fun k hk => ?_⟩
  -- strictly increasing locations leave one candidate
  have hkj : k = j := by
    have hk₁ : k < rows.length := hcount ▸ hk.1
    have hjk := hk.2.2 j hj'.1 hj'.2.1
    have hkj := hj'.2.2 k hk.1 hk.2.1
    rw [hrow j hj, hrow k hk₁] at hjk hkj
    obtain hlt | heq | hlt := Nat.lt_trichotomy k j
    · have := List.pairwise_iff_getElem.mp hpair k j hk₁ hj hlt
      exact absurd hjk (UInt64.not_le.mpr this)
    · exact heq
    · have := List.pairwise_iff_getElem.mp hpair j k hj hk₁ hlt
      exact absurd hkj (UInt64.not_le.mpr this)
  subst hkj
  rw [hrow k hj, ← hra _ hr]
  exact describes_iff hmatch

/-- The rows of a committed FDE describe its call frame program at every address of
its range exactly if the unwind rules there are ones that the tables can express. -/
theorem committed_rows_describe_iff (S : SortFunc startLess) (order : ByteOrder)
    (fdes : List FrameDescriptionEntry) (t : ModuleFdeTables) (fde : FrameDescriptionEntry)
    (info : FdeTableInfo) (prog : Program) (h : createModuleFDETables S order fdes = .ok t)
    (hc : CommittedAs order fdes fde info) (hprog : fde.program order = some prog)
    (hwf : prog.WellFormed) :
    (∀ pc, fde.begin_ ≤ pc → pc < fde.end_ → ∃ k rules, IsTableRowOf t info pc k ∧
        prog.rulesAt pc = some rules ∧
        Describes (t.fdeRows (info.rowPos + k)) fde.cie.returnAddressRegister rules) ↔
      ∀ pc, fde.begin_ ≤ pc → pc < fde.end_ → ∃ rules, prog.rulesAt pc = some rules ∧
        Representable fde.cie.returnAddressRegister rules := by
  constructor
  · intro hdesc pc hlow hhigh
    obtain ⟨rules, hrules, -, hiff⟩ := tableRow_describes_iff h hc hprog hwf hlow
    obtain ⟨k, rules', hk, hrules', hd⟩ := hdesc pc hlow hhigh
    obtain rfl : rules' = rules := Option.some.inj (hrules'.symm.trans hrules)
    exact ⟨rules', hrules, (hiff k hk).mp hd⟩
  · intro hrep pc hlow hhigh
    obtain ⟨rules, hrules, ⟨k, hk⟩, hiff⟩ := tableRow_describes_iff h hc hprog hwf hlow
    obtain ⟨rules', hrules', hr⟩ := hrep pc hlow hhigh
    obtain rfl : rules' = rules := Option.some.inj (hrules'.symm.trans hrules)
    exact ⟨k, rules', hk, hrules, (hiff k hk).mpr hr⟩

/-- A function that sets up `rbp` as its frame pointer. -/
def framePointerFDE : FrameDescriptionEntry :=
  { cie := amd64CIE
    instructions := [0x41, 0x0e, 16, 0x86, 2, 0x43, 0x0d, 6]
    begin_ := 0x1000
    size := 32 }

/-- Its rows are right everywhere. -/
theorem framePointer_rows_describe : ∃ t info prog,
    createModuleFDETables stableSort .littleEndian [framePointerFDE] = .ok t ∧
      CommittedAs .littleEndian [framePointerFDE] framePointerFDE info ∧
      framePointerFDE.program .littleEndian = some prog ∧ prog.WellFormed ∧
      ∀ pc, framePointerFDE.begin_ ≤ pc → pc < framePointerFDE.end_ → ∃ k rules,
        IsTableRowOf t info pc k ∧ prog.rulesAt pc = some rules ∧
        Describes (t.fdeRows (info.rowPos + k)) 16 rules := by
  have hrun : ∃ rows, fdeRows framePointerFDE .littleEndian = .ok rows ∧
      (∀ r ∈ rows, supportedReg r.cfa.reg = true) ∧
      rows.length ≤ maxPerModuleAssocFDERowCount := ⟨_, rfl, by decide, by decide⟩
  obtain ⟨rows, hrun, hregs, hlen⟩ := hrun
  obtain ⟨t, info, ht, hc⟩ := createModuleFDETables_single stableSort hrun hregs hlen
  have hwf : ∃ prog, framePointerFDE.program .littleEndian = some prog ∧ prog.WellFormed ∧
      ∀ pc, ∃ rules, prog.rulesAt pc = some rules ∧ Representable 16 rules := by
    refine ⟨_, rfl, ⟨_, _, _, rfl, rfl⟩, fun pc => ?_⟩
    by_cases h₁ : pc < 0x1001
    · refine ⟨_, if_pos h₁, ⟨_, _, rfl⟩, ?_, ?_⟩
      · rintro _ ⟨⟩
      · rintro _ ⟨⟩
        decide
    by_cases h₂ : pc < 0x1004
    · refine ⟨_, (if_neg h₁).trans ((if_neg h₁).trans ((if_neg h₁).trans (if_pos h₂))),
        ⟨_, _, rfl⟩, ?_, ?_⟩
      · rintro _ ⟨⟩
        decide
      · rintro _ ⟨⟩
        decide
    · refine ⟨_, (if_neg h₁).trans ((if_neg h₁).trans ((if_neg h₁).trans
        ((if_neg h₂).trans (if_neg h₂)))), ⟨_, _, rfl⟩, ?_, ?_⟩
      · rintro _ ⟨⟩
        decide
      · rintro _ ⟨⟩
        decide
  obtain ⟨prog, hprog, hwf, hrep⟩ := hwf
  exact ⟨t, info, prog, ht, hc, hprog, hwf,
    (committed_rows_describe_iff stableSort .littleEndian _ t _ info prog ht hc hprog hwf).mpr
      fun pc _ _ => hrep pc⟩

/-- The FDE that linkers emit for the `.plt` section. Its last row has a CFA that is
computed by an expression. -/
def pltFDE : FrameDescriptionEntry :=
  { cie := amd64CIE
    instructions := [0x0e, 16, 0x46, 0x0e, 24, 0x4a, 0x0f, 11,
      0x77, 8, 0x80, 0, 0x3f, 0x1a, 0x3b, 0x2a, 0x33, 0x24, 0x22]
    begin_ := 0x1020
    size := 64 }

/-- It is committed, and the row at `0x1030` still has the CFA `rsp + 24`. -/
theorem plt_row_not_described : ∃ t info prog,
    createModuleFDETables stableSort .littleEndian [pltFDE] = .ok t ∧
      CommittedAs .littleEndian [pltFDE] pltFDE info ∧
      pltFDE.program .littleEndian = some prog ∧ prog.WellFormed ∧
      pltFDE.begin_ ≤ 0x1030 ∧ 0x1030 < pltFDE.end_ ∧
      ¬ ∃ k rules, IsTableRowOf t info 0x1030 k ∧ prog.rulesAt 0x1030 = some rules ∧
        Describes (t.fdeRows (info.rowPos + k)) 16 rules := by
  have hrun : ∃ rows, fdeRows pltFDE .littleEndian = .ok rows ∧
      (∀ r ∈ rows, supportedReg r.cfa.reg = true) ∧
      rows.length ≤ maxPerModuleAssocFDERowCount := ⟨_, rfl, by decide, by decide⟩
  obtain ⟨rows, hrun, hregs, hlen⟩ := hrun
  obtain ⟨t, info, ht, hc⟩ := createModuleFDETables_single stableSort hrun hregs hlen
  refine ⟨t, info, _, ht, hc, rfl, ⟨_, _, _, rfl, rfl⟩, by decide, by decide, ?_⟩
  rintro ⟨k, rules, -, hrules, hdesc⟩
  cases hrules
  cases hdesc.cfa

end XMonitor.Frame
