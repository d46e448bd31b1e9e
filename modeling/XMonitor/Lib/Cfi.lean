import Mathlib.Algebra.GroupWithZero.Nat
import Mathlib.Logic.Function.Basic

/-!
# Call frame information

What a program of DWARF call frame instructions means: at each address of a
function, how the canonical frame address is computed and where the registers of
the caller are. A program is given by its decoded instructions. Offsets and
addresses are 64-bit words, so offsets are added modulo `2 ^ 64` like addresses.

The meaning is partial. A location that goes down or leaves the address space, a
change of one half of a CFA rule that is not a register and an offset, and a
`restoreState` without a remembered state are errors in the program, and there the
execution has no result.
-/

namespace Cfi

/-- Where a register of the caller is. `unspecified` is left to the ABI. -/
inductive RegRule
  | unspecified
  | undefined
  | sameValue
  | offset (n : Int64)
  | valOffset (n : Int64)
  | register (reg : UInt64)
  | expression (block : List UInt8)
  | valExpression (block : List UInt8)
deriving DecidableEq, Repr

inductive CfaRule
  | unset
  | regOffset (reg : UInt64) (offset : Int64)
  | expression (block : List UInt8)
deriving DecidableEq, Repr

/-- The rule of a register, with a note whether a `restore` has put it there. -/
structure RegEntry where
  rule : RegRule := .unspecified
  byRestore : Bool := false
deriving DecidableEq, Repr

/-- One row of the unwind table. -/
structure Rules where
  cfa : CfaRule := .unset
  regs : UInt64 → RegEntry := fun _ => {}

/-- The instructions. The operands of `offset`, `valOffset`, `valOffsetSf`,
`defCfaSf` and `defCfaOffsetSf` are factored by the data alignment. `nop` stands
for every instruction that has no effect on the table. -/
inductive Instr
  | nop
  | setLoc (loc : UInt64)
  | advanceLoc (delta : UInt64)
  | offset (reg : UInt64) (n : Int64)
  | restore (reg : UInt64)
  | undefined (reg : UInt64)
  | sameValue (reg : UInt64)
  | register (reg reg' : UInt64)
  | rememberState
  | restoreState
  | defCfa (reg : UInt64) (offset : Int64)
  | defCfaSf (reg : UInt64) (n : Int64)
  | defCfaRegister (reg : UInt64)
  | defCfaOffset (offset : Int64)
  | defCfaOffsetSf (n : Int64)
  | defCfaExpression (block : List UInt8)
  | expression (reg : UInt64) (block : List UInt8)
  | valOffset (reg : UInt64) (n : Int64)
  | valOffsetSf (reg : UInt64) (n : Int64)
  | valExpression (reg : UInt64) (block : List UInt8)
deriving DecidableEq, Repr

structure State where
  loc : UInt64 := 0
  rules : Rules := {}
  stack : List Rules := []

/-- The constants of a run: the alignment factors and the initial rules. -/
structure Params where
  codeAlignment : UInt64
  dataAlignment : Int64
  initial : UInt64 → RegEntry := fun _ => {}

def Rules.setReg (rules : Rules) (reg : UInt64) (rule : RegRule) : Rules :=
  { rules with regs := Function.update rules.regs reg { rule } }

def Rules.restoreReg (rules : Rules) (initial : UInt64 → RegEntry) (reg : UInt64) : Rules :=
  { rules with
    regs := Function.update rules.regs reg { rule := (initial reg).rule, byRestore := true } }

/-- The effect of an instruction on the row and on the remembered rows. -/
def Instr.apply (p : Params) (s : State) : Instr → Option State
  | .nop | .setLoc _ | .advanceLoc _ => some s
  | .offset reg n => some { s with rules := s.rules.setReg reg (.offset (n * p.dataAlignment)) }
  | .restore reg => some { s with rules := s.rules.restoreReg p.initial reg }
  | .undefined reg => some { s with rules := s.rules.setReg reg .undefined }
  | .sameValue reg => some { s with rules := s.rules.setReg reg .sameValue }
  | .register reg reg' => some { s with rules := s.rules.setReg reg (.register reg') }
  | .rememberState => some { s with stack := s.rules :: s.stack }
  | .restoreState =>
    match s.stack with
    | [] => none
    | rules :: stack => some { s with rules, stack }
  | .defCfa reg off => some { s with rules := { s.rules with cfa := .regOffset reg off } }
  | .defCfaSf reg n =>
    some { s with rules := { s.rules with cfa := .regOffset reg (n * p.dataAlignment) } }
  | .defCfaRegister reg =>
    match s.rules.cfa with
    | .regOffset _ off => some { s with rules := { s.rules with cfa := .regOffset reg off } }
    | _ => none
  | .defCfaOffset off =>
    match s.rules.cfa with
    | .regOffset reg _ => some { s with rules := { s.rules with cfa := .regOffset reg off } }
    | _ => none
  | .defCfaOffsetSf n =>
    match s.rules.cfa with
    | .regOffset reg _ =>
      some { s with rules := { s.rules with cfa := .regOffset reg (n * p.dataAlignment) } }
    | _ => none
  | .defCfaExpression block =>
    some { s with rules := { s.rules with cfa := .expression block } }
  | .expression reg block => some { s with rules := s.rules.setReg reg (.expression block) }
  | .valOffset reg n | .valOffsetSf reg n =>
    some { s with rules := s.rules.setReg reg (.valOffset (n * p.dataAlignment)) }
  | .valExpression reg block =>
    some { s with rules := s.rules.setReg reg (.valExpression block) }

/-- The location after an instruction. It never goes down. -/
def Instr.moveLoc (p : Params) (loc : UInt64) : Instr → Option UInt64
  | .setLoc loc' => if loc ≤ loc' then some loc' else none
  | .advanceLoc delta =>
    if loc.toNat + delta.toNat * p.codeAlignment.toNat < 2 ^ 64 then
      some (loc + delta * p.codeAlignment)
    else none
  | _ => some loc

def Instr.step (p : Params) (s : State) (i : Instr) : Option State := do
  let loc ← i.moveLoc p s.loc
  let s' ← i.apply p s
  return { s' with loc }

/-- The initial instructions only set up rules. -/
def applyAll (p : Params) : List Instr → State → Option State
  | [], s => some s
  | i :: is, s => do
    let s' ← i.apply p s
    applyAll p is s'

def run (p : Params) : List Instr → State → Option State
  | [], s => some s
  | i :: is, s => do
    let s' ← i.step p s
    run p is s'

/-- The row of `pc`: the instructions are executed until the location passes `pc`. -/
def rulesFrom (p : Params) (pc : UInt64) : List Instr → State → Option Rules
  | [], s => some s.rules
  | i :: is, s => do
    let s' ← i.step p s
    if pc < s'.loc then return s.rules else rulesFrom p pc is s'

/-- The decoded program of a function. -/
structure Program where
  codeAlignment : UInt64
  dataAlignment : Int64
  initialInstructions : List Instr
  instructions : List Instr
  begin_ : UInt64

namespace Program

/-- The state after the initial instructions. -/
def initialState (prog : Program) : Option State :=
  applyAll { codeAlignment := prog.codeAlignment, dataAlignment := prog.dataAlignment }
    prog.initialInstructions {}

/-- The constants and the state in which the instructions of the function start. -/
def start (prog : Program) : Option (Params × State) := do
  let s ← prog.initialState
  return ({ codeAlignment := prog.codeAlignment
            dataAlignment := prog.dataAlignment
            initial := s.rules.regs }, { s with loc := prog.begin_ })

/-- The whole program has a meaning. -/
def WellFormed (prog : Program) : Prop :=
  ∃ p s s', prog.start = some (p, s) ∧ run p prog.instructions s = some s'

/-- The unwind rules at `pc`. -/
def rulesAt (prog : Program) (pc : UInt64) : Option Rules := do
  let (p, s) ← prog.start
  rulesFrom p pc prog.instructions s

end Program

section

variable {p : Params} {s s' : State} {i : Instr}

theorem step_eq_some : i.step p s = some s' ↔
    ∃ loc t, i.moveLoc p s.loc = some loc ∧ i.apply p s = some t ∧ { t with loc } = s' := by
  simp [Instr.step, Option.bind_eq_some_iff]

theorem moveLoc_le {loc loc' : UInt64} (h : i.moveLoc p loc = some loc') : loc ≤ loc' := by
  cases i with
  | setLoc l =>
      simp only [Instr.moveLoc] at h
      split at h
      · cases h
        assumption
      · cases h
  | advanceLoc delta =>
      simp only [Instr.moveLoc] at h
      split at h
      · rename_i hwrap
        cases h
        rw [UInt64.le_iff_toNat_le, UInt64.toNat_add, UInt64.toNat_mul,
          Nat.mod_eq_of_lt (by omega : delta.toNat * _ < 2 ^ 64), Nat.mod_eq_of_lt hwrap]
        exact Nat.le_add_right _ _
      · cases h
  | _ =>
      cases h
      exact UInt64.le_refl _

theorem step_loc_le (h : i.step p s = some s') : s.loc ≤ s'.loc := by
  obtain ⟨loc, t, hloc, -, rfl⟩ := step_eq_some.mp h
  exact moveLoc_le hloc

/-- An instruction that moves the location leaves the row alone. -/
theorem step_rules_of_loc_ne (h : i.step p s = some s') (hne : s'.loc ≠ s.loc) :
    s'.rules = s.rules := by
  obtain ⟨loc, t, hloc, hrules, rfl⟩ := step_eq_some.mp h
  cases i with
  | setLoc _ | advanceLoc _ =>
      cases hrules
      rfl
  | _ =>
      cases hloc
      exact absurd rfl hne

end

end Cfi
