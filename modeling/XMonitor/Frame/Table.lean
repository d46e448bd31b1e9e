import XMonitor.Frame.Program
import XMonitor.Lib.SortFunc

/-!
# Building the unwind tables of a module

`CreateModuleFDETables` from the point where the parser has delivered the FDEs of
the `.eh_frame` section. The tables are built in place: the slot of an info is
filled before its FDE is run and reused if the FDE is rejected, while the rows that
a rejected FDE has already delivered stay counted.

The limits of the Go code and the lengths of the arrays are separate numbers, as in
the source. A write outside an array is the panic `tableIndexOutOfRange`.
-/

namespace XMonitor.Frame

/-- `__maxPerModuleFDETableCount`. -/
def maxPerModuleFDETableCount : Nat := 8192

/-- `__maxPerModuleAssocFDERowCount`. -/
def maxPerModuleAssocFDERowCount : Nat := 45 * 1024

/-- The errors of the row callback. They are never reported: `err` is nil where the
source tests it before logging them. -/
inductive InnerErr
  | rowCountExceedsLimit
  | invalidReg (reg : UInt64)
deriving DecidableEq, Repr

/-- The variables of the loop over the FDEs. `tableInfo` is the slot of
`tables.fdeInfos` at `tables.fdeTableCount`. -/
structure Builder where
  tables : ModuleFdeTables
  moduleAssocFDERowCount : Nat := 0
  innerErr : Option InnerErr := none

/-- A write to `FdeInfos`. -/
def setInfo (t : ModuleFdeTables) (i : Nat) (info : FdeTableInfo) :
    Except Panic ModuleFdeTables :=
  if i < perModuleFdeTableCount then .ok { t with fdeInfos := Function.update t.fdeInfos i info }
  else .error .tableIndexOutOfRange

/-- A write to `FdeRows`. -/
def setRow (t : ModuleFdeTables) (pos : Nat) (row : FdeTableRow) :
    Except Panic ModuleFdeTables :=
  if pos < perModuleFdeRowsCount then .ok { t with fdeRows := Function.update t.fdeRows pos row }
  else .error .tableIndexOutOfRange

/-- `int32(regs[reg].Offset)` for a register saved at a CFA offset, else `MaxInt32`. -/
def cfaOffset (regs : Regs) (reg : UInt64) : Int32 :=
  if (regs.get reg).rule = .offset then (regs.get reg).offset.toInt32 else int32Max

/-- The table row of a received row. -/
def tableRow (r : ReceivedRow) : FdeTableRow :=
  { loc := r.loc
    cfa := { reg := r.cfa.reg, offset := r.cfa.offset }
    rbpCfaOffset := cfaOffset r.regs amd64Rbp
    raCfaOffset := cfaOffset r.regs r.retAddrReg }

/-- Only `rsp` and `rbp` are supported as the register of the CFA. -/
def supportedReg (reg : UInt64) : Bool := reg == amd64Rsp || reg == amd64Rbp

/-- The row callback of `CreateModuleFDETables`. -/
def receiveRow (b : Builder) (r : ReceivedRow) : Except Panic Builder :=
  if b.innerErr.isSome then .ok b
  else if b.moduleAssocFDERowCount ≥ maxPerModuleAssocFDERowCount then
    .ok { b with innerErr := some .rowCountExceedsLimit }
  else do
    let pos := b.moduleAssocFDERowCount
    let slot := b.tables.fdeTableCount
    -- the location is stored before the register is looked at
    let tables ← setRow b.tables pos { b.tables.fdeRows pos with loc := r.loc }
    if supportedReg r.cfa.reg = false then
      return { b with tables, innerErr := some (.invalidReg r.cfa.reg) }
    let tables ← setRow tables pos (tableRow r)
    let tableInfo := tables.fdeInfos slot
    return { b with
      tables := { tables with
        fdeInfos := Function.update tables.fdeInfos slot
          { tableInfo with rowCount := tableInfo.rowCount + 1 } }
      moduleAssocFDERowCount := pos + 1 }

/-- The body of the loop over the FDEs. -/
def addFDE (order : ByteOrder) (b : Builder) (fde : FrameDescriptionEntry) :
    Except Panic Builder := do
  let slot := b.tables.fdeTableCount
  let tables ← setInfo b.tables slot
    { start := fde.begin_, end_ := fde.end_, rowCount := 0, rowPos := b.moduleAssocFDERowCount }
  let b ← executeFDE receiveRow fde order { b with tables, innerErr := none }
  if b.innerErr = none ∧ (b.tables.fdeInfos slot).rowCount > 0 then
    return { b with tables := { b.tables with fdeTableCount := slot + 1 } }
  else return b

/-- The loop over the FDEs, which stops when the tables are full. -/
def addFDEs (order : ByteOrder) : List FrameDescriptionEntry → Builder → Except Panic Builder
  | [], b => .ok b
  | fde :: fdes, b =>
    if b.tables.fdeTableCount ≥ maxPerModuleFDETableCount then .ok b
    else do
      let b ← addFDE order b fde
      addFDEs order fdes b

/-- The comparison that the infos are sorted by. -/
def startLess (a b : FdeTableInfo) : Bool := decide (a.start < b.start)

/-- A sort by the start address that a run of the builder can be evaluated with. -/
def stableSort : SortFunc startLess :=
  .ofLe (fun a b => decide (a.start ≤ b.start))
    (fun _ _ _ hab hbc => by
      simp only [decide_eq_true_eq] at hab hbc ⊢
      exact UInt64.le_trans hab hbc)
    (fun a b => by
      simp only [Bool.or_eq_true, decide_eq_true_eq]
      exact UInt64.le_total a.start b.start)
    (fun a b hab => by
      simp only [decide_eq_true_eq] at hab
      exact decide_eq_false (UInt64.not_lt.mpr hab))

/-- `slices.SortFunc` on `FdeInfos[0:FdeTableCount]`. -/
def sortInfos (S : SortFunc startLess) (t : ModuleFdeTables) : ModuleFdeTables :=
  { t with fdeInfos := fun i => (S.sort t.infos).getD i (t.fdeInfos i) }

/-- `CreateModuleFDETables` on the parsed FDEs of a module. -/
def createModuleFDETables (S : SortFunc startLess) (order : ByteOrder)
    (fdes : List FrameDescriptionEntry) : Except Panic ModuleFdeTables := do
  let b ← addFDEs order fdes { tables := { refCount := 1 } }
  return sortInfos S b.tables

end XMonitor.Frame
