import XMonitor.Utils.ProcfileOpen

/-!
# Pressure stall information

`collector_proc_pressure` reads the files of `/proc/pressure` and sets gauges from fixed words of
the first line of each. The line of full stalls is the second one, so that the words that its
gauges are set from are not there. One gauge of the memory is confused with one of the devices.
-/

namespace XMonitor.Pressure

open Procfile

/-- The files, and the labels of the gauges. -/
inductive PsiResource
  | cpu | mem | io
deriving DecidableEq

/-- The two lines of a file. -/
inductive PsiShare
  | some | full
deriving DecidableEq

/-- The numbers of a line. -/
inductive PsiWindow
  | secs10 | secs60 | secs300 | total
deriving DecidableEq

/-- The gauges that are registered, by their names. -/
structure PsiGauge where
  resource : PsiResource
  share : PsiShare
  window : PsiWindow
deriving DecidableEq

/-- The value of a gauge for each label. -/
abbrev PsiGauges (Double : Type) := PsiGauge → PsiResource → Option Double

variable {Double : Type}

/-- `prom_gauge_set`. -/
def promGaugeSet (gauges : PsiGauges Double) (gauge : PsiGauge) (value : Double)
    (label : PsiResource) : PsiGauges Double :=
  Function.update gauges gauge (Function.update (gauges gauge) label (some value))

/-- The types of the bytes of a file that is opened with `" ="`. -/
def psiTypes : UInt8 → PfChar := procfileSetSeparators (some [32, 61])

section Collector

variable (strtod : CString → Double) (toDouble : UInt64 → Double)

/-- How a word is read, and converted for its gauge. -/
def psiValue (word : CString) : PsiWindow → Double
  | .total => toDouble (str2uint64 word)
  | _ => strtod word

/-- Set gauges from words of a line. -/
def setPsi (label : PsiResource) (line : List CString) (sets : List (PsiGauge × Nat))
    (gauges : PsiGauges Double) : PsiGauges Double :=
  sets.foldl (fun gauges set => promGaugeSet gauges set.1
    (psiValue strtod toDouble (lineword line set.2) set.1.window) label) gauges

/-- The collectors of the three files, for a file that has been opened and read or not. -/
def collectPsi (label : PsiResource) (sets : List (PsiGauge × Nat)) (file : Option (List UInt8))
    (gauges : PsiGauges Double) : PsiGauges Double :=
  match file with
  | none => gauges
  | some content =>
      let lines := fileLines psiTypes content
      if lines.length < 1 then gauges
      else setPsi strtod toDouble label (lines.getD 0 []) sets gauges

/-- The gauges of `__collector_proc_psi_cpu`, with the words of the first line. -/
def psiCpuSets : List (PsiGauge × Nat) :=
  [(⟨.cpu, .some, .secs10⟩, 2), (⟨.cpu, .some, .secs60⟩, 4), (⟨.cpu, .some, .secs300⟩, 6),
    (⟨.cpu, .some, .total⟩, 8)]

/-- Those of `__collector_proc_psi_mem`. The first one is a gauge of the devices. -/
def psiMemSets : List (PsiGauge × Nat) :=
  [(⟨.io, .some, .secs10⟩, 2), (⟨.mem, .some, .secs60⟩, 4), (⟨.mem, .some, .secs300⟩, 6),
    (⟨.mem, .some, .total⟩, 8), (⟨.mem, .full, .secs10⟩, 10), (⟨.mem, .full, .secs60⟩, 12),
    (⟨.mem, .full, .secs300⟩, 14), (⟨.mem, .full, .total⟩, 16)]

/-- Those of `__collector_proc_psi_io`. -/
def psiIoSets : List (PsiGauge × Nat) :=
  [(⟨.io, .some, .secs10⟩, 2), (⟨.io, .some, .secs60⟩, 4), (⟨.io, .some, .secs300⟩, 6),
    (⟨.io, .some, .total⟩, 8), (⟨.io, .full, .secs10⟩, 10), (⟨.io, .full, .secs60⟩, 12),
    (⟨.io, .full, .secs300⟩, 14), (⟨.io, .full, .total⟩, 16)]

/-- `__collector_proc_psi_cpu`. -/
def collectorProcPsiCpu (file : Option (List UInt8)) : PsiGauges Double → PsiGauges Double :=
  collectPsi strtod toDouble .cpu psiCpuSets file

/-- `__collector_proc_psi_mem`. -/
def collectorProcPsiMem (file : Option (List UInt8)) : PsiGauges Double → PsiGauges Double :=
  collectPsi strtod toDouble .mem psiMemSets file

/-- `__collector_proc_psi_io`. -/
def collectorProcPsiIo (file : Option (List UInt8)) : PsiGauges Double → PsiGauges Double :=
  collectPsi strtod toDouble .io psiIoSets file

/-- The time until the next round, and the gauges. -/
structure PressureState (Double : Type) where
  nextPressureDt : UInt64 := 0
  gauges : PsiGauges Double := fun _ _ => none

/-- The arguments of a call, and the files that it can read. -/
structure PressureCall where
  updateEvery : Int32
  dt : UInt64
  cpu : Option (List UInt8)
  mem : Option (List UInt8)
  io : Option (List UInt8)

/-- `collector_proc_pressure`. -/
def collectorProcPressure (st : PressureState Double) (call : PressureCall) :
    PressureState Double :=
  let updateEvery := if call.updateEvery < 2 then 2 else call.updateEvery
  if st.nextPressureDt ≤ call.dt then
    { nextPressureDt := updateEvery.toInt64.toUInt64 * 1000000
      gauges := collectorProcPsiIo strtod toDouble call.io
        (collectorProcPsiMem strtod toDouble call.mem
          (collectorProcPsiCpu strtod toDouble call.cpu st.gauges)) }
  else { st with nextPressureDt := st.nextPressureDt - call.dt }

/-- The state behind some calls. -/
def pressureRun (calls : List PressureCall) : PressureState Double :=
  calls.foldl (collectorProcPressure strtod toDouble) {}

end Collector

/-! ## The files -/

/-- A printed average. -/
structure Average where
  text : List UInt8
  nonempty : text ≠ []
  decimal : ∀ c ∈ text, c = 46 ∨ 48 ≤ c ∧ c ≤ 57

/-- The numbers of a line. -/
structure PsiNumbers where
  avg10 : Average
  avg60 : Average
  avg300 : Average
  total : UInt64

/-- The words of a line in front of the last one. -/
def PsiNumbers.front (numbers : PsiNumbers) (share : List UInt8) : List Separated :=
  [(share, 32), (ascii "avg10", 61), (numbers.avg10.text, 32), (ascii "avg60", 61),
    (numbers.avg60.text, 32), (ascii "avg300", 61), (numbers.avg300.text, 32),
    (ascii "total", 61)]

/-- A file with its two lines. -/
structure PsiFile where
  some : PsiNumbers
  full : PsiNumbers

namespace PsiFile

def lines (file : PsiFile) : List (List UInt8 × PsiNumbers) :=
  [(ascii "some", file.some), (ascii "full", file.full)]

def text (file : PsiFile) : List UInt8 :=
  file.lines.flatMap fun l => lineText (l.2.front l.1) (decimal l.2.total.toNat)

def numbers (file : PsiFile) : PsiShare → PsiNumbers
  | .some => file.some
  | .full => file.full

/-- The value that is printed in a field, as the collectors convert it. -/
def value (strtod : CString → Double) (toDouble : UInt64 → Double) (file : PsiFile)
    (share : PsiShare) : PsiWindow → Double
  | .secs10 => strtod (cString (file.numbers share).avg10.text)
  | .secs60 => strtod (cString (file.numbers share).avg60.text)
  | .secs300 => strtod (cString (file.numbers share).avg300.text)
  | .total => toDouble (file.numbers share).total

end PsiFile

end XMonitor.Pressure
