import Mathlib.Data.List.Induction
import XMonitor.Pressure.Psi

/-!
# What a round shows

The gauges of partial stalls have the values of their fields, but for the first one of the
memory, which is never set. The gauges of full stalls have the values of empty words. A round of
the memory changes a gauge of the devices.
-/

namespace XMonitor.Pressure

open Procfile

variable {Double : Type} {strtod : CString → Double} {toDouble : UInt64 → Double}

/-! ## Words -/

theorem psiTypes_of_range {c : UInt8}
    (h : 46 ≤ c.toNat ∧ c.toNat ≤ 57 ∨ 97 ≤ c.toNat ∧ c.toNat ≤ 122) : psiTypes c = .isWord := by
  refine procfileSetSeparators_of_notMem ?_ (by omega) (by omega)
  simp only [Option.getD_some, List.mem_cons, List.not_mem_nil, or_false, not_or]
  constructor
  all_goals
    rintro rfl
    revert h
    decide

theorem psiTypes_decimal {c : UInt8} (h : 48 ≤ c ∧ c ≤ 57) : psiTypes c = .isWord :=
  psiTypes_of_range (.inl ⟨Nat.le_trans (by decide) h.1, h.2⟩)

theorem Average.isWord (a : Average) : ∀ c ∈ a.text, psiTypes c = .isWord := by
  intro c hc
  obtain rfl | hdigit := a.decimal c hc
  · rfl
  · exact psiTypes_decimal hdigit

theorem plain_front (numbers : PsiNumbers) {share : List UInt8} (hne : share ≠ [])
    (hword : ∀ c ∈ share, psiTypes c = .isWord) :
    Plain psiTypes (numbers.front share) (decimal numbers.total.toNat) where
  newline := rfl
  nonempty := by
    simp only [PsiNumbers.front, List.forall_mem_cons]
    exact ⟨hne, by decide, numbers.avg10.nonempty, by decide, numbers.avg60.nonempty, by decide,
      numbers.avg300.nonempty, by decide, List.forall_mem_nil _⟩
  words := by
    simp only [PsiNumbers.front, List.forall_mem_cons]
    exact ⟨hword, by decide, numbers.avg10.isWord, by decide, numbers.avg60.isWord, by decide,
      numbers.avg300.isWord, by decide, List.forall_mem_nil _⟩
  separators := by
    simp only [PsiNumbers.front, List.forall_mem_cons]
    exact ⟨rfl, rfl, rfl, rfl, rfl, rfl, rfl, rfl, List.forall_mem_nil _⟩
  last c hc := psiTypes_decimal (digit_of_mem_decimal hc)

/-- The words of a line. -/
def PsiNumbers.words (numbers : PsiNumbers) (share : List UInt8) : List CString :=
  ((numbers.front share).map Prod.fst ++ [decimal numbers.total.toNat]).map cString

theorem fileLines_text (file : PsiFile) :
    fileLines psiTypes file.text =
      [file.some.words (ascii "some"), file.full.words (ascii "full"), []] := by
  have hplain : ∀ l ∈ file.lines, Plain psiTypes (l.2.front l.1) (decimal l.2.total.toNat) := by
    simp only [PsiFile.lines, List.forall_mem_cons]
    exact ⟨plain_front _ (by decide) (by decide), plain_front _ (by decide) (by decide),
      List.forall_mem_nil _⟩
  rw [fileLines, PsiFile.text, splitLines_of_plain file.lines _ _ hplain]
  rfl

/-! ## Setting gauges -/

section Sets

variable {label : PsiResource} {line : List CString} {sets : List (PsiGauge × Nat)}
  {gauges : PsiGauges Double}

theorem promGaugeSet_of_ne {gauge gauge' : PsiGauge} (h : gauge' ≠ gauge) (value : Double) :
    promGaugeSet gauges gauge value label gauge' = gauges gauge' :=
  Function.update_of_ne h _ _

theorem promGaugeSet_self (gauge : PsiGauge) (value : Double) :
    promGaugeSet gauges gauge value label gauge label = some value := by
  rw [promGaugeSet, Function.update_self, Function.update_self]

theorem promGaugeSet_of_label_ne {label' : PsiResource} (h : label' ≠ label)
    (gauge gauge' : PsiGauge) (value : Double) :
    promGaugeSet gauges gauge value label gauge' label' = gauges gauge' label' := by
  by_cases hgauge : gauge' = gauge
  · rw [hgauge, promGaugeSet, Function.update_self, Function.update_of_ne h]
  · rw [promGaugeSet_of_ne hgauge]

/-- A gauge that is not in the list keeps its values. -/
theorem setPsi_of_notMem {gauge : PsiGauge} (h : gauge ∉ sets.map Prod.fst) :
    setPsi strtod toDouble label line sets gauges gauge = gauges gauge := by
  induction sets generalizing gauges with
  | nil => rfl
  | cons set sets ih =>
      rw [List.map_cons, List.mem_cons, not_or] at h
      exact (ih h.2).trans (promGaugeSet_of_ne h.1 _)

/-- A gauge keeps its values for other labels. -/
theorem setPsi_of_ne (gauge : PsiGauge) {label' : PsiResource} (h : label' ≠ label) :
    setPsi strtod toDouble label line sets gauges gauge label' = gauges gauge label' := by
  induction sets generalizing gauges with
  | nil => rfl
  | cons set sets ih => exact ih.trans (promGaugeSet_of_label_ne h _ _ _)

/-- A gauge that is in the list once has the value of its word. -/
theorem setPsi_of_mem (hnodup : (sets.map Prod.fst).Nodup) {gauge : PsiGauge} {word : Nat}
    (h : (gauge, word) ∈ sets) :
    setPsi strtod toDouble label line sets gauges gauge label =
      some (psiValue strtod toDouble (lineword line word) gauge.window) := by
  induction sets generalizing gauges with
  | nil => exact absurd h List.not_mem_nil
  | cons set sets ih =>
      obtain ⟨hset, hnodup⟩ := List.nodup_cons.mp hnodup
      obtain rfl | hmem := List.mem_cons.mp h
      · exact (congrFun (setPsi_of_notMem hset) label).trans (promGaugeSet_self gauge _)
      · exact ih hnodup hmem

end Sets

/-- What a collector sets its gauges from. -/
theorem collectPsi_text (label : PsiResource) (sets : List (PsiGauge × Nat)) (file : PsiFile)
    (gauges : PsiGauges Double) :
    collectPsi strtod toDouble label sets (some file.text) gauges =
      setPsi strtod toDouble label (file.some.words (ascii "some")) sets gauges := by
  rw [collectPsi, fileLines_text]
  rfl

theorem collectPsi_of_notMem {label : PsiResource} {sets : List (PsiGauge × Nat)}
    {gauge : PsiGauge} (h : gauge ∉ sets.map Prod.fst) (file : Option (List UInt8))
    (gauges : PsiGauges Double) :
    collectPsi strtod toDouble label sets file gauges gauge = gauges gauge := by
  cases file with
  | none => rfl
  | some content =>
      rw [collectPsi]
      split
      · rfl
      · exact setPsi_of_notMem h

/-! ## Values -/

/-- The value of a gauge for a file in which its word is not there. -/
def emptyValue (strtod : CString → Double) (toDouble : UInt64 → Double) (window : PsiWindow) :
    Double :=
  psiValue strtod toDouble [] window

/-- The word that a window of the first line stands in. -/
def someWord : PsiWindow → Nat
  | .secs10 => 2
  | .secs60 => 4
  | .secs300 => 6
  | .total => 8

/-- The word that a window of the second line is looked for in, on the first line. -/
def fullWord : PsiWindow → Nat
  | .secs10 => 10
  | .secs60 => 12
  | .secs300 => 14
  | .total => 16

theorem psiValue_someWord (file : PsiFile) (window : PsiWindow) :
    psiValue strtod toDouble (lineword (file.some.words (ascii "some")) (someWord window)) window =
      file.value strtod toDouble .some window := by
  cases window with
  | secs10 | secs60 | secs300 => rfl
  | total =>
      have htotal : str2uint64 (cString (decimal file.some.total.toNat)) = file.some.total := by
        rw [cString_decimal, str2uint64_toDigits, UInt64.ofNat_toNat]
      exact congrArg toDouble htotal

theorem psiValue_fullWord (file : PsiFile) (window : PsiWindow) :
    psiValue strtod toDouble (lineword (file.some.words (ascii "some")) (fullWord window)) window =
      emptyValue strtod toDouble window := by
  cases window
  all_goals rfl

/-- The only gauge that the collector of the memory confuses. -/
def Confused (share : PsiShare) (window : PsiWindow) : Prop := share = .some ∧ window = .secs10

/-- The gauges of the memory behind a round of the memory. -/
theorem mem_gauges (file : PsiFile) (gauges : PsiGauges Double) {share : PsiShare}
    {window : PsiWindow} (h : ¬Confused share window) :
    collectorProcPsiMem strtod toDouble (some file.text) gauges ⟨.mem, share, window⟩ .mem =
      some (match share with
        | .some => file.value strtod toDouble .some window
        | .full => emptyValue strtod toDouble window) := by
  have hnodup : (psiMemSets.map Prod.fst).Nodup := by decide
  rw [collectorProcPsiMem, collectPsi_text]
  cases share with
  | some =>
      have hmem : ((⟨.mem, .some, window⟩ : PsiGauge), someWord window) ∈ psiMemSets := by
        cases window with
        | secs10 => exact absurd ⟨rfl, rfl⟩ h
        | _ => decide
      rw [setPsi_of_mem hnodup hmem, psiValue_someWord]
  | full =>
      have hmem : ((⟨.mem, .full, window⟩ : PsiGauge), fullWord window) ∈ psiMemSets := by
        cases window
        all_goals decide
      rw [setPsi_of_mem hnodup hmem, psiValue_fullWord]

/-- The gauges of the devices behind a round of the devices. -/
theorem io_gauges (file : PsiFile) (gauges : PsiGauges Double) (share : PsiShare)
    (window : PsiWindow) :
    collectorProcPsiIo strtod toDouble (some file.text) gauges ⟨.io, share, window⟩ .io =
      some (match share with
        | .some => file.value strtod toDouble .some window
        | .full => emptyValue strtod toDouble window) := by
  have hnodup : (psiIoSets.map Prod.fst).Nodup := by decide
  rw [collectorProcPsiIo, collectPsi_text]
  cases share with
  | some =>
      have hmem : ((⟨.io, .some, window⟩ : PsiGauge), someWord window) ∈ psiIoSets := by
        cases window
        all_goals decide
      rw [setPsi_of_mem hnodup hmem, psiValue_someWord]
  | full =>
      have hmem : ((⟨.io, .full, window⟩ : PsiGauge), fullWord window) ∈ psiIoSets := by
        cases window
        all_goals decide
      rw [setPsi_of_mem hnodup hmem, psiValue_fullWord]

/-! ## Rounds -/

/-- No call sets the gauge of the ten seconds of the memory. -/
theorem collectorProcPressure_confused (st : PressureState Double) (call : PressureCall) :
    (collectorProcPressure strtod toDouble st call).gauges ⟨.mem, .some, .secs10⟩ =
      st.gauges ⟨.mem, .some, .secs10⟩ := by
  rw [collectorProcPressure]
  split
  · dsimp only
    rw [collectorProcPsiIo, collectPsi_of_notMem (by decide), collectorProcPsiMem,
      collectPsi_of_notMem (by decide), collectorProcPsiCpu, collectPsi_of_notMem (by decide)]
  · rfl

theorem pressureRun_confused (calls : List PressureCall) :
    (pressureRun strtod toDouble calls).gauges ⟨.mem, .some, .secs10⟩ = fun _ => none := by
  induction calls using List.reverseRecOn with
  | nil => rfl
  | append_singleton calls call ih =>
      rw [pressureRun, List.foldl_append]
      exact (collectorProcPressure_confused _ call).trans ih

/-- The gauges behind a round, for files in which the fields are `mem` and `io`. -/
structure Reported (strtod : CString → Double) (toDouble : UInt64 → Double)
    (gauges : PsiGauges Double) (mem io : PsiFile) : Prop where
  mem : ∀ share window,
    gauges ⟨.mem, share, window⟩ .mem = some (mem.value strtod toDouble share window)
  io : ∀ share window,
    gauges ⟨.io, share, window⟩ .io = some (io.value strtod toDouble share window)

/-- A round of the memory leaves the gauges of the devices alone. -/
def MemKeepsIo (strtod : CString → Double) (toDouble : UInt64 → Double)
    (gauges : PsiGauges Double) (file : PsiFile) : Prop :=
  ∀ share window, collectorProcPsiMem strtod toDouble (some file.text) gauges
    ⟨.io, share, window⟩ = gauges ⟨.io, share, window⟩

theorem memKeepsIo_iff (gauges : PsiGauges Double) (file : PsiFile) :
    MemKeepsIo strtod toDouble gauges file ↔
      gauges ⟨.io, .some, .secs10⟩ .mem = some (file.value strtod toDouble .some .secs10) := by
  have hset : collectorProcPsiMem strtod toDouble (some file.text) gauges
      ⟨.io, .some, .secs10⟩ .mem = some (file.value strtod toDouble .some .secs10) := by
    rw [collectorProcPsiMem, collectPsi_text,
      setPsi_of_mem (by decide) (show (⟨.io, .some, .secs10⟩, 2) ∈ psiMemSets by decide)]
    rfl
  constructor
  · intro h
    rw [← h .some .secs10, hset]
  · intro h share window
    by_cases hconfused : Confused share window
    · obtain ⟨rfl, rfl⟩ := hconfused
      funext label
      by_cases hlabel : label = .mem
      · rw [hlabel, hset, h]
      · rw [collectorProcPsiMem, collectPsi_text, setPsi_of_ne _ hlabel]
    · have hnotMem : (⟨.io, share, window⟩ : PsiGauge) ∉ psiMemSets.map Prod.fst := by
        revert hconfused
        rw [Confused]
        cases share
        all_goals
          cases window
          all_goals decide
      rw [collectorProcPsiMem, collectPsi_of_notMem hnotMem]

/-- What a collecting call shows, behind any others: the gauge of the ten seconds of the memory
is not set, and the gauges of full stalls have the values of empty words. The other gauges have
the values of their fields. A round of the memory leaves the gauges of the devices alone only if
it repeats the value that it has set last. -/
theorem pressure_round (past : List PressureCall) (call : PressureCall) (mem io : PsiFile)
    (hcollects : (pressureRun strtod toDouble past).nextPressureDt ≤ call.dt)
    (hmem : call.mem = some mem.text) (hio : call.io = some io.text) :
    ¬Reported strtod toDouble (pressureRun strtod toDouble (past ++ [call])).gauges mem io ∧
      (∀ share window,
        (pressureRun strtod toDouble (past ++ [call])).gauges ⟨.mem, share, window⟩ .mem =
            some (mem.value strtod toDouble share window) ↔
          ¬Confused share window ∧ (share = .full →
            mem.value strtod toDouble .full window = emptyValue strtod toDouble window)) ∧
      (∀ share window,
        (pressureRun strtod toDouble (past ++ [call])).gauges ⟨.io, share, window⟩ .io =
            some (io.value strtod toDouble share window) ↔
          (share = .full →
            io.value strtod toDouble .full window = emptyValue strtod toDouble window)) ∧
      (MemKeepsIo strtod toDouble (pressureRun strtod toDouble past).gauges mem ↔
        (pressureRun strtod toDouble past).gauges ⟨.io, .some, .secs10⟩ .mem =
          some (mem.value strtod toDouble .some .secs10)) := by
  have hrun : (pressureRun strtod toDouble (past ++ [call])).gauges =
      collectorProcPsiIo strtod toDouble (some io.text)
        (collectorProcPsiMem strtod toDouble (some mem.text)
          (collectorProcPsiCpu strtod toDouble call.cpu
            (pressureRun strtod toDouble past).gauges)) := by
    rw [pressureRun, List.foldl_append, List.foldl_cons, List.foldl_nil, ← pressureRun,
      collectorProcPressure, if_pos hcollects, hmem, hio]
  have hconfused (window : PsiWindow) (share : PsiShare) (h : Confused share window) :
      (pressureRun strtod toDouble (past ++ [call])).gauges ⟨.mem, share, window⟩ .mem ≠
        some (mem.value strtod toDouble share window) := by
    obtain ⟨rfl, rfl⟩ := h
    rw [pressureRun_confused]
    exact (Option.some_ne_none _).symm
  have hmemio (share : PsiShare) (window : PsiWindow) :
      (⟨.mem, share, window⟩ : PsiGauge) ∉ psiIoSets.map Prod.fst := by
    cases share
    all_goals
      cases window
      all_goals decide
  refine ⟨fun h => ?_, fun share window => ?_, fun share window => ?_, memKeepsIo_iff _ _⟩
  · exact hconfused .secs10 .some ⟨rfl, rfl⟩ (h.mem .some .secs10)
  · by_cases h : Confused share window
    · exact iff_of_false (hconfused window share h) fun hneg => hneg.1 h
    · rw [hrun, collectorProcPsiIo, collectPsi_of_notMem (hmemio share window), mem_gauges _ _ h]
      cases share with
      | some => simp [h]
      | full => simp [h, eq_comm]
  · rw [hrun, io_gauges]
    cases share with
    | some => simp
    | full => simp [eq_comm]

/-! ## A round with stalls -/

/-- Numbers with two decimals in hundredths, which an empty word has none of. -/
def hundredths (s : CString) : Nat := scanDigits id 0 (s.filter fun c => c ≠ '.')

def average (text : List UInt8) (h : text ≠ [] ∧ ∀ c ∈ text, c = 46 ∨ 48 ≤ c ∧ c ≤ 57) :
    Average :=
  ⟨text, h.1, h.2⟩

/-- Averages of 1.50 and 0.50, and a total of 7. -/
def stalled : PsiFile where
  some :=
    { avg10 := average (ascii "1.50") (by decide)
      avg60 := average (ascii "1.50") (by decide)
      avg300 := average (ascii "1.50") (by decide)
      total := 7 }
  full :=
    { avg10 := average (ascii "0.50") (by decide)
      avg60 := average (ascii "0.50") (by decide)
      avg300 := average (ascii "0.50") (by decide)
      total := 7 }

def stalledCall : PressureCall where
  updateEvery := 2
  dt := 0
  cpu := none
  mem := some stalled.text
  io := some stalled.text

theorem stalled_round :
    ¬Reported hundredths (fun n => 100 * n.toNat)
      (pressureRun hundredths (fun n => 100 * n.toNat) ([] ++ [stalledCall])).gauges
      stalled stalled :=
  (pressure_round [] stalledCall stalled stalled (by decide) rfl rfl).1

/-- The gauges of the memory behind the first round: that of ten seconds is not set, and there are
no full stalls. -/
theorem stalled_gauges :
    (pressureRun hundredths (fun n => 100 * n.toNat) [stalledCall]).gauges
        ⟨.mem, .some, .secs10⟩ .mem = none ∧
      stalled.value hundredths (fun n => 100 * n.toNat) .some .secs10 = 150 ∧
      (pressureRun hundredths (fun n => 100 * n.toNat) [stalledCall]).gauges
        ⟨.mem, .full, .secs10⟩ .mem = some 0 ∧
      stalled.value hundredths (fun n => 100 * n.toNat) .full .secs10 = 50 ∧
      ¬Reported hundredths (fun n => 100 * n.toNat)
        (pressureRun hundredths (fun n => 100 * n.toNat) [stalledCall]).gauges stalled stalled ∧
      ¬MemKeepsIo hundredths (fun n => 100 * n.toNat) (fun _ _ => none) stalled := by
  have hunset : (pressureRun hundredths (fun n => 100 * n.toNat) [stalledCall]).gauges
      ⟨.mem, .some, .secs10⟩ .mem = none :=
    congrFun (pressureRun_confused [stalledCall]) .mem
  have hfull : (pressureRun hundredths (fun n => 100 * n.toNat) [stalledCall]).gauges
      ⟨.mem, .full, .secs10⟩ .mem = some 0 := by
    change collectorProcPsiIo hundredths (fun n => 100 * n.toNat) (some stalled.text)
      (collectorProcPsiMem hundredths (fun n => 100 * n.toNat) (some stalled.text)
        (collectorProcPsiCpu hundredths (fun n => 100 * n.toNat) none fun _ _ => none))
      ⟨.mem, .full, .secs10⟩ .mem = some 0
    rw [collectorProcPsiIo, collectPsi_of_notMem (by decide),
      mem_gauges stalled _ fun h => PsiShare.noConfusion h.1]
    rfl
  have hkeeps : ¬MemKeepsIo hundredths (fun n => 100 * n.toNat) (fun _ _ => none) stalled := by
    rw [memKeepsIo_iff]
    exact (Option.some_ne_none _).symm
  exact ⟨hunset, rfl, hfull, rfl,
    fun h => Option.some_ne_none _ ((h.mem .some .secs10).symm.trans hunset), hkeeps⟩

end XMonitor.Pressure
