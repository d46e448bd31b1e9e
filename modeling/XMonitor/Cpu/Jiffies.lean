import Mathlib.Data.List.Induction
import Mathlib.Logic.Function.Basic
import XMonitor.Cpu.CpuIndex

/-!
# The jiffies of the CPUs

In each round `collector_proc_stat` adds to the counters of a CPU how much each field has
grown since the line of the CPU before. The differences are taken modulo `2 ^ 64`, so that a
field that falls adds almost all of `2 ^ 64`.
-/

namespace XMonitor.Cpu

/-! ## The source -/

/-- The modes of `node_cpu_jiffies`, which are the fields of `struct proc_cpu_rdset`. -/
inductive Mode where
  | user
  | nice
  | system
  | idle
  | iowait
  | irq
  | softirq
  | steal
  | guest
  | guestNice
  | total
  deriving DecidableEq

namespace Mode

/-- The modes in the order of the source. -/
def all : List Mode :=
  [user, nice, system, idle, iowait, irq, softirq, steal, guest, guestNice, total]

theorem mem_all (m : Mode) : m ∈ all := by
  cases m
  all_goals decide

end Mode

abbrev ProcCpuRdset := Mode → UInt64

/-- The values that `__do_cpu_utilization` computes from a line. -/
def cpuJiffies (line : List CString) : ProcCpuRdset :=
  let word := fun i => str2uint64 (lineword line i)
  let user := word 1 - word 9
  let nice := word 2 - word 10
  fun
  | .user => user
  | .nice => nice
  | .system => word 3
  | .idle => word 4
  | .iowait => word 5
  | .irq => word 6
  | .softirq => word 7
  | .steal => word 8
  | .guest => word 9
  | .guestNice => word 10
  | .total => user + nice + word 3 + word 4 + word 5 + word 6 + word 7 + word 8

/-- One call of `prom_counter_add`, before the amount is converted to `double`. -/
structure CounterAdd where
  cpuLabel : CString
  mode : Mode
  amount : UInt64

/-- The part of `__do_cpu_utilization` that works on the values of the last line. -/
def doCpuUtilization (rdset : ProcCpuRdset) (line : List CString) (cpuLabel : CString) :
    ProcCpuRdset × List CounterAdd :=
  (cpuJiffies line, Mode.all.map fun m => ⟨cpuLabel, m, cpuJiffies line m - rdset m⟩)

/-- The values of all CPUs together or of one of them. -/
inductive Slot where
  | cpu
  | core (cpuId : UInt32)
  deriving DecidableEq

/-- `struct proc_stat_rdset`, as far as the jiffies go, with the length of `core_rdsets`. -/
structure ProcStatRdset where
  cpuCoresNum : Nat
  rdsets : Slot → ProcCpuRdset

/-- `init_proc_rdset`. -/
def initProcRdset (cpuCoresNum : Nat) : ProcStatRdset := ⟨cpuCoresNum, fun _ _ => 0⟩

/-- The slot of a line, if it is about a CPU and long enough. -/
def statSlot (line : List CString) : Option Slot :=
  let rowName := lineword line 0
  if cpuMark <+: rowName then
    if line.length < 10 then none
    else if rowName.length = 3 then some .cpu
    else some (.core (str2uint32 (rowName.drop 3)))
  else none

/-- The array has an element for the slot. -/
def Slot.InRange (cpuCoresNum : Nat) : Slot → Prop
  | cpu => True
  | core cpuId => cpuId.toNat < cpuCoresNum

instance (cpuCoresNum : Nat) : (slot : Slot) → Decidable (slot.InRange cpuCoresNum)
  | .cpu => .isTrue trivial
  | .core cpuId => inferInstanceAs (Decidable (cpuId.toNat < cpuCoresNum))

/-- The loop body of `collector_proc_stat` for a line, and what it adds; `none` if it goes
beyond `core_rdsets`. -/
def collectLine (st : ProcStatRdset) (line : List CString) :
    Option (ProcStatRdset × List CounterAdd) :=
  match statSlot line with
  | none => some (st, [])
  | some slot =>
      if slot.InRange st.cpuCoresNum then
        let rowName := lineword line 0
        let cpuLabel := if slot = .cpu then rowName else rowName.drop 3
        let result := doCpuUtilization (st.rdsets slot) line cpuLabel
        some ({ st with rdsets := Function.update st.rdsets slot result.1 }, result.2)
      else none

/-! ## Amounts -/

/-- The field of a mode, as the kernel states it: guests are counted apart. The sum of the
eight is one of 64 bits. -/
def fieldValue (line : List CString) : Mode → Nat
  | .user => (str2uint64 (lineword line 1)).toNat - (str2uint64 (lineword line 9)).toNat
  | .nice => (str2uint64 (lineword line 2)).toNat - (str2uint64 (lineword line 10)).toNat
  | m => (cpuJiffies line m).toNat

/-- The time of guests is a part of the time of users. -/
def GuestsWithin (line : List CString) : Prop :=
  str2uint64 (lineword line 9) ≤ str2uint64 (lineword line 1) ∧
    str2uint64 (lineword line 10) ≤ str2uint64 (lineword line 2)

instance : DecidablePred GuestsWithin := fun _ => inferInstanceAs (Decidable (_ ∧ _))

/-- All lines are collected, and what is added for a line is at most the value of its field. -/
def AmountsWithin (st : ProcStatRdset) : ProcFile → Prop
  | [] => True
  | line :: lines =>
      ∃ st' adds, collectLine st line = some (st', adds) ∧
        (∀ a ∈ adds, a.amount.toNat ≤ fieldValue line a.mode) ∧ AmountsWithin st' lines

/-- The values that the last line of a slot has stated, zero if there was none. -/
def lastValue (slot : Slot) (lines : ProcFile) (m : Mode) : Nat :=
  ((lines.filter fun line => statSlot line = some slot).getLast?.map fun line =>
    fieldValue line m).getD 0

/-- No field is below its value in the line of the CPU before, and there is an element for
each CPU. -/
def NeverFall (cpuCoresNum : Nat) (lines : ProcFile) : Prop :=
  ∀ past line rest, lines = past ++ line :: rest → ∀ slot, statSlot line = some slot →
    slot.InRange cpuCoresNum ∧ ∀ m, lastValue slot past m ≤ fieldValue line m

theorem toNat_cpuJiffies {line : List CString} (h : GuestsWithin line) (m : Mode) :
    (cpuJiffies line m).toNat = fieldValue line m := by
  cases m with
  | user => exact UInt64.toNat_sub_of_le _ _ h.1
  | nice => exact UInt64.toNat_sub_of_le _ _ h.2
  | _ => rfl

/-- A difference modulo `2 ^ 64` is at most the first number exactly if it does not wrap. -/
theorem toNat_sub_le_iff (a b : UInt64) : (a - b).toNat ≤ a.toNat ↔ b.toNat ≤ a.toNat := by
  have hlt := b.toNat_lt
  rw [UInt64.toNat_sub]
  omega

theorem lastValue_concat (slot : Slot) (past : ProcFile) (line : List CString) (m : Mode) :
    lastValue slot (past ++ [line]) m =
      if statSlot line = some slot then fieldValue line m else lastValue slot past m := by
  by_cases h : statSlot line = some slot
  · simp [lastValue, h]
  · simp [lastValue, h]

/-- The elements of the array hold the last values. -/
structure Remembers (st : ProcStatRdset) (cpuCoresNum : Nat) (past : ProcFile) : Prop where
  cores : st.cpuCoresNum = cpuCoresNum
  rdsets : ∀ slot m, (st.rdsets slot m).toNat = lastValue slot past m

theorem remembers_init (cpuCoresNum : Nat) :
    Remembers (initProcRdset cpuCoresNum) cpuCoresNum [] where
  cores := rfl
  rdsets _ _ := rfl

/-- What a line that is about a CPU does. -/
theorem collectLine_slot {st : ProcStatRdset} {line : List CString} {slot : Slot}
    (hslot : statSlot line = some slot) (hrange : slot.InRange st.cpuCoresNum) :
    ∃ cpuLabel, collectLine st line =
      some ({ st with rdsets := Function.update st.rdsets slot (cpuJiffies line) },
        Mode.all.map fun m => ⟨cpuLabel, m, cpuJiffies line m - st.rdsets slot m⟩) := by
  rw [collectLine, hslot]
  exact ⟨_, if_pos hrange⟩

/-- A line about a CPU without an element is not collected. -/
theorem inRange_of_collectLine {st : ProcStatRdset} {line : List CString} {slot : Slot}
    (hslot : statSlot line = some slot) {collected : ProcStatRdset × List CounterAdd}
    (h : collectLine st line = some collected) : slot.InRange st.cpuCoresNum := by
  by_contra hnot
  rw [collectLine, hslot] at h
  exact absurd (h.symm.trans (if_neg hnot)) (Option.some_ne_none _)

theorem Remembers.collect {st : ProcStatRdset} {cpuCoresNum : Nat} {past : ProcFile}
    {line : List CString} {slot : Slot} (h : Remembers st cpuCoresNum past)
    (hguests : GuestsWithin line) (hslot : statSlot line = some slot) :
    Remembers { st with rdsets := Function.update st.rdsets slot (cpuJiffies line) } cpuCoresNum
      (past ++ [line]) where
  cores := h.cores
  rdsets slot' m := by
    rw [lastValue_concat, hslot]
    by_cases heq : slot' = slot
    · subst heq
      rw [if_pos rfl]
      show (Function.update st.rdsets slot' (cpuJiffies line) slot' m).toNat = _
      rw [Function.update_self, toNat_cpuJiffies hguests]
    · rw [if_neg fun hsome => heq (Option.some.inj hsome).symm]
      show (Function.update st.rdsets slot (cpuJiffies line) slot' m).toNat = _
      rw [Function.update_of_ne heq, h.rdsets]

theorem Remembers.skip {st : ProcStatRdset} {cpuCoresNum : Nat} {past : ProcFile}
    {line : List CString} (h : Remembers st cpuCoresNum past) (hslot : statSlot line = none) :
    Remembers st cpuCoresNum (past ++ [line]) where
  cores := h.cores
  rdsets slot m := by
    rw [lastValue_concat, hslot, if_neg (Option.some_ne_none slot).symm, h.rdsets]

/-- What is added for a line is within its fields exactly if none of them has fallen. -/
theorem amounts_le_iff {st : ProcStatRdset} {cpuCoresNum : Nat} {past : ProcFile}
    {line : List CString} {slot : Slot} (h : Remembers st cpuCoresNum past)
    (hguests : GuestsWithin line) (cpuLabel : CString) :
    (∀ a ∈ Mode.all.map fun m =>
        CounterAdd.mk cpuLabel m (cpuJiffies line m - st.rdsets slot m),
        a.amount.toNat ≤ fieldValue line a.mode) ↔
      ∀ m, lastValue slot past m ≤ fieldValue line m := by
  rw [List.forall_mem_map]
  constructor
  · intro hall m
    have hle := hall m m.mem_all
    rw [← toNat_cpuJiffies hguests, toNat_sub_le_iff, h.rdsets, toNat_cpuJiffies hguests] at hle
    exact hle
  · intro hall m _
    have hle := hall m
    rw [← toNat_cpuJiffies hguests, ← h.rdsets, ← toNat_sub_le_iff] at hle
    rw [← toNat_cpuJiffies hguests]
    exact hle

/-- A line, and the lines behind it. -/
theorem forall_cons_split_iff {α : Type} {p : List α → α → Prop} {x : α} {xs : List α} :
    (∀ past y rest, x :: xs = past ++ y :: rest → p past y) ↔
      p [] x ∧ ∀ past y rest, xs = past ++ y :: rest → p (x :: past) y := by
  constructor
  · intro h
    refine ⟨h [] x xs rfl, fun past y rest heq => h (x :: past) y rest ?_⟩
    rw [heq]
    rfl
  · rintro ⟨hx, hxs⟩ past y rest heq
    cases past with
    | nil =>
        obtain ⟨rfl, -⟩ := List.cons.inj heq
        exact hx
    | cons x' past =>
        obtain ⟨rfl, htail⟩ := List.cons.inj heq
        exact hxs past y rest htail

/-- The lines from some point on. -/
theorem amountsWithin_iff_of_remembers {cpuCoresNum : Nat} {st : ProcStatRdset}
    {past lines : ProcFile} (h : Remembers st cpuCoresNum past)
    (hguests : ∀ line ∈ lines, GuestsWithin line) :
    AmountsWithin st lines ↔
      ∀ front line rest, lines = front ++ line :: rest → ∀ slot, statSlot line = some slot →
        slot.InRange cpuCoresNum ∧
          ∀ m, lastValue slot (past ++ front) m ≤ fieldValue line m := by
  induction lines generalizing st past with
  | nil =>
      refine iff_of_true trivial fun front line rest heq => ?_
      exact absurd heq.symm (List.append_ne_nil_of_right_ne_nil _ (List.cons_ne_nil _ _))
  | cons line lines ih =>
      obtain ⟨hline, hlines⟩ := List.forall_mem_cons.mp hguests
      rw [forall_cons_split_iff, AmountsWithin, List.append_nil]
      cases hslot : statSlot line with
      | none =>
          have hcollect : collectLine st line = some (st, []) := by rw [collectLine, hslot]
          have htail := ih (h.skip hslot) hlines
          simp only [List.append_assoc, List.singleton_append] at htail
          rw [← htail, hcollect]
          constructor
          · rintro ⟨st', adds, hst', -, hwithin⟩
            obtain ⟨rfl, -⟩ := Prod.mk.inj (Option.some.inj hst')
            exact ⟨fun slot hsome => absurd hsome.symm (Option.some_ne_none slot), hwithin⟩
          · rintro ⟨-, hwithin⟩
            exact ⟨st, [], rfl, fun a ha => absurd ha List.not_mem_nil, hwithin⟩
      | some slot =>
          have htail := ih (h.collect hline hslot) hlines
          simp only [List.append_assoc, List.singleton_append] at htail
          rw [← htail]
          constructor
          · rintro ⟨st', adds, hst', hadds, hwithin⟩
            have hrange := inRange_of_collectLine hslot hst'
            obtain ⟨cpuLabel, hcollect⟩ := collectLine_slot hslot hrange
            rw [hcollect] at hst'
            obtain ⟨rfl, rfl⟩ := Prod.mk.inj (Option.some.inj hst')
            refine ⟨fun slot' hsome => ?_, hwithin⟩
            obtain rfl := Option.some.inj hsome
            rw [← h.cores]
            exact ⟨hrange, (amounts_le_iff h hline cpuLabel).mp hadds⟩
          · rintro ⟨hfields, hwithin⟩
            obtain ⟨hrange, hle⟩ := hfields slot rfl
            rw [← h.cores] at hrange
            obtain ⟨cpuLabel, hcollect⟩ := collectLine_slot hslot hrange
            exact ⟨_, _, hcollect, (amounts_le_iff h hline cpuLabel).mpr hle, hwithin⟩

/-- A line about the first CPU with some time waiting for input and output. -/
def waitingLine (iowait : Nat) : List CString :=
  (cpuMark ++ ['0']) ::
    ["7".toList, "0".toList, "3".toList, "90".toList, Nat.toDigits 10 iowait] ++
    List.replicate 5 ['0']

/-- Two rounds in which this time grows. -/
def growingRounds : List ProcFile := [[waitingLine 3], [waitingLine 5]]

end XMonitor.Cpu
