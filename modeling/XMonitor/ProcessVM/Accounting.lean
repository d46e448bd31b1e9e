import XMonitor.Lib.EventRun
import XMonitor.ProcessVM.Probes
import Mathlib.Data.Finset.Card
import Mathlib.Logic.Function.Basic
import Mathlib.Order.Interval.Finset.Nat

/-!
# The accounting of mapped memory

`handlingeBPFData` of `processVMProgram` keeps a record for each process: the start
addresses of its mappings, and the sizes of its mappings and of its heap, which the
events of the kernel raise and lower.

An unmapping lowers the size by its whole length if a mapping starts at its address, or
ends there and is as long, and not at all otherwise. An event with another command name
starts a new record.
-/

namespace XMonitor.ProcessVM

/-- `processVM`. -/
structure Pvm where
  pid : UInt32
  comm : CString
  mmapAddrSet : Finset UInt64
  brkSize : Int64
  mmapSize : Int64

/-- A new record with its first event. -/
def Pvm.create (data : EvtData) : Pvm :=
  let pvm : Pvm :=
    { pid := data.pid
      comm := data.comm
      mmapAddrSet := ∅
      brkSize := 0
      mmapSize := 0 }
  match data.evtType with
  | .mmapAnonPriv | .mmapShared =>
      { pvm with mmapSize := data.len.toInt64, mmapAddrSet := insert data.addr pvm.mmapAddrSet }
  | .brk => { pvm with brkSize := data.len.toInt64 }
  | _ => pvm

/-- An event of the command that the record is about. -/
def Pvm.update (pvm : Pvm) (data : EvtData) : Pvm :=
  match data.evtType with
  | .mmapAnonPriv | .mmapShared =>
      { pvm with
        mmapAddrSet := insert data.addr pvm.mmapAddrSet
        mmapSize := pvm.mmapSize + data.len.toInt64 }
  | .brk => { pvm with brkSize := pvm.brkSize + data.len.toInt64 }
  | .brkShrink => { pvm with brkSize := pvm.brkSize - data.len.toInt64 }
  | .munmap =>
      if data.addr ∈ pvm.mmapAddrSet then
        { pvm with
          mmapAddrSet := pvm.mmapAddrSet.erase data.addr
          mmapSize := pvm.mmapSize - data.len.toInt64 }
      else if data.addr - data.len ∈ pvm.mmapAddrSet then
        { pvm with mmapSize := pvm.mmapSize - data.len.toInt64 }
      else pvm
  | .none => pvm

def account (record : Option Pvm) (data : EvtData) : Pvm :=
  match record with
  | none => .create data
  | some pvm => if pvm.comm = data.comm then pvm.update data else .create data

/-- `processVMMap`. -/
abbrev ProcessVMMap := UInt32 → Option Pvm

/-- A round of `handlingeBPFData` that receives an event of the kernel. -/
def handle (commFilter : CString → Bool) (m : ProcessVMMap) (data : EvtData) : ProcessVMMap :=
  if commFilter data.comm then Function.update m data.pid (some (account (m data.pid) data))
  else m

/-- The record of a process after some events. -/
def recordOf (commFilter : CString → Bool) (pid : UInt32) (events : List EvtData) :
    Option Pvm :=
  events.foldl (handle commFilter) (fun _ => none) pid

/-! ## The address space -/

/-- The bytes that the reported mappings of a process hold, and the size of its heap. -/
structure Space where
  mapped : Finset Nat := ∅
  heap : Int := 0

def EvtData.range (data : EvtData) : Finset Nat :=
  Finset.Ico data.addr.toNat (data.addr.toNat + data.len.toNat)

def Space.after (sp : Space) (data : EvtData) : Space :=
  match data.evtType with
  | .mmapAnonPriv | .mmapShared => { sp with mapped := sp.mapped ∪ data.range }
  | .munmap => { sp with mapped := sp.mapped \ data.range }
  | .brk => { sp with heap := sp.heap + data.len.toNat }
  | .brkShrink => { sp with heap := sp.heap - data.len.toNat }
  | .none => sp

/-- A mapping is disjoint from what is mapped. -/
def Space.Fresh (sp : Space) (data : EvtData) : Prop :=
  data.evtType = .mmapAnonPriv ∨ data.evtType = .mmapShared → Disjoint sp.mapped data.range

/-- The sizes are in the range of `int64`. -/
structure Space.Fits (sp : Space) : Prop where
  mapped : sp.mapped.card < 2 ^ 63
  heap : -2 ^ 63 ≤ sp.heap ∧ sp.heap < 2 ^ 63

/-- The record has the sizes of the address space. Without a record, both are zero. -/
structure Exact (record : Option Pvm) (sp : Space) : Prop where
  mmapSize : ((record.map Pvm.mmapSize).getD 0).toInt = sp.mapped.card
  brkSize : ((record.map Pvm.brkSize).getD 0).toInt = sp.heap

/-- The handler remembers a mapping that starts at the address, or at the address less the
length. -/
def Pvm.Remembers (pvm : Pvm) (data : EvtData) : Prop :=
  data.addr ∈ pvm.mmapAddrSet ∨ data.addr - data.len ∈ pvm.mmapAddrSet

/-- An unmapping lowers the size by what it unmaps: all of its range if the handler
remembers a mapping, and nothing otherwise. -/
structure UnmapsRight (pvm : Pvm) (sp : Space) (data : EvtData) : Prop where
  all : pvm.Remembers data → data.range ⊆ sp.mapped
  none : ¬ pvm.Remembers data → Disjoint sp.mapped data.range

/-- Nothing is left for a new record to forget. -/
structure StartsRight (sp : Space) (data : EvtData) : Prop where
  mapped : if data.evtType = .munmap then sp.mapped ⊆ data.range else sp.mapped = ∅
  heap : sp.heap = if data.evtType = .brkShrink then data.len.toNat else 0

/-- The sizes stay in range. The event is of the command that the record is about, and
unmaps all or nothing; or a new record starts with it and nothing is forgotten. -/
structure KeptExact (record : Option Pvm) (sp : Space) (data : EvtData) : Prop where
  fits : (sp.after data).Fits
  same : ∀ pvm, record = some pvm → pvm.comm = data.comm → data.evtType = .munmap →
    UnmapsRight pvm sp data
  fresh : (∀ pvm, record = some pvm → pvm.comm ≠ data.comm) → StartsRight sp data

/-! ## Sizes -/

theorem toInt_ofInt_iff {u v : Int} :
    (Int64.ofInt u).toInt = v ↔ -2 ^ 63 ≤ v ∧ v < 2 ^ 63 ∧ 2 ^ 64 ∣ u - v := by
  rw [Int64.toInt_ofInt, Int.bmod_def, Int64.size]
  split <;> omega

theorem toInt64_eq (n : UInt64) : n.toInt64 = Int64.ofInt n.toNat := by
  rw [Int64.ofInt_eq_ofNat, ← UInt64.toInt64_ofNat', UInt64.ofNat_toNat]

section Sizes

variable {x : Int64} {u v : Int}

theorem toInt_eq_iff (h : x.toInt = u) : x.toInt = v ↔ -2 ^ 63 ≤ v ∧ v < 2 ^ 63 ∧ u = v := by
  have hle := x.le_toInt
  have hlt := x.toInt_lt
  omega

theorem toInt_add_iff (h : x.toInt = u) (n : UInt64) :
    (x + n.toInt64).toInt = v ↔ -2 ^ 63 ≤ v ∧ v < 2 ^ 63 ∧ 2 ^ 64 ∣ u + n.toNat - v := by
  rw [← x.ofInt_toInt, h, toInt64_eq, ← Int64.ofInt_add]
  exact toInt_ofInt_iff

theorem toInt_sub_iff (h : x.toInt = u) (n : UInt64) :
    (x - n.toInt64).toInt = v ↔ -2 ^ 63 ≤ v ∧ v < 2 ^ 63 ∧ 2 ^ 64 ∣ u - n.toNat - v := by
  rw [← x.ofInt_toInt, h, toInt64_eq, ← Int64.ofInt_sub]
  exact toInt_ofInt_iff

theorem toInt64_iff (n : UInt64) :
    n.toInt64.toInt = v ↔ -2 ^ 63 ≤ v ∧ v < 2 ^ 63 ∧ 2 ^ 64 ∣ n.toNat - v := by
  rw [toInt64_eq]
  exact toInt_ofInt_iff

end Sizes

/-! ## Ranges -/

section Ranges

variable {sp : Space} {data : EvtData}

@[simp] theorem card_range (data : EvtData) : data.range.card = data.len.toNat := by
  rw [EvtData.range, Nat.card_Ico, Nat.add_sub_cancel_left]

theorem card_union_range (h : Disjoint sp.mapped data.range) :
    (sp.mapped ∪ data.range).card = sp.mapped.card + data.len.toNat := by
  rw [Finset.card_union_of_disjoint h, card_range]

/-- A range splits into what it unmaps and what was not mapped. -/
theorem card_sdiff_range (sp : Space) (data : EvtData) :
    (sp.mapped \ data.range).card + (sp.mapped ∩ data.range).card = sp.mapped.card :=
  Finset.card_sdiff_add_card_inter ..

theorem card_inter_range_le (sp : Space) (data : EvtData) :
    (sp.mapped ∩ data.range).card ≤ data.len.toNat := by
  rw [← card_range]
  exact Finset.card_le_card Finset.inter_subset_right

theorem range_subset_iff :
    data.range ⊆ sp.mapped ↔ (sp.mapped ∩ data.range).card = data.len.toNat := by
  rw [← Finset.inter_eq_right, ← card_range]
  constructor
  · intro h
    rw [h]
  · intro h
    exact Finset.eq_of_subset_of_card_le Finset.inter_subset_right h.ge

theorem disjoint_range_iff :
    Disjoint sp.mapped data.range ↔ (sp.mapped ∩ data.range).card = 0 := by
  rw [Finset.disjoint_iff_inter_eq_empty, Finset.card_eq_zero]

end Ranges

/-! ## An event of the command that the record is about -/

section Update

variable {pvm : Pvm} {sp : Space} {data : EvtData}

theorem brkSize_update_iff (h : pvm.brkSize.toInt = sp.heap) :
    (pvm.update data).brkSize.toInt = (sp.after data).heap ↔
      -2 ^ 63 ≤ (sp.after data).heap ∧ (sp.after data).heap < 2 ^ 63 := by
  have hkeep : pvm.brkSize.toInt = sp.heap ↔ -2 ^ 63 ≤ sp.heap ∧ sp.heap < 2 ^ 63 := by
    rw [toInt_eq_iff h]
    omega
  cases hevt : data.evtType with
  | brk =>
      simp only [Pvm.update, Space.after, hevt]
      rw [toInt_add_iff h]
      omega
  | brkShrink =>
      simp only [Pvm.update, Space.after, hevt]
      rw [toInt_sub_iff h]
      omega
  | munmap =>
      simp only [Pvm.update, Space.after, hevt]
      split
      · exact hkeep
      · split <;> exact hkeep
  | none => simpa only [Pvm.update, Space.after, hevt] using hkeep
  | mmapAnonPriv => simpa only [Pvm.update, Space.after, hevt] using hkeep
  | mmapShared => simpa only [Pvm.update, Space.after, hevt] using hkeep

theorem mmapSize_map_iff (h : pvm.mmapSize.toInt = sp.mapped.card)
    (hfresh : Disjoint sp.mapped data.range) :
    (pvm.mmapSize + data.len.toInt64).toInt = (sp.mapped ∪ data.range).card ↔
      (sp.mapped ∪ data.range).card < 2 ^ 63 := by
  rw [toInt_add_iff h, card_union_range hfresh]
  omega

theorem unmapsRight_of_remembers (h : pvm.Remembers data) :
    UnmapsRight pvm sp data ↔ data.range ⊆ sp.mapped :=
  ⟨fun hright => hright.all h, fun hall => ⟨fun _ => hall, fun hno => absurd h hno⟩⟩

theorem unmapsRight_of_not_remembers (h : ¬ pvm.Remembers data) :
    UnmapsRight pvm sp data ↔ Disjoint sp.mapped data.range :=
  ⟨fun hright => hright.none h, fun hnone => ⟨fun hyes => absurd hyes h, fun _ => hnone⟩⟩

theorem update_munmap_mmapSize (hevt : data.evtType = .munmap) (h : pvm.Remembers data) :
    (pvm.update data).mmapSize = pvm.mmapSize - data.len.toInt64 := by
  simp only [Pvm.update, hevt]
  split
  · rfl
  next hno => rw [if_pos (h.resolve_left hno)]

theorem update_munmap_of_not_remembers (hevt : data.evtType = .munmap)
    (h : ¬ pvm.Remembers data) : pvm.update data = pvm := by
  obtain ⟨haddr, hprev⟩ := not_or.mp h
  simp only [Pvm.update, hevt]
  rw [if_neg haddr, if_neg hprev]

/-- The size after an unmapping is right if and only if it unmaps all or nothing. -/
theorem mmapSize_unmap_iff (h : pvm.mmapSize.toInt = sp.mapped.card)
    (hevt : data.evtType = .munmap) :
    (pvm.update data).mmapSize.toInt = (sp.mapped \ data.range).card ↔
      UnmapsRight pvm sp data := by
  have hsplit := card_sdiff_range sp data
  have hle := card_inter_range_le sp data
  have hlen := data.len.toNat_lt
  have hfits := pvm.mmapSize.toInt_lt
  by_cases hr : pvm.Remembers data
  · rw [update_munmap_mmapSize hevt hr, toInt_sub_iff h, unmapsRight_of_remembers hr,
      range_subset_iff]
    omega
  · rw [update_munmap_of_not_remembers hevt hr, toInt_eq_iff h, unmapsRight_of_not_remembers hr,
      disjoint_range_iff]
    omega

theorem mmapSize_update_iff (h : pvm.mmapSize.toInt = sp.mapped.card) (hfresh : sp.Fresh data) :
    (pvm.update data).mmapSize.toInt = (sp.after data).mapped.card ↔
      (sp.after data).mapped.card < 2 ^ 63 ∧
        (data.evtType = .munmap → UnmapsRight pvm sp data) := by
  have hkeep : pvm.mmapSize.toInt = sp.mapped.card ↔ sp.mapped.card < 2 ^ 63 := by
    rw [toInt_eq_iff h]
    omega
  cases hevt : data.evtType with
  | mmapAnonPriv =>
      simp only [Pvm.update, Space.after, hevt, reduceCtorEq, false_implies, and_true]
      exact mmapSize_map_iff h (hfresh (.inl hevt))
  | mmapShared =>
      simp only [Pvm.update, Space.after, hevt, reduceCtorEq, false_implies, and_true]
      exact mmapSize_map_iff h (hfresh (.inr hevt))
  | munmap =>
      have hfits := pvm.mmapSize.toInt_lt
      have hsplit := card_sdiff_range sp data
      have hafter : (sp.after data).mapped = sp.mapped \ data.range := by
        simp only [Space.after, hevt]
      rw [hafter, mmapSize_unmap_iff h hevt]
      constructor
      · intro hright
        exact ⟨by omega, fun _ => hright⟩
      · rintro ⟨-, hright⟩
        exact hright rfl
  | brk => simpa [Pvm.update, Space.after, hevt] using hkeep
  | brkShrink => simpa [Pvm.update, Space.after, hevt] using hkeep
  | none => simpa [Pvm.update, Space.after, hevt] using hkeep

end Update

/-! ## An event that a new record starts with -/

section Create

variable {sp : Space} {data : EvtData}

theorem mmapSize_create_map_iff (hfresh : Disjoint sp.mapped data.range) :
    data.len.toInt64.toInt = (sp.mapped ∪ data.range).card ↔
      (sp.mapped ∪ data.range).card < 2 ^ 63 ∧ sp.mapped = ∅ := by
  rw [toInt64_iff, card_union_range hfresh, ← Finset.card_eq_zero]
  omega

theorem mmapSize_create_iff (hfresh : sp.Fresh data) :
    (Pvm.create data).mmapSize.toInt = (sp.after data).mapped.card ↔
      (sp.after data).mapped.card < 2 ^ 63 ∧
        if data.evtType = .munmap then sp.mapped ⊆ data.range else sp.mapped = ∅ := by
  have hnothing : ∀ s : Finset Nat, (0 : Int64).toInt = s.card ↔ s.card < 2 ^ 63 ∧ s = ∅ := by
    intro s
    rw [Int64.toInt_zero, ← Finset.card_eq_zero]
    omega
  cases hevt : data.evtType with
  | mmapAnonPriv =>
      simp only [Pvm.create, Space.after, hevt, reduceCtorEq, if_false]
      exact mmapSize_create_map_iff (hfresh (.inl hevt))
  | mmapShared =>
      simp only [Pvm.create, Space.after, hevt, reduceCtorEq, if_false]
      exact mmapSize_create_map_iff (hfresh (.inr hevt))
  | munmap =>
      simp only [Pvm.create, Space.after, hevt, if_true]
      rw [hnothing, Finset.sdiff_eq_empty_iff_subset]
  | brk => simpa only [Pvm.create, Space.after, hevt, reduceCtorEq, if_false] using hnothing _
  | brkShrink => simpa only [Pvm.create, Space.after, hevt, reduceCtorEq, if_false] using hnothing _
  | none => simpa only [Pvm.create, Space.after, hevt, reduceCtorEq, if_false] using hnothing _

theorem brkSize_create_iff (hheap : -2 ^ 63 ≤ sp.heap ∧ sp.heap < 2 ^ 63) :
    (Pvm.create data).brkSize.toInt = (sp.after data).heap ↔
      (-2 ^ 63 ≤ (sp.after data).heap ∧ (sp.after data).heap < 2 ^ 63) ∧
        sp.heap = if data.evtType = .brkShrink then data.len.toNat else 0 := by
  have hlen := data.len.toNat_lt
  cases hevt : data.evtType with
  | brk =>
      simp only [Pvm.create, Space.after, hevt, reduceCtorEq, if_false]
      rw [toInt64_iff]
      omega
  | _ =>
      simp only [Pvm.create, Space.after, hevt, reduceCtorEq, if_false, if_true]
      rw [Int64.toInt_zero]
      omega

/-- The sizes of a new record are right if and only if nothing is forgotten. -/
theorem exact_create_iff (hheap : -2 ^ 63 ≤ sp.heap ∧ sp.heap < 2 ^ 63) (hfresh : sp.Fresh data) :
    Exact (some (.create data)) (sp.after data) ↔ (sp.after data).Fits ∧ StartsRight sp data := by
  constructor
  · rintro ⟨hmmap, hbrk⟩
    obtain ⟨hcard, hmapped⟩ := (mmapSize_create_iff hfresh).mp hmmap
    obtain ⟨hrange, hstart⟩ := (brkSize_create_iff hheap).mp hbrk
    exact ⟨⟨hcard, hrange⟩, hmapped, hstart⟩
  · rintro ⟨hfits, hright⟩
    refine ⟨?_, ?_⟩
    · exact (mmapSize_create_iff hfresh).mpr ⟨hfits.mapped, hright.mapped⟩
    · exact (brkSize_create_iff hheap).mpr ⟨hfits.heap, hright.heap⟩

end Create

theorem exact_update_iff {pvm : Pvm} {sp : Space} {data : EvtData} (h : Exact (some pvm) sp)
    (hfresh : sp.Fresh data) :
    Exact (some (pvm.update data)) (sp.after data) ↔
      (sp.after data).Fits ∧ (data.evtType = .munmap → UnmapsRight pvm sp data) := by
  constructor
  · rintro ⟨hmmap, hbrk⟩
    obtain ⟨hcard, hright⟩ := (mmapSize_update_iff h.mmapSize hfresh).mp hmmap
    exact ⟨⟨hcard, (brkSize_update_iff h.brkSize).mp hbrk⟩, hright⟩
  · rintro ⟨hfits, hright⟩
    refine ⟨?_, ?_⟩
    · exact (mmapSize_update_iff h.mmapSize hfresh).mpr ⟨hfits.mapped, hright⟩
    · exact (brkSize_update_iff h.brkSize).mpr hfits.heap

/-! ## Every event of a run -/

/-- An event keeps the sizes right if and only if it meets the condition. -/
theorem exact_account_iff {record : Option Pvm} {sp : Space} {data : EvtData}
    (h : Exact record sp) (hfresh : sp.Fresh data) :
    Exact (some (account record data)) (sp.after data) ↔ KeptExact record sp data := by
  have hheap : -2 ^ 63 ≤ sp.heap ∧ sp.heap < 2 ^ 63 := by
    rw [← h.brkSize]
    exact ⟨Int64.le_toInt _, Int64.toInt_lt _⟩
  have hcreate : Exact (some (.create data)) (sp.after data) ↔
      (sp.after data).Fits ∧ StartsRight sp data := exact_create_iff hheap hfresh
  cases record with
  | none =>
      rw [account, hcreate]
      exact ⟨fun h => ⟨h.1, nofun, fun _ => h.2⟩, fun h => ⟨h.fits, h.fresh nofun⟩⟩
  | some pvm =>
      rw [account]
      split
      next hcomm =>
        rw [exact_update_iff h hfresh]
        constructor
        · rintro ⟨hfits, hright⟩
          refine ⟨hfits, ?_, fun hno => absurd hcomm (hno pvm rfl)⟩
          rintro _ ⟨rfl⟩ - hevt
          exact hright hevt
        · intro hkept
          exact ⟨hkept.fits, hkept.same pvm rfl hcomm⟩
      next hcomm =>
        rw [hcreate]
        constructor
        · rintro ⟨hfits, hright⟩
          refine ⟨hfits, ?_, fun _ => hright⟩
          rintro _ ⟨rfl⟩ hsame
          exact absurd hsame hcomm
        · intro hkept
          refine ⟨hkept.fits, hkept.fresh ?_⟩
          rintro _ ⟨rfl⟩
          exact hcomm

theorem recordOf_append {commFilter : CString → Bool} {pid : UInt32} {data : EvtData}
    (hpid : data.pid = pid) (hfilter : commFilter data.comm = true) (past : List EvtData) :
    recordOf commFilter pid (past ++ [data]) =
      some (account (recordOf commFilter pid past) data) := by
  rw [recordOf, List.foldl_append, List.foldl_cons, List.foldl_nil, handle, if_pos hfilter, ← hpid,
    Function.update_self]
  rfl

section Run

variable {commFilter : CString → Bool} {pid : UInt32} {events : List EvtData}

/-- The bytes that the reported mappings hold after some events, and the size of the heap. -/
def spaceAfter (past : List EvtData) : Space := past.foldl Space.after {}

theorem exact_append_iff (hpid : ∀ e ∈ events, e.pid = pid)
    (hfilter : ∀ e ∈ events, commFilter e.comm = true)
    (hfresh : EventRun.AllSteps Space.after Space.Fresh {} events) {past : List EvtData}
    {data : EvtData} (hpast : past ++ [data] <+: events)
    (h : Exact (recordOf commFilter pid past) (spaceAfter past)) :
    Exact (recordOf commFilter pid (past ++ [data])) (spaceAfter (past ++ [data])) ↔
      KeptExact (recordOf commFilter pid past) (spaceAfter past) data := by
  have hmem : data ∈ events := hpast.subset (by simp)
  rw [recordOf_append (hpid data hmem) (hfilter data hmem), spaceAfter, List.foldl_append]
  exact exact_account_iff h (EventRun.allSteps_iff.mp hfresh past data hpast)

/-- The sizes in the record of a process are those of its address space after every event
if and only if every event meets the condition where it occurs. -/
theorem exact_iff_kept (commFilter : CString → Bool) (pid : UInt32) (events : List EvtData)
    (hpid : ∀ e ∈ events, e.pid = pid) (hfilter : ∀ e ∈ events, commFilter e.comm = true)
    (hfresh : EventRun.AllSteps Space.after Space.Fresh {} events) :
    (∀ past, past <+: events → Exact (recordOf commFilter pid past) (spaceAfter past)) ↔
      ∀ past data, past ++ [data] <+: events →
        KeptExact (recordOf commFilter pid past) (spaceAfter past) data := by
  constructor
  · intro h past data hpast
    have hbefore := h past ((List.prefix_append past [data]).trans hpast)
    exact (exact_append_iff hpid hfilter hfresh hpast hbefore).mp (h _ hpast)
  · intro h past
    induction past using List.reverseRecOn with
    | nil => exact fun _ => ⟨rfl, rfl⟩
    | append_singleton past data ih =>
        intro hpast
        have hbefore := ih ((List.prefix_append past [data]).trans hpast)
        exact (exact_append_iff hpid hfilter hfresh hpast hbefore).mpr (h past data hpast)

end Run

def anyComm : CString → Bool := fun _ => true

def evt (type : EvtType) (addr len : UInt64) : EvtData := ⟨100, 100, [], type, addr, len⟩

/-- A process that maps two pages and unmaps them. -/
def wholeRun : List EvtData := [evt .mmapAnonPriv 0x1000 0x2000, evt .munmap 0x1000 0x2000]

theorem wholeRun_kept (past : List EvtData) (data : EvtData)
    (hpast : past ++ [data] <+: wholeRun) :
    KeptExact (recordOf anyComm 100 past) (spaceAfter past) data := by
  rw [wholeRun] at hpast
  cases past with
  | nil =>
      obtain rfl := (List.cons_prefix_cons.mp hpast).1
      refine ⟨⟨?_, by decide⟩, nofun, fun _ => ⟨rfl, rfl⟩⟩
      simp [spaceAfter, Space.after, evt]
  | cons first past =>
      obtain ⟨rfl, hrest⟩ := List.cons_prefix_cons.mp hpast
      cases past with
      | cons second past =>
          have hnil := (List.cons_prefix_cons.mp hrest).2
          simp at hnil
      | nil =>
          obtain rfl := (List.cons_prefix_cons.mp hrest).1
          refine ⟨⟨?_, by decide⟩, ?_, ?_⟩
          · simp [spaceAfter, Space.after, evt, EvtData.range]
          · rintro _ ⟨rfl⟩ - -
            exact ⟨fun _ => Finset.subset_union_right, fun hno => absurd (.inl (by decide)) hno⟩
          · intro hno
            exact absurd rfl (hno _ rfl)

theorem wholeRun_exact : Exact (recordOf anyComm 100 wholeRun) (spaceAfter wholeRun) := by
  have hfresh : EventRun.AllSteps Space.after Space.Fresh {} wholeRun :=
    ⟨fun _ => Finset.disjoint_empty_left _, nofun, trivial⟩
  have hexact := (exact_iff_kept anyComm 100 wholeRun (by decide) (by decide) hfresh).mpr
    wholeRun_kept
  exact hexact wholeRun (List.prefix_refl _)

/-- A process that maps two pages and unmaps four. -/
def overlapRun : List EvtData := [evt .mmapAnonPriv 0x1000 0x2000, evt .munmap 0x1000 0x4000]

/-- The size is below zero then. -/
theorem overlapRun_not_exact :
    (∀ e ∈ overlapRun, e.pid = 100 ∧ anyComm e.comm = true ∧ e.addr % 4096 = 0 ∧
        e.len % 4096 = 0) ∧
      EventRun.AllSteps Space.after Space.Fresh {} overlapRun ∧
      (recordOf anyComm 100 overlapRun).map Pvm.mmapSize = some (-0x2000) ∧
      ¬ ∀ past, past <+: overlapRun → Exact (recordOf anyComm 100 past) (spaceAfter past) := by
  have hsize : (recordOf anyComm 100 overlapRun).map Pvm.mmapSize = some (-0x2000) := by
    decide +kernel
  refine ⟨by decide, ?_, hsize, ?_⟩
  · refine ⟨fun _ => Finset.disjoint_empty_left _, nofun, trivial⟩
  · intro h
    have hnonneg := (h overlapRun (List.prefix_refl _)).mmapSize
    rw [hsize, Option.getD_some] at hnonneg
    have hneg : (-0x2000 : Int64).toInt = -8192 := by decide
    omega

end XMonitor.ProcessVM
