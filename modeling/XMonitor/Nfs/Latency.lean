import XMonitor.Lib.EventRun
import XMonitor.Nfs.Probes

/-!
# Which sample the return of an operation adds

The return of an operation should add its own latency to the slots of its own type in the
histogram of its own device. It takes whatever the thread has on the CPU that it returns
on, and deletes it on all.

A thread that has moved to another CPU finds zero there, or what an outer operation has
left. An outer operation finds nothing, since the inner one has overwritten its entry and
deleted it. `finds_iff_newestOn` says what a return finds by the history of its thread.
-/

namespace XMonitor.Nfs

variable {Cpu : Type*} [DecidableEq Cpu]

def Probe.nowNs : Probe Cpu → UInt64
  | entry _ _ _ _ nowNs => nowNs
  | exit _ _ _ nowNs => nowNs

def Probe.tid : Probe Cpu → UInt32
  | entry _ _ tid _ _ => tid
  | exit _ _ tid _ => tid

/-- An operation that a thread has entered. -/
structure Op (Cpu : Type*) where
  func : NfsFunc
  cpu : Cpu
  blkNum : BlkNum
  ts : UInt64

/-- The maps, the open operations of each thread with the innermost first, and the last
value of the clock. -/
structure World (Cpu : Type*) where
  maps : Maps Cpu
  ops : UInt32 → List (Op Cpu)
  clockNs : UInt64

namespace World

def start : World Cpu where
  maps := { opTracing := .empty, oplatHist := .empty }
  ops _ := []
  clockNs := 0

def after (w : World Cpu) (p : Probe Cpu) : World Cpu where
  maps := run w.maps p
  ops :=
    match p with
    | .entry func cpu tid iRdev nowNs =>
        Function.update w.ops tid
          ({ func, cpu, blkNum := getBlkNum iRdev, ts := nowNs } :: w.ops tid)
    | .exit _ _ tid _ => Function.update w.ops tid (w.ops tid).tail
  clockNs := p.nowNs

/-- The clock does not go back, and a thread returns from the operation that it has entered
last. -/
structure Possible (w : World Cpu) (p : Probe Cpu) : Prop where
  clock : w.clockNs ≤ p.nowNs
  clock_lt : p.nowNs.toNat < 2 ^ 63
  nested : ∀ func cpu tid nowNs, p = .exit func cpu tid nowNs →
    ∃ op, (w.ops tid).head? = some op ∧ op.func = func

end World

/-- A count in the histogram of a device, as a CPU has it. -/
def Maps.count (s : Maps Cpu) (blkNum : BlkNum) (cpu : Cpu)
    (slot : Fin statTableTotalSlotCount) : UInt32 :=
  ((PerCpuHash.get s.oplatHist cpu blkNum).getD 0).slots slot

theorem statSlot_lt (func : NfsFunc) (n : Nat) :
    (func.opType.val - 1) * statSlotCount + min n (statSlotCount - 1) <
      statTableTotalSlotCount := by
  cases func <;> simp only [NfsFunc.opType, OpType.val, statSlotCount, statTableTotalSlotCount] <;>
    omega

/-- The slot for a latency, by the binary logarithm of its microseconds. -/
def statSlot (func : NfsFunc) (latencyNs : Nat) : Fin statTableTotalSlotCount :=
  ⟨(func.opType.val - 1) * statSlotCount + min (latencyNs / 1000).log2 (statSlotCount - 1),
    statSlot_lt func _⟩

/-- The return of an operation adds its own latency, and nothing else, and leaves no entry. -/
structure Recorded (s s' : Maps Cpu) (op : Op Cpu) (cpu : Cpu) (tid : UInt32) (nowNs : UInt64) :
    Prop where
  sample : ∀ blkNum cpu' slot, s'.count blkNum cpu' slot =
    s.count blkNum cpu' slot +
      if blkNum = op.blkNum ∧ cpu' = cpu ∧ slot = statSlot op.func (nowNs.toNat - op.ts.toNat)
      then 1 else 0
  cleared : s'.opTracing.lookup tid = none

/-- What a probe should do. An entry adds no sample. -/
def World.Right (w : World Cpu) : Probe Cpu → Prop
  | .entry func cpu tid iRdev nowNs =>
      (run w.maps (.entry func cpu tid iRdev nowNs)).count = w.maps.count
  | .exit func cpu tid nowNs => ∀ op, (w.ops tid).head? = some op →
      Recorded w.maps (run w.maps (.exit func cpu tid nowNs)) op cpu tid nowNs

/-- The thread has an entry on the CPU that it returns on, for its device and with a time that
leads to the same slot, and the device has a histogram or there is room for one. -/
structure Finds (s : Maps Cpu) (op : Op Cpu) (cpu : Cpu) (tid : UInt32) (nowNs : UInt64) :
    Prop where
  data : ∃ data, PerCpuHash.get s.opTracing cpu tid = some data ∧ data.blkNum = op.blkNum ∧
    statSlot op.func (nowNs.toNat - data.ts.toNat) =
      statSlot op.func (nowNs.toNat - op.ts.toNat)
  room : s.oplatHist.HasRoom op.blkNum

def World.Kept (w : World Cpu) : Probe Cpu → Prop
  | .entry .. => True
  | .exit _ cpu tid nowNs => ∀ op, (w.ops tid).head? = some op → Finds w.maps op cpu tid nowNs

/-! ## The sample of an entry that was found -/

theorem slots_fetchAndAdd (stat : OplatStat) (slot i : Fin statTableTotalSlotCount) :
    (stat.fetchAndAdd slot.val).slots i = stat.slots i + if i = slot then 1 else 0 := by
  simp only [OplatStat.fetchAndAdd, Fin.ext_iff]
  split
  · rfl
  · rw [UInt32.add_zero]

section Sample

variable {func : NfsFunc} {cpu : Cpu} {nowNs : UInt64} {data : OpTracingData}
  {hist hist' : OplatHistMap Cpu}

theorem latency_nonneg (hle : data.ts ≤ nowNs) (hlt : nowNs.toNat < 2 ^ 63) :
    0 ≤ (nowNs - data.ts).toInt64 := by
  have hle' := UInt64.le_iff_toNat_le.mp hle
  have hduration := duration_eq hle hlt
  rw [duration, elapsed] at hduration
  rw [Int64.le_iff_toInt_le, hduration, Int64.toInt_zero]
  omega

theorem toNat_latency (hle : data.ts ≤ nowNs) :
    ((nowNs - data.ts) / 1000).toNat = (nowNs.toNat - data.ts.toNat) / 1000 := by
  rw [UInt64.toNat_div, UInt64.toNat_sub_of_le _ _ hle]
  rfl

theorem addSample_of_init (hinit : PerCpuHash.lookupOrTryInit hist cpu data.blkNum 0 = some hist')
    (hle : data.ts ≤ nowNs) (hlt : nowNs.toNat < 2 ^ 63) :
    addSample func.opType cpu nowNs data hist =
      PerCpuHash.modify hist' cpu data.blkNum fun stat =>
        stat.fetchAndAdd (statSlot func (nowNs.toNat - data.ts.toNat)).val := by
  have htype : OpType.none.val < func.opType.val ∧ func.opType.val < OpType.max.val := by
    cases func <;> decide
  have hslot : (func.opType.val - 1) * statSlotCount +
      (logSlot (statSlotCount - 1) ((nowNs - data.ts) / 1000)).val =
        (statSlot func (nowNs.toNat - data.ts.toNat)).val := by
    rw [logSlot_val, toNat_latency hle]
    rfl
  simp only [addSample, hinit]
  rw [if_pos (latency_nonneg hle hlt), if_pos htype, hslot, if_pos (Fin.isLt _)]

/-- A found entry adds one sample, if there is room for the histogram of its device. -/
theorem slots_addSample (hroom : hist.HasRoom data.blkNum) (hle : data.ts ≤ nowNs)
    (hlt : nowNs.toNat < 2 ^ 63) (blkNum : BlkNum) (cpu' : Cpu)
    (slot : Fin statTableTotalSlotCount) :
    ((PerCpuHash.get (addSample func.opType cpu nowNs data hist) cpu' blkNum).getD 0).slots slot =
      ((PerCpuHash.get hist cpu' blkNum).getD 0).slots slot +
        if blkNum = data.blkNum ∧ cpu' = cpu ∧
          slot = statSlot func (nowNs.toNat - data.ts.toNat) then 1 else 0 := by
  obtain ⟨hist', hinit⟩ := (PerCpuHash.hasRoom_iff_lookupOrTryInit cpu 0).mp hroom
  have hmem := PerCpuHash.keys_of_lookupOrTryInit hinit
  rw [addSample_of_init hinit hle hlt, PerCpuHash.getD_modify hmem,
    PerCpuHash.getD_lookupOrTryInit hinit, PerCpuHash.getD_lookupOrTryInit hinit]
  by_cases hhere : blkNum = data.blkNum ∧ cpu' = cpu
  · obtain ⟨rfl, rfl⟩ := hhere
    rw [if_pos ⟨rfl, rfl⟩, slots_fetchAndAdd]
    simp
  · rw [if_neg hhere, if_neg (fun h => hhere ⟨h.1, h.2.1⟩), UInt32.add_zero]

theorem addSample_of_not_room (h : ¬ hist.HasRoom data.blkNum) (opType : OpType) :
    addSample opType cpu nowNs data hist = hist := by
  have hnone : PerCpuHash.lookupOrTryInit hist cpu data.blkNum 0 = none := by
    cases hinit : PerCpuHash.lookupOrTryInit hist cpu data.blkNum 0 with
    | none => rfl
    | some hist' =>
        exact absurd ((PerCpuHash.hasRoom_iff_lookupOrTryInit cpu 0).mpr ⟨hist', hinit⟩) h
  simp only [addSample, hnone]

end Sample

/-! ## The return of an operation -/

section Exit

variable {s s' : Maps Cpu} {op : Op Cpu} {cpu : Cpu} {tid : UInt32} {nowNs : UInt64}

theorem lookup_exit (func : NfsFunc) (cpu : Cpu) (tid : UInt32) (nowNs : UInt64) (s : Maps Cpu) :
    (run s (.exit func cpu tid nowNs)).opTracing.lookup tid = none := by
  rw [run, recordNfsOpExit]
  split
  · exact if_pos rfl
  next h => exact Option.map_eq_none_iff.mp h

/-- The count of the own latency grows by one. -/
theorem Recorded.own (h : Recorded s s' op cpu tid nowNs) :
    s'.count op.blkNum cpu (statSlot op.func (nowNs.toNat - op.ts.toNat)) =
      s.count op.blkNum cpu (statSlot op.func (nowNs.toNat - op.ts.toNat)) + 1 := by
  rw [h.sample, if_pos ⟨rfl, rfl, rfl⟩]

theorem not_recorded_of_count (h : s'.count = s.count) : ¬ Recorded s s' op cpu tid nowNs := by
  intro hrecorded
  have hone := hrecorded.own
  rw [h] at hone
  simp at hone

theorem finds_of_sample {data : OpTracingData}
    (h : ∀ blkNum cpu' slot, s'.count blkNum cpu' slot = s.count blkNum cpu' slot +
      if blkNum = data.blkNum ∧ cpu' = cpu ∧
        slot = statSlot op.func (nowNs.toNat - data.ts.toNat) then 1 else 0)
    (hrecorded : Recorded s s' op cpu tid nowNs) :
    data.blkNum = op.blkNum ∧ statSlot op.func (nowNs.toNat - data.ts.toNat) =
      statSlot op.func (nowNs.toNat - op.ts.toNat) := by
  have hone := hrecorded.own
  rw [h] at hone
  split at hone
  next hsame => exact ⟨hsame.1.symm, hsame.2.2.symm⟩
  next => simp at hone

/-- A return is right if and only if the thread finds what leads to its own sample. -/
theorem recorded_iff_finds
    (hts : ∀ data, PerCpuHash.get s.opTracing cpu tid = some data → data.ts ≤ nowNs)
    (hlt : nowNs.toNat < 2 ^ 63) :
    Recorded s (run s (.exit op.func cpu tid nowNs)) op cpu tid nowNs ↔
      Finds s op cpu tid nowNs := by
  have hcleared := lookup_exit op.func cpu tid nowNs s
  cases hget : PerCpuHash.get s.opTracing cpu tid with
  | none =>
      have hrun : run s (.exit op.func cpu tid nowNs) = s := by
        simp only [run, recordNfsOpExit, hget]
      rw [hrun]
      refine iff_of_false (not_recorded_of_count rfl) ?_
      rintro ⟨⟨data, hdata, -⟩, -⟩
      rw [hget] at hdata
      cases hdata
  | some data =>
      have hhist : (run s (.exit op.func cpu tid nowNs)).oplatHist =
          addSample op.func.opType cpu nowNs data s.oplatHist := by
        simp only [run, recordNfsOpExit, hget]
      by_cases hroom : s.oplatHist.HasRoom data.blkNum
      · have hsample : ∀ blkNum cpu' slot,
            (run s (.exit op.func cpu tid nowNs)).count blkNum cpu' slot =
              s.count blkNum cpu' slot + if blkNum = data.blkNum ∧ cpu' = cpu ∧
                slot = statSlot op.func (nowNs.toNat - data.ts.toNat) then 1 else 0 := by
          intro blkNum cpu' slot
          rw [Maps.count, hhist]
          exact slots_addSample hroom (hts data hget) hlt blkNum cpu' slot
        constructor
        · intro hrecorded
          obtain ⟨hblkNum, hslot⟩ := finds_of_sample hsample hrecorded
          exact ⟨⟨data, hget, hblkNum, hslot⟩, hblkNum ▸ hroom⟩
        · rintro ⟨⟨data', hdata, hblkNum, hslot⟩, -⟩
          obtain rfl : data = data' := Option.some.inj (hget.symm.trans hdata)
          refine ⟨?_, hcleared⟩
          intro blkNum cpu' slot
          rw [hsample, hblkNum, hslot]
      · have hcount : (run s (.exit op.func cpu tid nowNs)).count = s.count := by
          funext blkNum cpu' slot
          rw [Maps.count, hhist, addSample_of_not_room hroom]
          rfl
        refine iff_of_false (not_recorded_of_count hcount) ?_
        rintro ⟨⟨data', hdata, hblkNum, -⟩, hroom'⟩
        obtain rfl : data = data' := Option.some.inj (hget.symm.trans hdata)
        exact hroom (hblkNum ▸ hroom')

end Exit

/-! ## Every run -/

section Run

variable {w : World Cpu} {p : Probe Cpu}

/-- No entry is younger than the clock. -/
def World.Inv (w : World Cpu) : Prop :=
  ∀ cpu tid data, PerCpuHash.get w.maps.opTracing cpu tid = some data → data.ts ≤ w.clockNs

theorem get_opTracing_run {cpu : Cpu} {tid : UInt32} {data : OpTracingData}
    (h : PerCpuHash.get (run w.maps p).opTracing cpu tid = some data) :
    data.ts = p.nowNs ∨ data.ts = 0 ∨ PerCpuHash.get w.maps.opTracing cpu tid = some data := by
  cases p with
  | entry func cpu' tid' iRdev nowNs =>
      obtain rfl | rfl | h := PerCpuHash.of_get_set h
      · exact .inl rfl
      · exact .inr (.inl rfl)
      · exact .inr (.inr h)
  | exit func cpu' tid' nowNs =>
      refine .inr (.inr ?_)
      rw [run, recordNfsOpExit] at h
      split at h
      · by_cases htid : tid = tid'
        · rw [htid, PerCpuHash.get_delete_self] at h
          cases h
        · rw [PerCpuHash.get, BpfHash.lookup_delete, if_neg htid] at h
          exact h
      · exact h

theorem World.Inv.after (h : w.Inv) (hp : w.Possible p) : (w.after p).Inv := by
  intro cpu tid data hdata
  change data.ts ≤ p.nowNs
  obtain hts | hts | hold := get_opTracing_run hdata
  · rw [hts]
    exact UInt64.le_refl _
  · rw [hts]
    exact UInt64.zero_le
  · exact UInt64.le_trans (h cpu tid data hold) hp.clock

theorem World.right_iff_kept (h : w.Inv) (hp : w.Possible p) : w.Right p ↔ w.Kept p := by
  cases p with
  | entry func cpu tid iRdev nowNs => exact iff_of_true rfl trivial
  | exit func cpu tid nowNs =>
      obtain ⟨op, hop, rfl⟩ := hp.nested func cpu tid nowNs rfl
      have hts : ∀ data, PerCpuHash.get w.maps.opTracing cpu tid = some data →
          data.ts ≤ nowNs := fun data hdata => UInt64.le_trans (h cpu tid data hdata) hp.clock
      have hiff : Recorded w.maps (run w.maps (.exit op.func cpu tid nowNs)) op cpu tid nowNs ↔
          Finds w.maps op cpu tid nowNs := recorded_iff_finds hts hp.clock_lt
      constructor
      · intro hright op' hop'
        obtain rfl : op = op' := Option.some.inj (hop.symm.trans hop')
        exact hiff.mp (hright op hop)
      · intro hkept op' hop'
        obtain rfl : op = op' := Option.some.inj (hop.symm.trans hop')
        exact hiff.mpr (hkept op hop)

omit [DecidableEq Cpu] in
theorem World.inv_start : (World.start : World Cpu).Inv := nofun

/-- A thread enters an operation when it is in no other, and returns on the CPU on which it
has entered. There is room in both maps. -/
def World.Regular (w : World Cpu) : Probe Cpu → Prop
  | .entry _ _ tid _ _ => w.ops tid = [] ∧ w.maps.opTracing.HasRoom tid
  | .exit _ cpu tid _ => ∀ op, (w.ops tid).head? = some op →
      op.cpu = cpu ∧ w.maps.oplatHist.HasRoom op.blkNum

/-- The CPU of an open operation has its entry. -/
def World.OwnEntries (w : World Cpu) : Prop :=
  ∀ tid, w.ops tid = [] ∨ ∃ op, w.ops tid = [op] ∧
    PerCpuHash.get w.maps.opTracing op.cpu tid = some { ts := op.ts, blkNum := op.blkNum }

theorem lookup_opTracing_run_ne {tid : UInt32} (h : p.tid ≠ tid) :
    (run w.maps p).opTracing.lookup tid = w.maps.opTracing.lookup tid := by
  cases p with
  | entry func cpu tid' iRdev nowNs => exact PerCpuHash.lookup_set_ne (Ne.symm h)
  | exit func cpu tid' nowNs =>
      rw [run, recordNfsOpExit]
      split
      · exact if_neg (Ne.symm h)
      · rfl

theorem World.OwnEntries.after (h : w.OwnEntries) (hp : w.Regular p) :
    (w.after p).OwnEntries := by
  intro tid
  by_cases htid : p.tid = tid
  · subst htid
    cases p with
    | entry func cpu tid iRdev nowNs =>
        obtain ⟨hnone, hroom⟩ := hp
        refine .inr ⟨{ func, cpu, blkNum := getBlkNum iRdev, ts := nowNs }, ?_, ?_⟩
        · simp only [World.after, Probe.tid, Function.update_self, hnone]
        · exact PerCpuHash.get_set_self hroom cpu _
    | exit func cpu tid nowNs =>
        left
        simp only [World.after, Probe.tid, Function.update_self]
        obtain hnone | ⟨op, hop, -⟩ := h tid
        · rw [hnone, List.tail_nil]
        · rw [hop, List.tail_cons]
  · have hops : (w.after p).ops tid = w.ops tid := by
      cases p <;> exact Function.update_of_ne (Ne.symm htid) _ _
    rw [hops]
    simp only [World.after, PerCpuHash.get, lookup_opTracing_run_ne htid]
    exact h tid

omit [DecidableEq Cpu] in
theorem World.OwnEntries.kept (h : w.OwnEntries) (hp : w.Regular p) : w.Kept p := by
  cases p with
  | entry func cpu tid iRdev nowNs => trivial
  | exit func cpu tid nowNs =>
      intro op hop
      obtain ⟨rfl, hroom⟩ := hp op hop
      obtain hnone | ⟨op', hop', hget⟩ := h tid
      · rw [hnone] at hop
        cases hop
      · rw [hop'] at hop
        cases hop
        exact ⟨⟨_, hget, rfl, rfl⟩, hroom⟩

/-- Regular runs meet the condition throughout. -/
theorem kept_of_regular (h : w.OwnEntries) {probes : List (Probe Cpu)}
    (hregular : EventRun.AllSteps World.after World.Regular w probes) :
    EventRun.AllSteps World.after World.Kept w probes := by
  induction probes generalizing w with
  | nil => trivial
  | cons p probes ih =>
      obtain ⟨hp, hrest⟩ := hregular
      exact ⟨h.kept hp, ih (h.after hp) hrest⟩

/-! ## What a thread finds -/

/-- The entries of a thread since it has last returned, the last one first. -/
def pendingEntries (tid : UInt32) (probes : List (Probe Cpu)) : List (Cpu × OpTracingData) :=
  probes.foldl
    (fun entries p =>
      if p.tid = tid then
        match p with
        | .entry _ cpu _ iRdev nowNs => (cpu, ⟨nowNs, getBlkNum iRdev⟩) :: entries
        | .exit .. => []
      else entries) []

/-- The last of some entries on a CPU, or zero. -/
def newestOn (cpu : Cpu) (entries : List (Cpu × OpTracingData)) : OpTracingData :=
  ((entries.find? fun e => e.1 = cpu).map Prod.snd).getD 0

/-- What the entries of a thread leave in the map. -/
def valuesOf : List (Cpu × OpTracingData) → Option (Cpu → OpTracingData)
  | [] => none
  | e :: entries => some fun cpu => newestOn cpu (e :: entries)

/-- An entry finds room for its thread. -/
def World.EntryRoom (w : World Cpu) : Probe Cpu → Prop
  | .entry _ _ tid _ _ => w.maps.opTracing.HasRoom tid
  | .exit .. => True

theorem newestOn_cons (cpu cpu' : Cpu) (data : OpTracingData)
    (entries : List (Cpu × OpTracingData)) :
    newestOn cpu' ((cpu, data) :: entries) =
      if cpu' = cpu then data else newestOn cpu' entries := by
  by_cases h : cpu' = cpu
  · simp [newestOn, h]
  · simp [newestOn, h, Ne.symm h]

theorem getD_valuesOf (entries : List (Cpu × OpTracingData)) :
    (valuesOf entries).getD 0 = fun cpu => newestOn cpu entries := by
  cases entries <;> rfl

/-- A new entry changes the value of its CPU. -/
theorem valuesOf_cons (cpu : Cpu) (data : OpTracingData)
    (entries : List (Cpu × OpTracingData)) :
    valuesOf ((cpu, data) :: entries) =
      some (Function.update ((valuesOf entries).getD 0) cpu data) := by
  rw [valuesOf, getD_valuesOf]
  congr 1
  funext cpu'
  rw [newestOn_cons, Function.update_apply]

/-- The map holds the last entry of a thread on each CPU, and zero where there is none. -/
theorem lookup_opTracing {probes : List (Probe Cpu)}
    (hroom : EventRun.AllSteps World.after World.EntryRoom .start probes) (tid : UInt32) :
    (probes.foldl World.after .start).maps.opTracing.lookup tid =
      valuesOf (pendingEntries tid probes) := by
  induction probes using List.reverseRecOn with
  | nil => rfl
  | append_singleton probes p ih =>
      obtain ⟨hprobes, hp, -⟩ := EventRun.allSteps_append.mp hroom
      have hold := ih hprobes
      rw [pendingEntries, List.foldl_append, List.foldl_append, ← pendingEntries]
      simp only [List.foldl_cons, List.foldl_nil]
      by_cases htid : p.tid = tid
      · rw [if_pos htid]
        subst htid
        cases p with
        | entry func cpu tid iRdev nowNs =>
            have hset := PerCpuHash.lookup_set hp cpu ⟨nowNs, getBlkNum iRdev⟩ tid
            rw [if_pos rfl] at hset
            rw [Probe.tid] at hold ⊢
            rw [valuesOf_cons, ← hold]
            exact hset
        | exit func cpu tid nowNs => exact lookup_exit func cpu tid nowNs _
      · rw [if_neg htid, ← hold]
        exact lookup_opTracing_run_ne htid

/-- A return finds what leads to its own sample if and only if an entry of its thread is
pending, and the last one on its CPU, or zero, does so. -/
theorem finds_iff_newestOn {probes : List (Probe Cpu)}
    (hroom : EventRun.AllSteps World.after World.EntryRoom .start probes) (op : Op Cpu) (cpu : Cpu)
    (tid : UInt32) (nowNs : UInt64) :
    Finds (probes.foldl World.after .start).maps op cpu tid nowNs ↔
      pendingEntries tid probes ≠ [] ∧
        (newestOn cpu (pendingEntries tid probes)).blkNum = op.blkNum ∧
        statSlot op.func (nowNs.toNat - (newestOn cpu (pendingEntries tid probes)).ts.toNat) =
          statSlot op.func (nowNs.toNat - op.ts.toNat) ∧
        (probes.foldl World.after .start).maps.oplatHist.HasRoom op.blkNum := by
  have hlookup := lookup_opTracing hroom tid
  cases hentries : pendingEntries tid probes with
  | nil =>
      rw [hentries] at hlookup
      refine iff_of_false ?_ fun h => h.1 rfl
      rintro ⟨⟨data, hdata, -⟩, -⟩
      rw [PerCpuHash.get, hlookup] at hdata
      cases hdata
  | cons e entries =>
      rw [hentries] at hlookup
      have hget : PerCpuHash.get (probes.foldl World.after .start).maps.opTracing cpu tid =
          some (newestOn cpu (e :: entries)) := by
        rw [PerCpuHash.get, hlookup]
        rfl
      constructor
      · rintro ⟨⟨data, hdata, hblkNum, hslot⟩, hhist⟩
        obtain rfl : _ = data := Option.some.inj (hget.symm.trans hdata)
        exact ⟨List.cons_ne_nil e entries, hblkNum, hslot, hhist⟩
      · rintro ⟨-, hblkNum, hslot, hhist⟩
        exact ⟨⟨_, hget, hblkNum, hslot⟩, hhist⟩

/-- In every run of probes of any threads on any CPUs, every return adds its own sample if and
only if every return finds what leads to it. -/
theorem recorded_iff_kept (probes : List (Probe Cpu))
    (hpossible : EventRun.AllSteps World.after World.Possible .start probes) :
    EventRun.AllSteps World.after World.Right .start probes ↔
      EventRun.AllSteps World.after World.Kept .start probes := by
  have keep : ∀ (w : World Cpu) p, w.Inv → w.Possible p → (w.after p).Inv :=
    fun w p h hp => h.after hp
  have hiff : ∀ (w : World Cpu) p, w.Inv → w.Possible p → (w.Right p ↔ w.Kept p) :=
    fun w p h hp => World.right_iff_kept h hp
  exact EventRun.allSteps_congr_of keep hiff World.inv_start hpossible

end Run

def noMove : List (Probe Bool) :=
  [.entry .fileRead false 1 0 1000000000, .exit .fileRead false 1 1001000000]

theorem noMove_possible : EventRun.AllSteps World.after World.Possible .start noMove := by
  refine ⟨⟨by decide, by decide, nofun⟩, ⟨by decide, by decide, ?_⟩, trivial⟩
  rintro _ _ _ _ ⟨rfl⟩
  exact ⟨_, rfl, rfl⟩

/-- A thread that stays on its CPU, of two. -/
theorem noMove_recorded : EventRun.AllSteps World.after World.Right .start noMove := by
  apply (recorded_iff_kept noMove noMove_possible).mpr
  apply kept_of_regular (fun _ => .inl rfl)
  refine ⟨⟨rfl, .inr (by decide)⟩, ?_, trivial⟩
  rintro op ⟨rfl⟩
  exact ⟨rfl, .inr (by decide)⟩

def move : List (Probe Bool) :=
  [.entry .fileRead false 1 0 1000000000, .exit .fileRead true 1 1001000000]

/-- A thread that moves finds zero, and the sample is the time since the system has started. -/
theorem move_not_recorded : EventRun.AllSteps World.after World.Possible .start move ∧
    ¬ EventRun.AllSteps World.after World.Right .start move := by
  refine ⟨?_, ?_⟩
  · refine ⟨⟨by decide, by decide, nofun⟩, ⟨by decide, by decide, ?_⟩, trivial⟩
    rintro _ _ _ _ ⟨rfl⟩
    exact ⟨_, rfl, rfl⟩
  · rintro ⟨-, hexit, -⟩
    have hown := (hexit _ rfl).own
    revert hown
    decide +kernel

end XMonitor.Nfs
