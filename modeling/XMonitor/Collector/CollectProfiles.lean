import Mathlib.Data.List.AList
import XMonitor.Collector.SampleCount
import XMonitor.Frame.Context

/-!
# One round of collecting profiles

`collectProfiles` reads the whole sample map, fetches the stacks that the samples
name, turns them into symbols and then deletes what it has read. The ids to delete
are noted in two sets: those of the stack map while the stacks are fetched, those of
the unwound stacks while they are symbolized, and a sample may be skipped on the way.

The kernel does not touch the maps meanwhile. A map is given in the order in which it
is iterated, and deletions succeed. Symbol resolution works with caches of its own, so
it is a parameter with a state.
-/

namespace XMonitor.Collector

/-- `struct xm_profile_sample_data`. -/
structure XmProfileSampleData where
  count : UInt32
  pidNs : UInt32
  pgid : Int32

/-- `struct xm_ehframe_user_stack`. -/
structure XmEhframeUserStack where
  len : UInt64
  pcLst : Vector UInt64 127

def perfMaxStackDepth : Nat := 127

/-- The three maps of the profiler that user space reads and cleans. -/
structure ProfileMaps where
  sampleCountMap : AList fun _ : XmProfileSample => XmProfileSampleData
  stackMap : AList fun _ : Int32 => List UInt8
  ehframeUserStackMap : AList fun _ : UInt32 => XmEhframeUserStack

inductive ProfileMatchTargetType
  | none | comm | pgID | pidNS
deriving DecidableEq

structure ProfileTarget where
  name : String
  labels : List (String × String)
  matchType : ProfileMatchTargetType
  matchVal : String

def ProfileTarget.compare (pt : ProfileTarget) (comm : String) (pgid : Int32)
    (pidNS : UInt32) : Bool :=
  match pt.matchType with
  | .comm => pt.matchVal == comm
  | .pgID => pt.matchVal == toString pgid.toInt
  | .pidNS => pt.matchVal == toString pidNS.toNat
  | .none => false

structure ProfileTargetFinder where
  targets : List ProfileTarget
  defaultTarget : ProfileTarget

def ProfileTargetFinder.findTarget (tf : ProfileTargetFinder) (comm : String) (pgid : Int32)
    (pidNS : UInt32) : ProfileTarget :=
  (tf.targets.find? fun target => target.compare comm pgid pidNS).getD tf.defaultTarget

/-- The bytes before the first zero, one character each. -/
def commToString (comm : Vector UInt8 16) : String :=
  String.ofList ((comm.toList.takeWhile (· ≠ 0)).map fun b => Char.ofNat b.toNat)

structure Symbol where
  name : String
  offset : UInt64
  module : String

/-- A failed `frame.Resolve`, by whether `os.IsNotExist` holds of its cause. -/
inductive ResolveError
  | notExist | other

inductive LangType
  | native | other
deriving DecidableEq

/-- `frame.Resolve` and `frame.GetLangType`, over the state of their caches. -/
structure Symbolizer (σ : Type) where
  resolve : σ → Int32 → UInt64 → Except ResolveError Symbol × σ
  getLangType : σ → Int32 → LangType

structure ProcStackInfo where
  pid : Int32
  kStackBytes : List UInt8
  uStackBytes : List UInt8
  ehFrameUserStackId : UInt32
  count : UInt32
  comm : String
  target : ProfileTarget

/-- A sample that was added to the builder of its target. -/
structure ProfileSample where
  target : ProfileTarget
  stack : List String
  count : UInt64

/-- What the symbolization of the samples has produced so far. -/
structure CollectState (σ : Type) where
  symbols : σ
  ehFrameStackIDSet : List UInt32 := []
  builders : List ProfileSample := []
  /-- The processes for which unwind tables were requested. -/
  createUnwindTables : List (Int32 × String) := []

/-! ## Fetching the stacks -/

/-- `pfnGetStackBytes`: the bytes of the stack and the updated `stackIDSet`. -/
def getStackBytes (maps : ProfileMaps) (stackIDSet : List Int32) (stackID : Int32) :
    List UInt8 × List Int32 :=
  if 0 ≤ stackID then
    match maps.stackMap.lookup stackID with
    | none => ([], stackIDSet)
    | some stackBytes => (stackBytes, stackIDSet.insert stackID)
  else ([], stackIDSet)

/-- One iteration of the loop that fetches the stacks. -/
def fetchStacks (maps : ProfileMaps) (tf : ProfileTargetFinder)
    (st : List ProcStackInfo × List Int32) (sampleInfo : XmProfileSample)
    (sampleData : XmProfileSampleData) : List ProcStackInfo × List Int32 :=
  let comm := commToString sampleInfo.comm
  let (uStackBytes, stackIDSet) := getStackBytes maps st.2 sampleInfo.userStackId
  let (kStackBytes, stackIDSet) := getStackBytes maps stackIDSet sampleInfo.kernelStackId
  let psi :=
    { pid := sampleInfo.pid, kStackBytes, uStackBytes
      ehFrameUserStackId := sampleInfo.ehframeUserStackId
      count := sampleData.count, comm
      target := tf.findTarget comm sampleData.pgid sampleData.pidNs }
  (st.1 ++ [psi], stackIDSet)

def fetchAllStacks (maps : ProfileMaps) (tf : ProfileTargetFinder) :
    List ProcStackInfo × List Int32 :=
  maps.sampleCountMap.entries.foldl (fun st e => fetchStacks maps tf st e.1 e.2) ([], [])

/-! ## Symbolizing the stacks -/

variable {σ : Type} (z : Symbolizer σ)

def frameName (pid : Int32) (sym : Symbol) : String :=
  if 0 < pid then
    sym.name ++ "+0x" ++ String.ofList (Nat.toDigits 16 sym.offset.toNat) ++
      " [" ++ sym.module ++ "]"
  else sym.name

/-- The loop over the program counters. The frames come with the number of failures,
unless the loop is left for a file that does not exist. -/
def resolveFrames (pid : Int32) : List UInt64 → σ → Option (List String × Nat) × σ
  | [], s => (some ([], 0), s)
  | pc :: pcs, s =>
      match z.resolve s pid pc with
      | (.ok sym, s) =>
          let (rest, s) := resolveFrames pid pcs s
          (rest.map fun (frames, failed) => (frameName pid sym :: frames, failed), s)
      | (.error .notExist, s) => (none, s)
      | (.error .other, s) =>
          let (rest, s) := resolveFrames pid pcs s
          (rest.map fun (frames, failed) => ("[unknown]" :: frames, failed + 1), s)

/-- `binary.Read` into `Stacks`, up to the first zero. -/
def stackPcs (stack : List UInt8) : Option (List UInt64) :=
  if stack.length < perfMaxStackDepth * 8 then none
  else
    let pcs := (List.range perfMaxStackDepth).map fun i =>
      Frame.ByteOrder.littleEndian.uint ((stack.drop (i * 8)).take 8)
    some (pcs.takeWhile (· ≠ 0))

/-- `pfnWalkStack`: the extended stack and the number of failures, or an error. -/
def walkStack (stack : List UInt8) (pid : Int32) (sb : List String) (s : σ) :
    Option (List String × Nat) × σ :=
  if stack.length = 0 then (none, s)
  else
    match stackPcs stack with
    | none => (none, s)
    | some pcs =>
        let (frames, s) := resolveFrames z pid pcs s
        (frames.map fun (frames, failed) => (sb ++ frames.reverse, failed), s)

/-- A counter is skipped if it repeats the one before. -/
def skipRepeats (prevPC : UInt64) : List UInt64 → List UInt64
  | [] => []
  | pc :: pcs => if pc = prevPC then skipRepeats prevPC pcs else pc :: skipRepeats pc pcs

def ehframePcs (eus : XmEhframeUserStack) : List UInt64 :=
  let stackDepth := eus.len.toInt64.toInt
  skipRepeats 0 ((eus.pcLst.toList.take stackDepth.toNat).takeWhile (· ≠ 0))

/-- The part of `pfnWalkEhframeUserStack` after the lookup. -/
def walkEhframeUserStack (eus : XmEhframeUserStack) (pid : Int32) (sb : List String) (s : σ) :
    Option (List String × Nat) × σ :=
  let (frames, s) := resolveFrames z pid (ehframePcs eus) s
  (frames.map fun (frames, failed) => (sb ++ frames.reverse, failed), s)

/-- The end of an iteration: the kernel stack, and the sample if it has any frame. -/
def addSample (st : CollectState σ) (psi : ProcStackInfo) (sb : List String) : CollectState σ :=
  let (kernel, s) := walkStack z psi.kStackBytes 0 sb st.symbols
  let sb := (kernel.map Prod.fst).getD sb
  if sb.length = 1 then { st with symbols := s }
  else
    { st with
      symbols := s
      builders := st.builders ++
        [{ target := psi.target, stack := sb.reverse, count := psi.count.toUInt64 }] }

/-- One iteration of the loop that symbolizes the samples. -/
def symbolize (maps : ProfileMaps) (st : CollectState σ) (psi : ProcStackInfo) :
    CollectState σ :=
  let sb := [psi.comm]
  if psi.ehFrameUserStackId = 0 then
    match walkStack z psi.uStackBytes psi.pid sb st.symbols with
    | (none, s) => { st with symbols := s }
    | (some (sb, resolveFailedCount), s) =>
        -- The failure rate is at least 0.2; depths are too small for rounding to matter.
        if 0 < resolveFailedCount ∧ 0 < sb.length ∧ sb.length ≤ 5 * resolveFailedCount ∧
            z.getLangType s psi.pid = .native then
          { st with
            symbols := s
            createUnwindTables := st.createUnwindTables ++ [(psi.pid, psi.comm)] }
        else addSample z { st with symbols := s } psi sb
  else
    match maps.ehframeUserStackMap.lookup psi.ehFrameUserStackId with
    | none => st
    | some eus =>
        let ehFrameStackIDSet := st.ehFrameStackIDSet.insert psi.ehFrameUserStackId
        match walkEhframeUserStack z eus psi.pid sb st.symbols with
        | (none, s) => { st with symbols := s, ehFrameStackIDSet }
        | (some (sb, _), s) => addSample z { st with symbols := s, ehFrameStackIDSet } psi sb

/-! ## Cleaning the maps -/

/-- A loop of deletions. -/
def deleteAll {κ ν : Type} [DecidableEq κ] (m : AList fun _ : κ => ν) (keys : List κ) :
    AList fun _ : κ => ν :=
  keys.foldl (fun m k => m.erase k) m

def cleanMaps (maps : ProfileMaps) (keys : List XmProfileSample) (stackIDSet : List Int32)
    (ehFrameStackIDSet : List UInt32) : ProfileMaps where
  sampleCountMap := deleteAll maps.sampleCountMap keys
  stackMap := deleteAll maps.stackMap (stackIDSet.filter (0 < ·))
  ehframeUserStackMap := deleteAll maps.ehframeUserStackMap ehFrameStackIDSet

/-- A round, which leaves everything as it is if the iterator fails. -/
def collectProfiles (tf : ProfileTargetFinder) (iterErr : Bool) (maps : ProfileMaps) (s : σ) :
    ProfileMaps × CollectState σ :=
  if iterErr then (maps, { symbols := s })
  else
    let (psis, stackIDSet) := fetchAllStacks maps tf
    let st := psis.foldl (symbolize z maps) { symbols := s }
    (cleanMaps maps maps.sampleCountMap.keys stackIDSet st.ehFrameStackIDSet, st)

/-! ## What is fetched, and what is deleted -/

/-- The round fetches this stack for some sample. -/
def ProfileMaps.FetchesStack (maps : ProfileMaps) (stackID : Int32) : Prop :=
  0 ≤ stackID ∧ stackID ∈ maps.stackMap ∧
    ∃ ps ∈ maps.sampleCountMap, ps.userStackId = stackID ∨ ps.kernelStackId = stackID

/-- The round fetches this unwound stack for some sample. -/
def ProfileMaps.FetchesEhframe (maps : ProfileMaps) (id : UInt32) : Prop :=
  id ≠ 0 ∧ id ∈ maps.ehframeUserStackMap ∧
    ∃ ps ∈ maps.sampleCountMap, ps.ehframeUserStackId = id

/-- All samples and all stacks that were fetched for them are gone. -/
structure Cleaned (before after : ProfileMaps) : Prop where
  samples : ∀ ps, ps ∉ after.sampleCountMap
  stackIds : ∀ id, before.FetchesStack id → id ∉ after.stackMap
  ehframeIds : ∀ id, before.FetchesEhframe id → id ∉ after.ehframeUserStackMap

theorem mem_deleteAll {κ ν : Type} [DecidableEq κ] {m : AList fun _ : κ => ν} {keys : List κ}
    {k : κ} : k ∈ deleteAll m keys ↔ k ∈ m ∧ k ∉ keys := by
  induction keys generalizing m with
  | nil => simp [deleteAll]
  | cons x keys ih =>
      rw [deleteAll, List.foldl_cons]
      change k ∈ deleteAll (m.erase x) keys ↔ _
      rw [ih, AList.mem_erase, List.mem_cons]
      tauto

theorem mem_getStackBytes {maps : ProfileMaps} {ids : List Int32} {stackID id : Int32} :
    id ∈ (getStackBytes maps ids stackID).2 ↔
      id ∈ ids ∨ (id = stackID ∧ 0 ≤ id ∧ id ∈ maps.stackMap) := by
  unfold getStackBytes
  split
  · rename_i hid
    cases hlookup : maps.stackMap.lookup stackID with
    | none =>
        have hmem := AList.lookup_eq_none.mp hlookup
        refine ⟨.inl, ?_⟩
        rintro (h | ⟨rfl, -, h⟩)
        · exact h
        · exact absurd h hmem
    | some stackBytes =>
        have hmem : stackID ∈ maps.stackMap := by
          rw [← AList.lookup_isSome, hlookup]
          rfl
        rw [List.mem_insert_iff]
        constructor
        · rintro (rfl | h)
          · exact .inr ⟨rfl, hid, hmem⟩
          · exact .inl h
        · rintro (h | ⟨rfl, -, -⟩)
          · exact .inr h
          · exact .inl rfl
  · rename_i hid
    refine ⟨.inl, ?_⟩
    rintro (h | ⟨rfl, h, -⟩)
    · exact h
    · exact absurd h hid

/-- A fetch notes the ids of the sample that are in the stack map. -/
theorem mem_fetchStacks {maps : ProfileMaps} {tf : ProfileTargetFinder}
    {st : List ProcStackInfo × List Int32} {ps : XmProfileSample} {data : XmProfileSampleData}
    {id : Int32} :
    id ∈ (fetchStacks maps tf st ps data).2 ↔ id ∈ st.2 ∨
      (0 ≤ id ∧ id ∈ maps.stackMap ∧ (ps.userStackId = id ∨ ps.kernelStackId = id)) := by
  change id ∈ (getStackBytes maps (getStackBytes maps st.2 ps.userStackId).2
    ps.kernelStackId).2 ↔ _
  rw [mem_getStackBytes, mem_getStackBytes, eq_comm, @eq_comm _ id ps.kernelStackId]
  tauto

theorem fetchStacks_ehframe {maps : ProfileMaps} {tf : ProfileTargetFinder}
    {st : List ProcStackInfo × List Int32} {ps : XmProfileSample} {data : XmProfileSampleData} :
    (fetchStacks maps tf st ps data).1.map ProcStackInfo.ehFrameUserStackId =
      st.1.map ProcStackInfo.ehFrameUserStackId ++ [ps.ehframeUserStackId] := by
  simp [fetchStacks]

theorem mem_foldl_fetchStacks {maps : ProfileMaps} {tf : ProfileTargetFinder}
    {entries : List (Sigma fun _ : XmProfileSample => XmProfileSampleData)}
    {st : List ProcStackInfo × List Int32} {id : Int32} :
    id ∈ (entries.foldl (fun st e => fetchStacks maps tf st e.1 e.2) st).2 ↔
      id ∈ st.2 ∨ (0 ≤ id ∧ id ∈ maps.stackMap ∧
        ∃ ps ∈ entries.keys, ps.userStackId = id ∨ ps.kernelStackId = id) := by
  induction entries generalizing st with
  | nil => simp
  | cons e entries ih =>
      rw [List.foldl_cons, ih, mem_fetchStacks, List.keys_cons]
      simp only [List.mem_cons, exists_eq_or_imp]
      rw [or_assoc, ← and_or_left, ← and_or_left]

theorem foldl_fetchStacks_ehframe {maps : ProfileMaps} {tf : ProfileTargetFinder}
    {entries : List (Sigma fun _ : XmProfileSample => XmProfileSampleData)}
    {st : List ProcStackInfo × List Int32} :
    (entries.foldl (fun st e => fetchStacks maps tf st e.1 e.2) st).1.map
        ProcStackInfo.ehFrameUserStackId =
      st.1.map ProcStackInfo.ehFrameUserStackId ++
        entries.keys.map XmProfileSample.ehframeUserStackId := by
  induction entries generalizing st with
  | nil => simp
  | cons e entries ih =>
      rw [List.foldl_cons, ih, fetchStacks_ehframe, List.keys_cons, List.map_cons,
        List.append_assoc]
      rfl

theorem mem_fetchAllStacks {maps : ProfileMaps} {tf : ProfileTargetFinder} {id : Int32} :
    id ∈ (fetchAllStacks maps tf).2 ↔ maps.FetchesStack id := by
  rw [fetchAllStacks, mem_foldl_fetchStacks]
  simp [ProfileMaps.FetchesStack, AList.mem_keys, AList.keys]

variable {z}

theorem addSample_ehFrameStackIDSet {st : CollectState σ} {psi : ProcStackInfo}
    {sb : List String} : (addSample z st psi sb).ehFrameStackIDSet = st.ehFrameStackIDSet := by
  simp only [addSample]
  split <;> rfl

/-- A sample notes its unwound stack as soon as it has found it, whatever happens to the
sample afterwards. -/
theorem mem_symbolize {maps : ProfileMaps} {st : CollectState σ} {psi : ProcStackInfo}
    {id : UInt32} :
    id ∈ (symbolize z maps st psi).ehFrameStackIDSet ↔ id ∈ st.ehFrameStackIDSet ∨
      (psi.ehFrameUserStackId = id ∧ id ≠ 0 ∧ id ∈ maps.ehframeUserStackMap) := by
  unfold symbolize
  by_cases hzero : psi.ehFrameUserStackId = 0
  · have hsame : ¬ (psi.ehFrameUserStackId = id ∧ id ≠ 0 ∧ id ∈ maps.ehframeUserStackMap) := by
      rintro ⟨rfl, hne, -⟩
      exact hne hzero
    rw [if_pos hzero, or_iff_left hsame]
    split
    · rfl
    · split
      · rfl
      · rw [addSample_ehFrameStackIDSet]
  · rw [if_neg hzero]
    cases hlookup : maps.ehframeUserStackMap.lookup psi.ehFrameUserStackId with
    | none =>
        have hmem := AList.lookup_eq_none.mp hlookup
        have hsame :
            ¬ (psi.ehFrameUserStackId = id ∧ id ≠ 0 ∧ id ∈ maps.ehframeUserStackMap) := by
          rintro ⟨rfl, -, h⟩
          exact hmem h
        rw [or_iff_left hsame]
    | some eus =>
        have hmem : psi.ehFrameUserStackId ∈ maps.ehframeUserStackMap := by
          rw [← AList.lookup_isSome, hlookup]
          rfl
        have hinsert : id ∈ st.ehFrameStackIDSet.insert psi.ehFrameUserStackId ↔
            id ∈ st.ehFrameStackIDSet ∨
              (psi.ehFrameUserStackId = id ∧ id ≠ 0 ∧ id ∈ maps.ehframeUserStackMap) := by
          rw [List.mem_insert_iff]
          constructor
          · rintro (rfl | h)
            · exact .inr ⟨rfl, hzero, hmem⟩
            · exact .inl h
          · rintro (h | ⟨rfl, -, -⟩)
            · exact .inr h
            · exact .inl rfl
        simp only
        split
        · exact hinsert
        · rw [addSample_ehFrameStackIDSet]
          exact hinsert

theorem mem_foldl_symbolize {maps : ProfileMaps} {psis : List ProcStackInfo}
    {st : CollectState σ} {id : UInt32} :
    id ∈ (psis.foldl (symbolize z maps) st).ehFrameStackIDSet ↔ id ∈ st.ehFrameStackIDSet ∨
      (id ∈ psis.map ProcStackInfo.ehFrameUserStackId ∧ id ≠ 0 ∧
        id ∈ maps.ehframeUserStackMap) := by
  induction psis generalizing st with
  | nil => simp
  | cons psi psis ih =>
      rw [List.foldl_cons, ih, mem_symbolize, List.map_cons, List.mem_cons, @eq_comm _ id]
      tauto

/-- The ids of the unwound stacks that the round deletes. -/
theorem mem_ehFrameStackIDSet {maps : ProfileMaps} {tf : ProfileTargetFinder} {s : σ}
    {id : UInt32} :
    id ∈ ((fetchAllStacks maps tf).1.foldl (symbolize z maps)
        { symbols := s }).ehFrameStackIDSet ↔ maps.FetchesEhframe id := by
  rw [mem_foldl_symbolize, fetchAllStacks, foldl_fetchStacks_ehframe]
  simp only [List.not_mem_nil, List.map_nil, List.nil_append, List.mem_map, false_or,
    ProfileMaps.FetchesEhframe, AList.mem_keys, AList.keys]
  tauto

theorem mem_stackMap_collectProfiles {tf : ProfileTargetFinder} {maps : ProfileMaps} {s : σ}
    {id : Int32} :
    id ∈ (collectProfiles z tf false maps s).1.stackMap ↔
      id ∈ maps.stackMap ∧ ¬ (maps.FetchesStack id ∧ 0 < id) := by
  change id ∈ deleteAll maps.stackMap ((fetchAllStacks maps tf).2.filter (0 < ·)) ↔ _
  rw [mem_deleteAll, List.mem_filter, mem_fetchAllStacks, decide_eq_true_iff]

variable (z)

/-- A round cleans up after itself exactly if it does not fetch the stack `0`, which is
never deleted. -/
theorem cleaned_collectProfiles_iff (tf : ProfileTargetFinder) (maps : ProfileMaps) (s : σ) :
    Cleaned maps (collectProfiles z tf false maps s).1 ↔ ¬ maps.FetchesStack 0 := by
  constructor
  · intro h hzero
    have hgone := h.stackIds 0 hzero
    rw [mem_stackMap_collectProfiles] at hgone
    exact hgone ⟨hzero.2.1, fun hpos => absurd hpos.2 (by decide)⟩
  · intro hzero
    refine ⟨fun ps hps => ?_, fun id hid hmem => ?_, fun id hid hmem => ?_⟩
    · have hkeys := (mem_deleteAll.mp hps)
      exact hkeys.2 (AList.mem_keys.mp hkeys.1)
    · have hne : id ≠ 0 := by
        rintro rfl
        exact hzero hid
      have hpos : 0 < id := Int32.lt_of_le_of_ne hid.1 (Ne.symm hne)
      exact (mem_stackMap_collectProfiles.mp hmem).2 ⟨hid, hpos⟩
    · exact (mem_deleteAll.mp hmem).2 (mem_ehFrameStackIDSet.mpr hid)

/-- A process whose user stack was stored under the id `0`. -/
def stackZeroSample : XmProfileSample :=
  { bareSample 7 with userStackId := 0 }

def stackZeroMaps : ProfileMaps where
  sampleCountMap := AList.singleton stackZeroSample { count := 1, pidNs := 0, pgid := 7 }
  stackMap := AList.singleton 0 (List.replicate 1016 0)
  ehframeUserStackMap := ∅

def silentSymbolizer : Symbolizer Unit where
  resolve _ _ _ := (.error .other, ())
  getLangType _ _ := .other

def emptyFinder : ProfileTargetFinder where
  targets := []
  defaultTarget := { name := "host", labels := [], matchType := .none, matchVal := "" }

/-- The stack `0` survives the round that has fetched it. -/
theorem stack_zero_stays :
    ¬ Cleaned stackZeroMaps
      (collectProfiles silentSymbolizer emptyFinder false stackZeroMaps ()).1 := by
  intro h
  have hgone := h.stackIds 0 ⟨by decide, by decide, stackZeroSample, by decide, .inl rfl⟩
  exact hgone (mem_stackMap_collectProfiles.mpr ⟨by decide, fun hpos => absurd hpos.2 (by decide)⟩)

end XMonitor.Collector
