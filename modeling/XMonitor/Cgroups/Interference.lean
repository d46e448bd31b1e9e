import Mathlib.Data.List.Forall2
import XMonitor.Cgroups.Memory

/-!
# Interference between cgroups

The static variables carry values from one collection to the next. A collection that does
not read a keyword exports the value that an earlier collection has left, and if another
cgroup has been collected in between, this value may be that of the other cgroup. This is
the only way in which cgroups interfere.
-/

namespace XMonitor.Cgroups

variable {κ : Type} [DecidableEq κ] (cgType : CgType)

/-- The static variables and the objects of all cgroups. -/
structure MemoryCollector (κ : Type) where
  statics : MemStat → UInt64
  objs : κ → MemoryObj

def initMemoryCollector : MemoryCollector κ where
  statics := fun _ => 0
  objs := fun _ => initCgroupObjMemoryMetrics cgType

/-- The collection for a cgroup with the files that it has at the time. -/
def MemoryCollector.collect (s : MemoryCollector κ) (e : κ × MemoryFiles) : Collected :=
  collectCgroupObjMemoryMetrics cgType s.statics (s.objs e.1) e.2

def collectStep (s : MemoryCollector κ) (e : κ × MemoryFiles) : MemoryCollector κ where
  statics := (s.collect cgType e).statics
  objs := Function.update s.objs e.1 (s.collect cgType e).obj

/-- What the collections for one cgroup export, in a run of collections for all. -/
def outputsOf (c : κ) : MemoryCollector κ → List (κ × MemoryFiles) → List (List MemoryOutput)
  | _, [] => []
  | s, e :: es =>
      if e.1 = c then (s.collect cgType e).outputs :: outputsOf c (collectStep cgType s e) es
      else outputsOf c (collectStep cgType s e) es

/-- Two runs collect the same cgroups in the same order, and one of them has the same files
in both. -/
def SameFor (c : κ) (es es' : List (κ × MemoryFiles)) : Prop :=
  List.Forall₂ (fun e e' => e.1 = e'.1 ∧ (e.1 = c → e.2 = e'.2)) es es'

/-- What a cgroup exports in a run does not depend on the files of the others. -/
def NonInterfering (c : κ) (es : List (κ × MemoryFiles)) : Prop :=
  ∀ es', SameFor c es es' →
    outputsOf cgType c (initMemoryCollector cgType) es =
      outputsOf cgType c (initMemoryCollector cgType) es'

def exportedStats : List MemStat := (memStatExports cgType).map MemStatExport.source

/-- Whenever another cgroup has been collected since the cgroup read its file last, or since
the start, the next collection that reads the file of the cgroup reads all keywords. `others`
says whether one has been, and `base` is the keyword list of the cgroup. -/
def ReadsAll (c : κ) : Bool → ArlBase MemStat → List (κ × MemoryFiles) → Prop
  | _, _, [] => True
  | others, base, (d, files) :: es =>
      if d = c then
        match files.statLines cgType with
        | none => ReadsAll c others base es
        | some lines =>
            (others = true → ∀ stat ∈ exportedStats cgType, stat ∈ writtenStats base lines) ∧
              ReadsAll c false (arlScan (arlBegin base) lines).1 es
      else ReadsAll c true base es

variable {cgType} {c : κ}

theorem collectStep_statics (s : MemoryCollector κ) (e : κ × MemoryFiles) :
    (collectStep cgType s e).statics = (s.collect cgType e).statics := rfl

theorem collectStep_self (s : MemoryCollector κ) (files : MemoryFiles) :
    (collectStep cgType s (c, files)).objs c = (s.collect cgType (c, files)).obj :=
  Function.update_self ..

theorem collectStep_other {s : MemoryCollector κ} {e : κ × MemoryFiles} (h : e.1 ≠ c) :
    (collectStep cgType s e).objs c = s.objs c :=
  Function.update_of_ne (Ne.symm h) ..

/-! ## Reading all keywords is enough -/

/-- Calls of the processor make two states agree on what they write. -/
theorem foldl_callback_congr {calls : List (MemStat × CString)}
    {statics statics' : MemStat → UInt64} {stat : MemStat}
    (h : statics stat = statics' stat ∨ stat ∈ calls.map Prod.fst) :
    calls.foldl arlCallbackStr2ull statics stat =
      calls.foldl arlCallbackStr2ull statics' stat :=
  foldl_update_congr str2uint64 h

theorem exportMemStat_congr {statics statics' : MemStat → UInt64} {es : List MemStatExport}
    (h : ∀ stat ∈ es.map MemStatExport.source, statics stat = statics' stat)
    (counters : MemStat → UInt64) :
    exportMemStat cgType statics counters es = exportMemStat cgType statics' counters es := by
  induction es generalizing counters with
  | nil => rfl
  | cons e es ih =>
      obtain ⟨hhead, htail⟩ := List.forall_mem_cons.mp h
      cases e with
      | gauge metric stat =>
          have hstat : statics stat = statics' stat := hhead
          simp only [exportMemStat, hstat, ih htail]
      | counter metric stat =>
          have hstat : statics stat = statics' stat := hhead
          simp only [exportMemStat, hstat, ih htail]

/-- What a collection makes of lines depends on the variables that it does not write. -/
theorem collectLines_congr {statics statics' : MemStat → UInt64} {obj : MemoryObj}
    {lines : ProcFile} (h : ∀ stat ∈ exportedStats cgType,
      statics stat = statics' stat ∨ stat ∈ writtenStats obj.arlBaseMemStat lines) :
    (collectLines cgType statics obj lines).obj = (collectLines cgType statics' obj lines).obj ∧
      (collectLines cgType statics obj lines).outputs =
        (collectLines cgType statics' obj lines).outputs ∧
      ∀ stat ∈ exportedStats cgType, (collectLines cgType statics obj lines).statics stat =
        (collectLines cgType statics' obj lines).statics stat := by
  have hstatics : ∀ stat ∈ exportedStats cgType,
      (arlScan (arlBegin obj.arlBaseMemStat) lines).2.foldl arlCallbackStr2ull statics stat =
        (arlScan (arlBegin obj.arlBaseMemStat) lines).2.foldl arlCallbackStr2ull statics' stat :=
    fun stat hstat => foldl_callback_congr (h stat hstat)
  refine ⟨?_, ?_, hstatics⟩
  · simp only [collectLines, exportMemStat_congr hstatics]
  · simp only [collectLines, exportMemStat_congr hstatics]

/-- Two runs that a cgroup cannot tell apart so far. -/
structure Alike (cgType : CgType) (c : κ) (others : Bool) (s s' : MemoryCollector κ) :
    Prop where
  obj : s.objs c = s'.objs c
  statics : others = false → ∀ stat ∈ exportedStats cgType, s.statics stat = s'.statics stat

section Alike

variable {others : Bool} {s s' : MemoryCollector κ}

/-- A collection for another cgroup. -/
theorem Alike.other (h : Alike cgType c others s s') {e e' : κ × MemoryFiles}
    (he : e.1 ≠ c) (he' : e'.1 ≠ c) :
    Alike cgType c true (collectStep cgType s e) (collectStep cgType s' e') where
  obj := by rw [collectStep_other he, collectStep_other he', h.obj]
  statics := fun hfalse => nomatch hfalse

/-- A collection for the cgroup that does not get to its lines. -/
theorem Alike.early (h : Alike cgType c others s s') {files : MemoryFiles}
    (hlines : files.statLines cgType = none) :
    (s.collect cgType (c, files)).outputs = (s'.collect cgType (c, files)).outputs ∧
      Alike cgType c others (collectStep cgType s (c, files))
        (collectStep cgType s' (c, files)) ∧
      (collectStep cgType s (c, files)).objs c = s.objs c := by
  obtain ⟨outputs, hcollect⟩ := collect_of_statLines_none hlines
  have hs : s.collect cgType (c, files) = ⟨s.statics, s.objs c, outputs⟩ := hcollect _ _
  have hs' : s'.collect cgType (c, files) = ⟨s'.statics, s'.objs c, outputs⟩ := hcollect _ _
  refine ⟨by rw [hs, hs'], ⟨?_, ?_⟩, by rw [collectStep_self, hs]⟩
  · rw [collectStep_self, collectStep_self, hs, hs', h.obj]
  · rw [collectStep_statics, collectStep_statics, hs, hs']
    exact h.statics

/-- A collection for the cgroup that reads lines. -/
theorem Alike.reads (h : Alike cgType c others s s') {files : MemoryFiles} {lines : ProcFile}
    (hlines : files.statLines cgType = some lines)
    (hall : others = true → ∀ stat ∈ exportedStats cgType,
      stat ∈ writtenStats (s.objs c).arlBaseMemStat lines) :
    (s.collect cgType (c, files)).outputs = (s'.collect cgType (c, files)).outputs ∧
      Alike cgType c false (collectStep cgType s (c, files))
        (collectStep cgType s' (c, files)) ∧
      ((collectStep cgType s (c, files)).objs c).arlBaseMemStat =
        (arlScan (arlBegin (s.objs c).arlBaseMemStat) lines).1 := by
  obtain ⟨before, after, hcollect⟩ := collect_of_statLines_some hlines
  obtain ⟨hstatics, hobj, houtputs⟩ := hcollect s.statics (s.objs c)
  obtain ⟨hstatics', hobj', houtputs'⟩ := hcollect s'.statics (s'.objs c)
  rw [← h.obj] at hstatics' hobj' houtputs'
  have hagree : ∀ stat ∈ exportedStats cgType, s.statics stat = s'.statics stat ∨
      stat ∈ writtenStats (s.objs c).arlBaseMemStat lines := by
    intro stat hstat
    cases others with
    | true => exact .inr (hall rfl stat hstat)
    | false => exact .inl (h.statics rfl stat hstat)
  obtain ⟨hobjEq, houtputsEq, hstaticsEq⟩ := collectLines_congr hagree
  refine ⟨?_, ⟨?_, fun _ => ?_⟩, ?_⟩
  · rw [MemoryCollector.collect, MemoryCollector.collect, houtputs, ← h.obj, houtputs',
      houtputsEq]
  · rw [collectStep_self, collectStep_self, MemoryCollector.collect, MemoryCollector.collect,
      hobj, ← h.obj, hobj', hobjEq]
  · rw [collectStep_statics, collectStep_statics, MemoryCollector.collect,
      MemoryCollector.collect, hstatics, ← h.obj, hstatics']
    exact hstaticsEq
  · rw [collectStep_self, MemoryCollector.collect, hobj]
    rfl

/-- Runs that a cgroup cannot tell apart stay alike if it reads all keywords. -/
theorem Alike.outputsOf_eq {es es' : List (κ × MemoryFiles)} (h : Alike cgType c others s s')
    (hreads : ReadsAll cgType c others (s.objs c).arlBaseMemStat es) (hes : SameFor c es es') :
    outputsOf cgType c s es = outputsOf cgType c s' es' := by
  induction hes generalizing others s s' with
  | nil => rfl
  | @cons e e' es es' hsame hrest ih =>
      obtain ⟨d, files⟩ := e
      obtain ⟨d', files'⟩ := e'
      obtain ⟨hd, hfiles⟩ := hsame
      obtain rfl : d = d' := hd
      rw [ReadsAll] at hreads
      rw [outputsOf, outputsOf]
      by_cases heq : d = c
      · subst heq
        obtain rfl : files = files' := hfiles rfl
        rw [if_pos rfl] at hreads ⊢
        rw [if_pos rfl]
        cases hlines : files.statLines cgType with
        | none =>
            rw [hlines] at hreads
            obtain ⟨houtputs, halike, hobj⟩ := h.early hlines
            rw [houtputs, ih halike (hobj ▸ hreads)]
        | some lines =>
            rw [hlines] at hreads
            obtain ⟨houtputs, halike, hbase⟩ := h.reads hlines hreads.1
            rw [houtputs, ih halike (hbase ▸ hreads.2)]
      · rw [if_neg heq] at hreads ⊢
        rw [if_neg heq]
        apply ih (h.other heq heq)
        rw [collectStep_other heq]
        exact hreads

end Alike

/-! ## Files that write one variable or none -/

/-- An empty `memory.stat`. -/
def quietFiles : MemoryFiles where
  stat := .read [[]]

/-- A `memory.stat` with one keyword. -/
def memStatFile (keyword : CString) (value : UInt64) : MemoryFiles where
  stat := .read [[keyword, Nat.toDigits 10 value.toNat], []]

theorem collect_quietFiles (statics : MemStat → UInt64) (obj : MemoryObj) :
    (collectCgroupObjMemoryMetrics cgType statics obj quietFiles).statics = statics := by
  cases cgType with
  | v1 => rfl
  | v2 => rfl

/-- A file with one expected keyword writes its variable, whatever was read before. -/
theorem collect_memStatFile {statics : MemStat → UInt64} {obj : MemoryObj}
    (h : obj.arlBaseMemStat.Expects (expectedKeywords cgType)) {keyword : CString}
    {stat : MemStat} (hmem : (keyword, stat) ∈ expectedKeywords cgType) (value : UInt64) :
    (collectCgroupObjMemoryMetrics cgType statics obj (memStatFile keyword value)).statics =
      Function.update statics stat value := by
  have hcall := h.arlBegin.call_arlCheck hmem (Nat.toDigits 10 value.toNat)
  have hcalls : (arlScan (arlBegin obj.arlBaseMemStat)
      [[keyword, Nat.toDigits 10 value.toNat], []]).2 =
        [(stat, Nat.toDigits 10 value.toNat)] := by
    generalize Nat.toDigits 10 value.toNat = text at hcall
    rw [arlScan, if_neg (by simp)]
    dsimp only
    split
    · show (arlCheck (arlBegin obj.arlBaseMemStat) keyword text).call.toList = _
      rw [hcall]
      rfl
    · show (arlCheck (arlBegin obj.arlBaseMemStat) keyword text).call.toList ++ [] = _
      rw [hcall]
      rfl
  have hlines : (memStatFile keyword value).statLines cgType =
      some [[keyword, Nat.toDigits 10 value.toNat], []] := by
    cases cgType with
    | v1 => rfl
    | v2 => rfl
  obtain ⟨before, after, hcollect⟩ := collect_of_statLines_some hlines
  obtain ⟨hstatics, -⟩ := hcollect statics obj
  rw [hstatics, collectLines_statics, hcalls]
  show Function.update statics stat (str2uint64 _) = _
  rw [str2uint64_toDigits, UInt64.ofNat_toNat]

/-- Every value of a variable that was exported last leaves two values that are exported
differently. -/
theorem exists_exported_differently (cgType : CgType) {es : List MemStatExport} {stat : MemStat}
    (h : stat ∈ es.map MemStatExport.source) (last : UInt64) :
    ∃ value value', ∀ statics statics' counters counters' : MemStat → UInt64,
      statics stat = value → statics' stat = value' →
      counters stat = last → counters' stat = last →
      (exportMemStat cgType statics counters es).2 ≠
        (exportMemStat cgType statics' counters' es).2 := by
  induction es with
  | nil => exact absurd h List.not_mem_nil
  | cons e es ih =>
      by_cases heq : e.source = stat
      · subst heq
        cases e with
        | gauge metric stat =>
            refine ⟨0, 1, fun statics statics' counters counters' hs hs' _ _ hout => ?_⟩
            obtain ⟨hhead, -⟩ := List.cons.inj hout
            have hvalue := (MemoryOutput.gaugeSet.inj hhead).2
            have hs : statics stat = 0 := hs
            have hs' : statics' stat = 1 := hs'
            rw [hs, hs'] at hvalue
            exact absurd hvalue (by decide)
        | counter metric stat =>
            refine ⟨last, last + 1,
              fun statics statics' counters counters' hs hs' hc hc' hout => ?_⟩
            obtain ⟨hhead, -⟩ := List.cons.inj hout
            have hvalue := (MemoryOutput.counterAdd.inj hhead).2
            have hs : statics stat = last := hs
            have hs' : statics' stat = last + 1 := hs'
            have hc : counters stat = last := hc
            have hc' : counters' stat = last := hc'
            have hzero : last - last = 0 := UInt64.sub_self last
            have hone : last + 1 - last = 1 := by grind
            rw [hs, hs', hc, hc', hzero, hone] at hvalue
            exact absurd hvalue (by decide)
      · have hrest := (List.mem_cons.mp h).resolve_left (Ne.symm heq)
        obtain ⟨value, value', hdiffer⟩ := ih hrest
        refine ⟨value, value', fun statics statics' counters counters' hs hs' hc hc' hout => ?_⟩
        cases e with
        | gauge metric stat' =>
            exact hdiffer statics statics' counters counters' hs hs' hc hc'
              (List.cons.inj hout).2
        | counter metric stat' =>
            have hne : stat ≠ stat' := Ne.symm heq
            refine hdiffer statics statics' _ _ hs hs' ?_ ?_ (List.cons.inj hout).2
            · rw [Function.update_of_ne hne, hc]
            · rw [Function.update_of_ne hne, hc']

theorem foldl_callback_of_notMem {calls : List (MemStat × CString)} {stat : MemStat}
    (h : stat ∉ calls.map Prod.fst) (statics : MemStat → UInt64) :
    calls.foldl arlCallbackStr2ull statics stat = statics stat :=
  foldl_update_of_notMem str2uint64 h statics

/-! ## Reading all keywords is necessary -/

/-- The collection with the files of another cgroup replaced by empty ones. -/
def mute (c : κ) (e : κ × MemoryFiles) : κ × MemoryFiles :=
  if e.1 = c then e else (e.1, quietFiles)

def muted (c : κ) (es : List (κ × MemoryFiles)) : List (κ × MemoryFiles) := es.map (mute c)

/-- The keyword list of a cgroup after a run. -/
def ownBase (cgType : CgType) (c : κ) :
    ArlBase MemStat → List (κ × MemoryFiles) → ArlBase MemStat
  | base, [] => base
  | base, (d, files) :: es =>
      if d = c then
        match files.statLines cgType with
        | none => ownBase cgType c base es
        | some lines => ownBase cgType c (arlScan (arlBegin base) lines).1 es
      else ownBase cgType c base es

/-- The cgroup does not get to its lines. -/
def Silent (cgType : CgType) (c : κ) (es : List (κ × MemoryFiles)) : Prop :=
  ∀ files, (c, files) ∈ es → files.statLines cgType = none

theorem mute_self (files : MemoryFiles) : mute c (c, files) = (c, files) := if_pos rfl

theorem mute_other {d : κ} (h : d ≠ c) (files : MemoryFiles) :
    mute c (d, files) = (d, quietFiles) := if_neg h

theorem sameFor_muted (c : κ) (es : List (κ × MemoryFiles)) : SameFor c es (muted c es) := by
  induction es with
  | nil => exact List.Forall₂.nil
  | cons e es ih =>
      refine List.Forall₂.cons ⟨?_, fun heq => ?_⟩ ih
      · rw [mute]
        split <;> rfl
      · rw [mute, if_pos heq]

theorem outputsOf_append (s : MemoryCollector κ) (es es' : List (κ × MemoryFiles)) :
    outputsOf cgType c s (es ++ es') =
      outputsOf cgType c s es ++ outputsOf cgType c (es.foldl (collectStep cgType) s) es' := by
  induction es generalizing s with
  | nil => rfl
  | cons e es ih =>
      rw [List.cons_append, outputsOf, outputsOf, List.foldl_cons, ih]
      split <;> rfl

theorem outputsOf_cons_other {s : MemoryCollector κ} {e : κ × MemoryFiles} (h : e.1 ≠ c)
    (es : List (κ × MemoryFiles)) :
    outputsOf cgType c s (e :: es) = outputsOf cgType c (collectStep cgType s e) es := by
  rw [outputsOf, if_neg h]

theorem outputsOf_cons_self (s : MemoryCollector κ) (files : MemoryFiles)
    (es : List (κ × MemoryFiles)) :
    outputsOf cgType c s ((c, files) :: es) = (s.collect cgType (c, files)).outputs ::
      outputsOf cgType c (collectStep cgType s (c, files)) es := by
  rw [outputsOf, if_pos rfl]

/-- A muted collection changes nothing for the cgroup if the cgroup is silent in it. -/
theorem collectStep_mute {e : κ × MemoryFiles}
    (h : ∀ files, e = (c, files) → files.statLines cgType = none) (s : MemoryCollector κ) :
    (collectStep cgType s (mute c e)).statics = s.statics ∧
      (collectStep cgType s (mute c e)).objs c = s.objs c := by
  obtain ⟨d, files⟩ := e
  by_cases heq : d = c
  · subst heq
    obtain ⟨outputs, hcollect⟩ := collect_of_statLines_none (h files rfl)
    rw [mute_self, collectStep_statics, collectStep_self, MemoryCollector.collect, hcollect]
    exact ⟨rfl, rfl⟩
  · rw [mute_other heq]
    exact ⟨collect_quietFiles s.statics (s.objs d), collectStep_other heq⟩

omit [DecidableEq κ] in
theorem Silent.tail {e : κ × MemoryFiles} {es : List (κ × MemoryFiles)}
    (h : Silent cgType c (e :: es)) : Silent cgType c es :=
  fun files hfiles => h files (List.mem_cons_of_mem e hfiles)

theorem foldl_muted_of_silent {es : List (κ × MemoryFiles)} (h : Silent cgType c es)
    (s : MemoryCollector κ) :
    ((muted c es).foldl (collectStep cgType) s).statics = s.statics ∧
      ((muted c es).foldl (collectStep cgType) s).objs c = s.objs c := by
  induction es generalizing s with
  | nil => exact ⟨rfl, rfl⟩
  | cons e es ih =>
      have hfirst := collectStep_mute (fun files heq => h files (heq ▸ List.mem_cons_self)) s
      obtain ⟨hstatics, hobj⟩ := ih h.tail (collectStep cgType s (mute c e))
      exact ⟨hstatics.trans hfirst.1, hobj.trans hfirst.2⟩

theorem outputsOf_muted_of_silent {es : List (κ × MemoryFiles)} (h : Silent cgType c es)
    (s s' : MemoryCollector κ) :
    outputsOf cgType c s (muted c es) = outputsOf cgType c s' (muted c es) := by
  induction es generalizing s s' with
  | nil => rfl
  | cons e es ih =>
      obtain ⟨d, files⟩ := e
      show outputsOf cgType c s (mute c (d, files) :: muted c es) =
        outputsOf cgType c s' (mute c (d, files) :: muted c es)
      by_cases heq : d = c
      · subst heq
        obtain ⟨outputs, hcollect⟩ := collect_of_statLines_none (h files List.mem_cons_self)
        rw [mute_self, outputsOf_cons_self, outputsOf_cons_self, ih h.tail,
          MemoryCollector.collect, MemoryCollector.collect, hcollect, hcollect]
      · rw [mute_other heq, outputsOf_cons_other heq, outputsOf_cons_other heq]
        exact ih h.tail _ _

theorem ownBase_eq (s : MemoryCollector κ) (es : List (κ × MemoryFiles)) :
    (((muted c es).foldl (collectStep cgType) s).objs c).arlBaseMemStat =
      ownBase cgType c (s.objs c).arlBaseMemStat es := by
  induction es generalizing s with
  | nil => rfl
  | cons e es ih =>
      obtain ⟨d, files⟩ := e
      show (((muted c es).foldl (collectStep cgType)
        (collectStep cgType s (mute c (d, files)))).objs c).arlBaseMemStat = _
      rw [ih, ownBase]
      by_cases heq : d = c
      · subst heq
        rw [mute_self, if_pos rfl, collectStep_self, MemoryCollector.collect]
        cases hlines : files.statLines cgType with
        | none =>
            obtain ⟨outputs, hcollect⟩ := collect_of_statLines_none hlines
            rw [hcollect]
        | some lines =>
            obtain ⟨before, after, hcollect⟩ := collect_of_statLines_some hlines
            obtain ⟨-, hobj, -⟩ := hcollect s.statics (s.objs d)
            rw [hobj]
            rfl
      · rw [mute_other heq, if_neg heq, collectStep_other heq]

/-- The objects of all cgroups keep their keywords in every run. -/
theorem foldl_expects {s : MemoryCollector κ} {keywords : List (CString × MemStat)}
    (h : ∀ d, (s.objs d).arlBaseMemStat.Expects keywords) (es : List (κ × MemoryFiles)) :
    ∀ d, ((es.foldl (collectStep cgType) s).objs d).arlBaseMemStat.Expects keywords := by
  have keep : ∀ (s : MemoryCollector κ) (e : κ × MemoryFiles),
      (∀ d, (s.objs d).arlBaseMemStat.Expects keywords) →
      ∀ d, ((collectStep cgType s e).objs d).arlBaseMemStat.Expects keywords := by
    intro s e hs d
    by_cases heq : d = e.1
    · subst heq
      show ((Function.update s.objs e.1 _) e.1).arlBaseMemStat.Expects keywords
      rw [Function.update_self]
      exact collect_expects (hs e.1)
    · rw [collectStep_other (Ne.symm heq)]
      exact hs d
  exact EventRun.foldl_preserves keep h es

/-- The first collection of a cgroup that gets to its lines leaves a keyword out. -/
def LeavesOut (cgType : CgType) (c : κ) (base : ArlBase MemStat) (es : List (κ × MemoryFiles)) :
    Prop :=
  ∃ mid files rest lines, es = mid ++ (c, files) :: rest ∧ Silent cgType c mid ∧
    files.statLines cgType = some lines ∧
    ∃ stat ∈ exportedStats cgType, stat ∉ writtenStats base lines

omit [DecidableEq κ] in
theorem LeavesOut.cons_silent {base : ArlBase MemStat} {es : List (κ × MemoryFiles)}
    (h : LeavesOut cgType c base es) {own : MemoryFiles} (hown : own.statLines cgType = none) :
    LeavesOut cgType c base ((c, own) :: es) := by
  obtain ⟨mid, files, rest, lines, rfl, hsilent, hlines⟩ := h
  refine ⟨(c, own) :: mid, files, rest, lines, rfl, fun files' hmem => ?_, hlines⟩
  obtain hfirst | hmem := List.mem_cons.mp hmem
  · rw [(Prod.mk.inj hfirst).2]
    exact hown
  · exact hsilent files' hmem

/-- A run that does not read all keywords has a collection that leaves one out, after
another cgroup has been collected and the cgroup has been silent since. -/
theorem exists_left_out {others : Bool} {base : ArlBase MemStat}
    {es : List (κ × MemoryFiles)} (h : ¬ReadsAll cgType c others base es) :
    (others = true ∧ LeavesOut cgType c base es) ∨
    ∃ past other es', es = past ++ other :: es' ∧ other.1 ≠ c ∧
      LeavesOut cgType c (ownBase cgType c base past) es' := by
  induction es generalizing others base with
  | nil => exact absurd trivial h
  | cons e es ih =>
      obtain ⟨d, own⟩ := e
      rw [ReadsAll] at h
      by_cases heq : d = c
      · subst heq
        rw [if_pos rfl] at h
        cases hlines : own.statLines cgType with
        | none =>
            rw [hlines] at h
            obtain ⟨hothers, hleaves⟩ | ⟨past, other, es', rfl, hother, hleaves⟩ := ih h
            · exact .inl ⟨hothers, hleaves.cons_silent hlines⟩
            · refine .inr ⟨(d, own) :: past, other, es', rfl, hother, ?_⟩
              rw [ownBase, if_pos rfl, hlines]
              exact hleaves
        | some lines =>
            rw [hlines, not_and_or] at h
            obtain hleft | hrest := h
            · push Not at hleft
              have hnil : Silent cgType d [] := fun _ hmem => absurd hmem List.not_mem_nil
              exact .inl ⟨hleft.1, [], own, es, lines, rfl, hnil, hlines, hleft.2⟩
            · obtain ⟨hfalse, -⟩ | ⟨past, other, es', rfl, hother, hleaves⟩ := ih hrest
              · exact nomatch hfalse
              · refine .inr ⟨(d, own) :: past, other, es', rfl, hother, ?_⟩
                rw [ownBase, if_pos rfl, hlines]
                exact hleaves
      · rw [if_neg heq] at h
        obtain ⟨-, hleaves⟩ | ⟨past, other, es', rfl, hother, hleaves⟩ := ih h
        · exact .inr ⟨[], (d, own), es, rfl, heq, hleaves⟩
        · refine .inr ⟨(d, own) :: past, other, es', rfl, hother, ?_⟩
          rw [ownBase, if_neg heq]
          exact hleaves

/-- Another cgroup that has one keyword leaves its value to the next collection of the cgroup
that gets to its lines. -/
theorem outputsOf_after_memStatFile {s : MemoryCollector κ} {d : κ} (hd : d ≠ c)
    (hexpects : (s.objs d).arlBaseMemStat.Expects (expectedKeywords cgType)) {keyword : CString}
    {stat : MemStat} (hkeyword : (keyword, stat) ∈ expectedKeywords cgType)
    {mid : List (κ × MemoryFiles)} (hsilent : Silent cgType c mid) (files : MemoryFiles)
    (rest : List (κ × MemoryFiles)) (value : UInt64) :
    ∃ t : MemoryCollector κ, t.statics stat = value ∧ t.objs c = s.objs c ∧
      outputsOf cgType c s ((d, memStatFile keyword value) :: (muted c mid ++ (c, files) :: rest)) =
        outputsOf cgType c s (muted c mid) ++ ((t.collect cgType (c, files)).outputs ::
          outputsOf cgType c (collectStep cgType t (c, files)) rest) := by
  obtain ⟨hstatics, hobj⟩ :=
    foldl_muted_of_silent hsilent (collectStep cgType s (d, memStatFile keyword value))
  refine ⟨(muted c mid).foldl (collectStep cgType)
    (collectStep cgType s (d, memStatFile keyword value)), ?_, ?_, ?_⟩
  · rw [hstatics, collectStep_statics, MemoryCollector.collect,
      collect_memStatFile hexpects hkeyword, Function.update_self]
  · rw [hobj]
    exact collectStep_other hd
  · rw [outputsOf_cons_other hd, outputsOf_append, outputsOf_cons_self,
      outputsOf_muted_of_silent hsilent _ s]

omit [DecidableEq κ] in
/-- A collection exports the difference of a variable that it does not write. -/
theorem collect_outputs_ne {t t' : MemoryCollector κ} {stat : MemStat} {files : MemoryFiles}
    {lines : ProcFile} (hlines : files.statLines cgType = some lines) (hobj : t.objs c = t'.objs c)
    (hdiffer : ∀ statics statics' : MemStat → UInt64,
      statics stat = t.statics stat → statics' stat = t'.statics stat →
      (exportMemStat cgType statics (t.objs c).counters (memStatExports cgType)).2 ≠
        (exportMemStat cgType statics' (t.objs c).counters (memStatExports cgType)).2)
    (hleft : stat ∉ writtenStats (t.objs c).arlBaseMemStat lines) :
    (t.collect cgType (c, files)).outputs ≠ (t'.collect cgType (c, files)).outputs := by
  intro heq
  obtain ⟨before, after, hcollect⟩ := collect_of_statLines_some hlines
  obtain ⟨-, -, houtputs⟩ := hcollect t.statics (t.objs c)
  obtain ⟨-, -, houtputs'⟩ := hcollect t'.statics (t'.objs c)
  rw [MemoryCollector.collect, MemoryCollector.collect, houtputs, houtputs', ← hobj] at heq
  refine hdiffer _ _ ?_ ?_ (List.append_cancel_left (List.append_cancel_right heq))
  · exact foldl_callback_of_notMem hleft t.statics
  · exact foldl_callback_of_notMem hleft t'.statics

theorem readsAll_of_nonInterfering {es : List (κ × MemoryFiles)}
    (h : NonInterfering cgType c es) :
    ReadsAll cgType c false (initCgroupObjMemoryMetrics cgType).arlBaseMemStat es := by
  by_contra hnot
  obtain ⟨hfalse, -⟩ | ⟨past, other, es', rfl, hother, hleaves⟩ := exists_left_out hnot
  · exact nomatch hfalse
  obtain ⟨mid, files, rest, lines, rfl, hsilent, hlines, stat, hstat, hleft⟩ := hleaves
  obtain ⟨keyword, hkeyword⟩ := exists_keyword hstat
  -- the state when the other cgroup is collected, and what the cgroup has exported last
  let s : MemoryCollector κ :=
    (muted c past).foldl (collectStep cgType) (initMemoryCollector cgType)
  have hbase : (s.objs c).arlBaseMemStat =
      ownBase cgType c (initCgroupObjMemoryMetrics cgType).arlBaseMemStat past :=
    ownBase_eq (initMemoryCollector cgType) past
  have hexpects : (s.objs other.1).arlBaseMemStat.Expects (expectedKeywords cgType) :=
    foldl_expects (fun _ => initCgroupObjMemoryMetrics_expects cgType) (muted c past) other.1
  obtain ⟨value, value', hdiffer⟩ :=
    exists_exported_differently cgType hstat ((s.objs c).counters stat)
  -- the runs in which the other cgroup has the one or the other value
  let run : UInt64 → List (κ × MemoryFiles) := fun v =>
    muted c past ++ (other.1, memStatFile keyword v) :: (muted c mid ++ (c, files) :: rest)
  have hsame : ∀ v, SameFor c (past ++ other :: (mid ++ (c, files) :: rest)) (run v) := by
    intro v
    have hrest : SameFor c ((c, files) :: rest) ((c, files) :: rest) :=
      List.forall₂_same.mpr fun _ _ => ⟨rfl, fun _ => rfl⟩
    have hmid := List.rel_append (sameFor_muted c mid) hrest
    exact List.rel_append (sameFor_muted c past)
      (List.Forall₂.cons ⟨rfl, fun heq => absurd heq hother⟩ hmid)
  obtain ⟨t, ht, hobj, hout⟩ :=
    outputsOf_after_memStatFile hother hexpects hkeyword hsilent files rest value
  obtain ⟨t', ht', hobj', hout'⟩ :=
    outputsOf_after_memStatFile hother hexpects hkeyword hsilent files rest value'
  have hruns := (h _ (hsame value)).symm.trans (h _ (hsame value'))
  rw [outputsOf_append, outputsOf_append, hout, hout'] at hruns
  have hcollections :=
    (List.cons.inj (List.append_cancel_left (List.append_cancel_left hruns))).1
  have hunwritten : stat ∉ writtenStats (t.objs c).arlBaseMemStat lines := by
    rw [hobj, hbase]
    exact hleft
  refine collect_outputs_ne hlines (hobj.trans hobj'.symm) ?_ hunwritten hcollections
  intro statics statics' hs hs'
  have hlast : (t.objs c).counters stat = (s.objs c).counters stat := by rw [hobj]
  exact hdiffer statics statics' _ _ (hs.trans ht) (hs'.trans ht') hlast hlast

/-- What a cgroup exports in a run is independent of the files of the other cgroups if and
only if the cgroup reads all keywords whenever another one has been collected. -/
theorem nonInterfering_iff_readsAll (cgType : CgType) (c : κ) (es : List (κ × MemoryFiles)) :
    NonInterfering cgType c es ↔
      ReadsAll cgType c false (initCgroupObjMemoryMetrics cgType).arlBaseMemStat es := by
  refine ⟨readsAll_of_nonInterfering, fun hreads es' hes => ?_⟩
  have halike : Alike cgType c false (initMemoryCollector cgType) (initMemoryCollector cgType) :=
    ⟨rfl, fun _ _ _ => rfl⟩
  exact halike.outputsOf_eq hreads hes

/-- A cgroup whose file does not have the keyword `anon` exports the value of the cgroup that
was collected before it. -/
theorem anon_of_other_cgroup : ¬∀ (cgType : CgType) (c : Bool) (es : List (Bool × MemoryFiles)),
    NonInterfering cgType c es := by
  intro h
  let own : MemoryFiles := { stat := .read [["file".toList, ['7']], []] }
  let other : Char → MemoryFiles := fun digit => { stat := .read [["anon".toList, [digit]], []] }
  have hsame : SameFor true [(false, other '1'), (true, own)] [(false, other '2'), (true, own)] :=
    List.Forall₂.cons ⟨rfl, fun heq => nomatch heq⟩
      (List.Forall₂.cons ⟨rfl, fun _ => rfl⟩ List.Forall₂.nil)
  exact absurd (h .v2 true _ _ hsame) (by decide)

end XMonitor.Cgroups
