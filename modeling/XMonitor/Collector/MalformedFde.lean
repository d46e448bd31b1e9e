import XMonitor.Collector.UnwindTables
import XMonitor.Frame.WellFormed

/-!
# Malformed FDEs and the goroutine

`handlingUnwindTables` runs the FDEs of every new module, and recovers from a panic only
outside of its loop: the panic of one FDE ends the goroutine. Here the events carry the FDEs
of the modules, and a run of events stops at the first panic. Without malformed FDEs it is
the run in which the outcomes of `CreateModuleFDETables` are given.
-/

namespace XMonitor.Collector

/-- A module of a process with the FDEs of its file, if that can be parsed. -/
structure ParsedModule where
  entry : ProcMapsModule
  fdes : Option (List Frame.FrameDescriptionEntry)

/-- `UnwindTablesOperEvt`, with the modules as they are parsed. -/
inductive ParsedEvent
  | create (pid : Int32) (procModules : Option (List ParsedModule)) (updateFails : Bool)
  | delete (pid : Int32)

section

variable (S : SortFunc Frame.startLess) (order : Frame.ByteOrder)

/-- `CreateModuleFDETables` on the FDEs of the module, if that returns tables. -/
def ParsedModule.outcome (m : ParsedModule) : ProcModule :=
  { entry := m.entry
    fdeTables :=
      match m.fdes with
      | none => none
      | some fdes =>
        match h : Frame.createModuleFDETables S order fdes with
        | .ok _ => some (.ofFrame h)
        | .error _ => none }

def ParsedEvent.outcome : ParsedEvent → UnwindTablesOperEvt
  | .create pid procModules updateFails =>
    .create pid (procModules.map fun modules => modules.map (ParsedModule.outcome S order))
      updateFails
  | .delete pid => .delete pid

/-- `addModule`, with the panics of the interpreter. -/
def tryAddModule (tables : ModuleFdetablesMap) (m : ParsedModule) :
    Except Frame.Panic ModuleFdetablesMap :=
  match tables.lookup m.entry.buildIdHash with
  | none =>
    match m.fdes with
    | none => .ok tables
    | some fdes => do
      let fdeTables ← Frame.createModuleFDETables S order fdes
      return updateOrKeep tables m.entry.buildIdHash fdeTables
  | some t => .ok (updateOrKeep tables m.entry.buildIdHash { t with refCount := t.refCount + 1 })

/-- `handle`, with the panics of the interpreter. -/
def tryHandle (s : UnwindState) (e : ParsedEvent) : Except Frame.Panic UnwindState :=
  match e with
  | .create pid procModules updateFails =>
    if pid ∈ s.pidsFilter then .ok s
    else
      match createEntry s pid (procModules.map fun modules =>
          modules.map (ParsedModule.outcome S order)) updateFails with
      | none => .ok { s with pidsFilter := insert pid s.pidsFilter }
      | some (pidModulesMap, _) => do
        let moduleFdetablesMap ←
          (procModules.getD []).foldlM (tryAddModule S order) s.moduleFdetablesMap
        return { pidsFilter := insert pid s.pidsFilter, pidModulesMap, moduleFdetablesMap }
  | .delete pid => .ok (handle s (.delete pid))

/-- The goroutine serves the events in their order, until one of them panics. -/
def serve (events : List ParsedEvent) : Except Frame.Panic UnwindState :=
  events.foldlM (tryHandle S order) {}

end

/-- No FDE of the module is malformed. -/
def ParsedModule.WellFormed (m : ParsedModule) : Prop :=
  ∀ fdes ∈ m.fdes, ∀ fde ∈ fdes, fde.WellFormed

def ParsedEvent.WellFormed : ParsedEvent → Prop
  | .create _ procModules _ => ∀ modules ∈ procModules, ∀ m ∈ modules, m.WellFormed
  | .delete _ => True

section

variable {S : SortFunc Frame.startLess} {order : Frame.ByteOrder}

theorem tryAddModule_eq {tables : ModuleFdetablesMap} {m : ParsedModule} (hm : m.WellFormed) :
    tryAddModule S order tables m = .ok (addModule tables (m.outcome S order)) := by
  rw [tryAddModule, addModule]
  change _ = Except.ok (match tables.lookup m.entry.buildIdHash with
    | none => _
    | some t => _)
  cases tables.lookup m.entry.buildIdHash with
  | some t => rfl
  | none =>
      obtain ⟨entry, fdes⟩ := m
      cases fdes with
      | none => rfl
      | some fdes =>
          obtain ⟨t, ht⟩ := Frame.createModuleFDETables_of_rows S fun fde hfde =>
            (Frame.fdeRows_scan fde order).mpr (hm fdes rfl fde hfde)
          have houtcome : (ParsedModule.outcome S order ⟨entry, some fdes⟩).fdeTables =
              some (.ofFrame ht) := by
            simp only [ParsedModule.outcome]
            split
            · rename_i t' ht'
              cases ht.symm.trans ht'
              rfl
            · rename_i e he
              cases ht.symm.trans he
          rw [houtcome]
          change (Frame.createModuleFDETables S order fdes >>= _) = _
          rw [ht]
          rfl

theorem foldlM_tryAddModule {modules : List ParsedModule} (hm : ∀ m ∈ modules, m.WellFormed)
    (tables : ModuleFdetablesMap) :
    modules.foldlM (tryAddModule S order) tables =
      .ok ((modules.map (ParsedModule.outcome S order)).foldl addModule tables) := by
  induction modules generalizing tables with
  | nil => rfl
  | cons m modules ih =>
      obtain ⟨hfirst, hrest⟩ := List.forall_mem_cons.mp hm
      rw [List.foldlM_cons, tryAddModule_eq hfirst, List.map_cons, List.foldl_cons, ← ih hrest]
      rfl

/-- The modules whose tables are needed are those of the event. -/
theorem modules_of_createEntry {s : UnwindState} {pid : Int32}
    {procModules : Option (List ParsedModule)} {f : ParsedModule → ProcModule}
    {updateFails : Bool} {pidModulesMap : PidModulesMap} {modules : List ProcModule}
    (h : createEntry s pid (procModules.map fun modules => modules.map f) updateFails =
      some (pidModulesMap, modules)) :
    ∃ parsed, procModules = some parsed ∧ modules = parsed.map f := by
  cases procModules with
  | none => cases h
  | some parsed =>
      refine ⟨parsed, rfl, ?_⟩
      rw [createEntry] at h
      split at h
      · cases h
      · rename_i procMaps ms hcreate
        obtain ⟨procMaps', -, heq⟩ := Option.bind_eq_some_iff.mp hcreate
        cases heq
        split at h
        · cases h
        · obtain ⟨pm, -, h⟩ := Option.map_eq_some_iff.mp h
          cases h
          rfl

theorem tryHandle_eq {s : UnwindState} {e : ParsedEvent} (he : e.WellFormed) :
    tryHandle S order s e = .ok (handle s (e.outcome S order)) := by
  cases e with
  | delete pid => rfl
  | create pid procModules updateFails =>
      rw [tryHandle, ParsedEvent.outcome, handle]
      split
      · rfl
      · cases hentry : createEntry s pid (procModules.map fun modules =>
            modules.map (ParsedModule.outcome S order)) updateFails with
        | none => rfl
        | some entry =>
            obtain ⟨pidModulesMap, modules⟩ := entry
            obtain ⟨parsed, rfl, rfl⟩ := modules_of_createEntry hentry
            change ((parsed.foldlM (tryAddModule S order) s.moduleFdetablesMap) >>= _) = _
            rw [foldlM_tryAddModule (he parsed rfl)]
            rfl

/-- Without malformed FDEs the goroutine serves all events. -/
theorem serve_eq {events : List ParsedEvent} (he : ∀ e ∈ events, e.WellFormed) :
    serve S order events = .ok (run (events.map (ParsedEvent.outcome S order))) := by
  suffices hrun : ∀ s : UnwindState, events.foldlM (tryHandle S order) s =
      .ok ((events.map (ParsedEvent.outcome S order)).foldl handle s) from hrun {}
  induction events with
  | nil => exact fun s => rfl
  | cons e events ih =>
      obtain ⟨hfirst, hrest⟩ := List.forall_mem_cons.mp he
      intro s
      rw [List.foldlM_cons, tryHandle_eq hfirst, List.map_cons, List.foldl_cons, ← ih hrest]
      rfl

variable (S order) in
/-- Building the tables of a single FDE takes its rows, and nothing else can fail. -/
theorem createModuleFDETables_singleton (fde : Frame.FrameDescriptionEntry) :
    ∃ g : List Frame.ReceivedRow → ModuleFdeTables,
      Frame.createModuleFDETables S order [fde] = (Frame.fdeRows fde order).map g := by
  have hroom : Frame.Builder.initial.tables.fdeTableCount < Frame.maxPerModuleFDETableCount := by
    decide
  have hsingle : ∃ f, Frame.addFDE order Frame.Builder.initial fde =
      (Frame.fdeRows fde order).map f := ⟨_, Frame.addFDE_eq hroom⟩
  obtain ⟨f, hf⟩ := hsingle
  refine ⟨fun rows => Frame.sortInfos S (f rows).tables, ?_⟩
  rw [Frame.createModuleFDETables]
  change (Frame.addFDEs order [fde] Frame.Builder.initial).bind _ = _
  rw [Frame.addFDEs, if_neg (Nat.not_le.mpr hroom), hf]
  cases Frame.fdeRows fde order <;> rfl

/-- The event of a process whose only module has one FDE. -/
def createWith (pid : Int32) (entry : ProcMapsModule) (fde : Frame.FrameDescriptionEntry) :
    ParsedEvent :=
  .create pid (some [⟨entry, some [fde]⟩]) false

variable (S order) in
theorem tryHandle_createWith (pid : Int32) (entry : ProcMapsModule)
    (fde : Frame.FrameDescriptionEntry) : ∃ f : List Frame.ReceivedRow → UnwindState,
      tryHandle S order {} (createWith pid entry fde) = (Frame.fdeRows fde order).map f := by
  have hentry : ∃ pidModulesMap, createEntry {} pid
      ((some [ParsedModule.mk entry (some [fde])]).map fun modules =>
        modules.map (ParsedModule.outcome S order)) false =
      some (pidModulesMap, [ParsedModule.outcome S order ⟨entry, some [fde]⟩]) := ⟨_, rfl⟩
  obtain ⟨pidModulesMap, hentry⟩ := hentry
  obtain ⟨g, hg⟩ := createModuleFDETables_singleton S order fde
  refine ⟨fun rows =>
    { pidsFilter := insert pid ∅
      pidModulesMap
      moduleFdetablesMap := updateOrKeep .empty entry.buildIdHash (g rows) }, ?_⟩
  rw [createWith, tryHandle, if_neg (Finset.notMem_empty pid), hentry]
  change (((Frame.createModuleFDETables S order [fde]).bind fun t => _).bind pure).bind _ = _
  rw [hg]
  cases Frame.fdeRows fde order <;> rfl

/-- An event that panics is the last one. -/
theorem serve_of_panic {e : ParsedEvent} {p : Frame.Panic} (h : tryHandle S order {} e = .error p)
    (events : List ParsedEvent) : serve S order (e :: events) = .error p := by
  rw [serve, List.foldlM_cons, h]
  rfl

/-! ## Malformed FDEs -/

/-- Every FDE is run to its end if it is well formed and makes the interpreter panic
otherwise, and the goroutine with it. Without malformed FDEs the goroutine serves whatever
events come. -/
theorem delivers_iff_wellFormed (S : SortFunc Frame.startLess) (order : Frame.ByteOrder)
    (fde : Frame.FrameDescriptionEntry) (pid : Int32) (entry : ProcMapsModule) :
    (Frame.Delivers fde order ↔ fde.WellFormed) ∧
      ((∃ s, serve S order [createWith pid entry fde] = .ok s) ↔ fde.WellFormed) ∧
      ∀ events, (∀ e ∈ events, e.WellFormed) →
        serve S order events = .ok (run (events.map (ParsedEvent.outcome S order))) := by
  refine ⟨Frame.delivers_iff_fdeRows.trans (Frame.fdeRows_scan fde order), ?_,
    fun events he => serve_eq he⟩
  rw [← Frame.fdeRows_scan fde order]
  obtain ⟨f, hf⟩ := tryHandle_createWith S order pid entry fde
  rw [serve, List.foldlM_cons, hf]
  cases Frame.fdeRows fde order with
  | error p =>
      refine iff_of_false ?_ ?_
      · rintro ⟨s, h⟩
        cases h
      · rintro ⟨rows, h⟩
        cases h
  | ok rows => exact iff_of_true ⟨f rows, rfl⟩ ⟨rows, rfl⟩

/-- A row for each of two addresses, and the exit of the process. -/
theorem steppingFDE_served :
    Frame.Delivers (Frame.steppingFDE 0x1000 1) .littleEndian ∧
      serve Frame.stableSort .littleEndian
          [createWith 1 {} (Frame.steppingFDE 0x1000 1), .delete 1] =
        .ok (run ([createWith 1 {} (Frame.steppingFDE 0x1000 1), .delete 1].map
          (ParsedEvent.outcome Frame.stableSort .littleEndian))) := by
  have hgood : (Frame.steppingFDE 0x1000 1).WellFormed := ⟨0, rfl, rfl⟩
  obtain ⟨hdelivers, -, hserve⟩ := delivers_iff_wellFormed Frame.stableSort .littleEndian
    (Frame.steppingFDE 0x1000 1) 1 {}
  refine ⟨hdelivers.mpr hgood, hserve _ ?_⟩
  rw [List.forall_mem_cons, List.forall_mem_singleton]
  refine ⟨fun modules hmodules m hm => ?_, trivial⟩
  cases hmodules
  cases List.mem_singleton.mp hm
  intro fdes hfdes fde hfde
  cases hfdes
  cases List.mem_singleton.mp hfde
  exact hgood

/-- `DW_CFA_restore_state` without a remembered state. -/
def restoringFDE : Frame.FrameDescriptionEntry :=
  { cie := Frame.amd64CIE, instructions := [0x0b], begin_ := 0x1000, size := 16 }

theorem fdeRows_restoringFDE :
    Frame.fdeRows restoringFDE .littleEndian = .error .emptyStateStack := rfl

/-- One byte stops the goroutine, whatever events are still to come. -/
theorem restoringFDE_stops_serving :
    ¬ Frame.Delivers restoringFDE .littleEndian ∧
      ∀ pid entry events, serve Frame.stableSort .littleEndian
        (createWith pid entry restoringFDE :: events) = .error .emptyStateStack := by
  refine ⟨?_, fun pid entry events => ?_⟩
  · rw [Frame.delivers_iff_fdeRows, fdeRows_restoringFDE]
    rintro ⟨rows, h⟩
    cases h
  · obtain ⟨f, hf⟩ := tryHandle_createWith Frame.stableSort .littleEndian pid entry restoringFDE
    refine serve_of_panic ?_ events
    rw [hf, fdeRows_restoringFDE]
    rfl

end

end XMonitor.Collector
