import XMonitor.Frame.TableInvariant
import XMonitor.Lib.BpfHash
import XMonitor.Lib.EventRun

/-!
# Handling of the unwind tables

The goroutine `handlingUnwindTables` fills two kernel maps: the modules of each
process that is to be unwound, and the FDE tables of each module, which processes
share and which are therefore reference counted. It reacts to two events, one that a
process needs tables and one that a process has exited.

What the outside world contributes to an event is part of it: the modules that
`GetProcModules` returns or its failure, the outcome of `CreateModuleFDETables` for
each module, and whether the update of the modules map fails. An update also fails
when its map is full. Lookups, deletions and updates of present keys succeed.
-/

namespace XMonitor

/-- The hashes of the modules that are in use, in slot order. -/
def PidMaps.hashes (maps : PidMaps) : List UInt64 :=
  (List.range maps.moduleCount).map fun i => (maps.modules i).buildIdHash

namespace Collector

/-- `__maxPerProcessAssocModuleCount`. -/
def maxPerProcessAssocModuleCount : Nat := 56

/-- The number of entries of both maps. -/
def mapMaxEntries : Nat := 256

/-- Tables that have just been created. -/
structure FreshTables where
  tables : ModuleFdeTables
  refCount : tables.refCount = 1

/-- The tables of a module are fresh when they come out of the table builder. -/
def FreshTables.ofFrame {S : SortFunc Frame.startLess} {order : Frame.ByteOrder}
    {fdes : List Frame.FrameDescriptionEntry} {t : ModuleFdeTables}
    (h : Frame.createModuleFDETables S order fdes = .ok t) : FreshTables :=
  ⟨t, Frame.createModuleFDETables_refCount h⟩

/-- A module of a process, with the outcome of `CreateModuleFDETables` should the
handler ask for it. -/
structure ProcModule where
  entry : ProcMapsModule
  fdeTables : Option FreshTables := none

def ProcModule.hash (m : ProcModule) : UInt64 := m.entry.buildIdHash

/-- `UnwindTablesOperEvt`, with the outcomes of the fallible calls. -/
inductive UnwindTablesOperEvt
  | create (pid : Int32) (procModules : Option (List ProcModule)) (updateFails : Bool)
  | delete (pid : Int32)

/-- The loop of `CreatePidMaps`. -/
def fillPidMaps : List ProcModule → PidMaps → Option PidMaps
  | [], procMaps => some procMaps
  | m :: modules, procMaps =>
    let procMaps : PidMaps :=
      { modules := Function.update procMaps.modules procMaps.moduleCount m.entry
        moduleCount := procMaps.moduleCount + 1 }
    if procMaps.moduleCount ≥ maxPerProcessAssocModuleCount then none
    else fillPidMaps modules procMaps

/-- `CreatePidMaps`. -/
def createPidMaps (procModules : Option (List ProcModule)) :
    Option (PidMaps × List ProcModule) := do
  let modules ← procModules
  let procMaps ← fillPidMaps modules {}
  return (procMaps, modules)

abbrev PidModulesMap := BpfHash Int32 PidMaps mapMaxEntries

abbrev ModuleFdetablesMap := BpfHash UInt64 ModuleFdeTables mapMaxEntries

/-- The state of the goroutine and of its maps. -/
structure UnwindState where
  pidsFilter : Finset Int32 := ∅
  pidModulesMap : PidModulesMap := .empty
  moduleFdetablesMap : ModuleFdetablesMap := .empty

/-- An update whose failure is only logged. -/
def updateOrKeep (tables : ModuleFdetablesMap) (key : UInt64) (t : ModuleFdeTables) :
    ModuleFdetablesMap :=
  (tables.update key t).getD tables

/-- The loop over the modules of a new process: create the tables of a module or
take another reference to them. -/
def addModule (tables : ModuleFdetablesMap) (m : ProcModule) : ModuleFdetablesMap :=
  match tables.lookup m.hash with
  | none =>
    match m.fdeTables with
    | some fresh => updateOrKeep tables m.hash fresh.tables
    | none => tables
  | some t => updateOrKeep tables m.hash { t with refCount := t.refCount + 1 }

/-- The loop over the modules of a process that has exited: give up a reference and
delete the tables with the last one. -/
def dropModule (tables : ModuleFdetablesMap) (hash : UInt64) : ModuleFdetablesMap :=
  match tables.lookup hash with
  | none => tables
  | some t =>
    if t.refCount - 1 > 0 then updateOrKeep tables hash { t with refCount := t.refCount - 1 }
    else tables.delete hash

/-- The modules map with an entry for `pid`, if `CreatePidMaps` and the update succeed. -/
def createEntry (s : UnwindState) (pid : Int32) (procModules : Option (List ProcModule))
    (updateFails : Bool) : Option (PidModulesMap × List ProcModule) :=
  match createPidMaps procModules with
  | none => none
  | some (procMaps, modules) =>
    if updateFails then none
    else (s.pidModulesMap.update pid procMaps).map fun pidModulesMap => (pidModulesMap, modules)

/-- One event of `handlingUnwindTables`. -/
def handle (s : UnwindState) : UnwindTablesOperEvt → UnwindState
  | .create pid procModules updateFails =>
    if pid ∈ s.pidsFilter then s
    else
      match createEntry s pid procModules updateFails with
      | none => { s with pidsFilter := insert pid s.pidsFilter }
      | some (pidModulesMap, modules) =>
        { pidsFilter := insert pid s.pidsFilter
          pidModulesMap
          moduleFdetablesMap := modules.foldl addModule s.moduleFdetablesMap }
  | .delete pid =>
    if pid ∈ s.pidsFilter then
      match s.pidModulesMap.lookup pid with
      | none => { s with pidsFilter := s.pidsFilter.erase pid }
      | some pidMaps =>
        { pidsFilter := s.pidsFilter.erase pid
          pidModulesMap := s.pidModulesMap.delete pid
          moduleFdetablesMap := pidMaps.hashes.foldl dropModule s.moduleFdetablesMap }
    else s

/-- The state after a sequence of events. -/
def run (events : List UnwindTablesOperEvt) : UnwindState := events.foldl handle {}

theorem run_snoc (events : List UnwindTablesOperEvt) (e : UnwindTablesOperEvt) :
    run (events ++ [e]) = handle (run events) e := by
  simp [run]

/-! ## What one event can do -/

theorem fillPidMaps_spec {modules : List ProcModule} {procMaps procMaps' : PidMaps}
    (h : fillPidMaps modules procMaps = some procMaps') :
    procMaps'.hashes = procMaps.hashes ++ modules.map ProcModule.hash ∧
      procMaps'.moduleCount = procMaps.moduleCount + modules.length ∧
      (modules = [] ∨ procMaps'.moduleCount < maxPerProcessAssocModuleCount) := by
  induction modules generalizing procMaps with
  | nil =>
      cases h
      simp
  | cons m modules ih =>
      simp only [fillPidMaps] at h
      split at h
      · cases h
      · rename_i hroom
        obtain ⟨hhashes, hcount, hlimit⟩ := ih h
        refine ⟨?_, by simp only [hcount, List.length_cons]; omega, .inr ?_⟩
        · rw [hhashes]
          have hkeep : (List.range procMaps.moduleCount).map (fun i =>
              (Function.update procMaps.modules procMaps.moduleCount m.entry i).buildIdHash) =
                procMaps.hashes := by
            apply List.map_congr_left
            intro i hi
            rw [Function.update_of_ne (Nat.ne_of_lt (List.mem_range.mp hi))]
          simp [PidMaps.hashes, List.range_succ, hkeep, ProcModule.hash]
        · obtain rfl | hlimit := hlimit
          · simp only [List.length_nil] at hcount
            omega
          · exact hlimit

theorem createPidMaps_spec {procModules : Option (List ProcModule)} {procMaps : PidMaps}
    {modules : List ProcModule} (h : createPidMaps procModules = some (procMaps, modules)) :
    procMaps.hashes = modules.map ProcModule.hash ∧
      modules.length < maxPerProcessAssocModuleCount := by
  obtain ⟨ms, -, h⟩ := Option.bind_eq_some_iff.mp h
  obtain ⟨pm, hfill, h⟩ := Option.bind_eq_some_iff.mp h
  cases h
  obtain ⟨hhashes, hcount, hlimit⟩ := fillPidMaps_spec hfill
  refine ⟨by simpa [PidMaps.hashes] using hhashes, ?_⟩
  obtain rfl | hlimit := hlimit
  · decide
  · simpa [hcount] using hlimit

theorem createEntry_spec {s : UnwindState} {pid : Int32} {procModules : Option (List ProcModule)}
    {updateFails : Bool} {pidModulesMap : PidModulesMap} {modules : List ProcModule}
    (h : createEntry s pid procModules updateFails = some (pidModulesMap, modules)) :
    ∃ procMaps, s.pidModulesMap.update pid procMaps = some pidModulesMap ∧
      procMaps.hashes = modules.map ProcModule.hash ∧
      modules.length < maxPerProcessAssocModuleCount := by
  rw [createEntry] at h
  split at h
  · cases h
  · rename_i procMaps ms hcreate
    split at h
    · cases h
    · obtain ⟨pm, hupdate, h⟩ := Option.map_eq_some_iff.mp h
      cases h
      exact ⟨procMaps, hupdate, createPidMaps_spec hcreate⟩

/-- Only the deletion of a process takes its entry away. -/
theorem eq_delete_of_handle {s : UnwindState} {e : UnwindTablesOperEvt} {pid : Int32}
    (h : pid ∈ s.pidModulesMap.keys) (h' : pid ∉ (handle s e).pidModulesMap.keys) :
    e = .delete pid := by
  cases e with
  | create pid' procModules updateFails =>
      refine absurd ?_ h'
      simp only [handle]
      split
      · exact h
      · split
        · exact h
        · rename_i pidModulesMap modules hentry
          obtain ⟨procMaps, hupdate, -⟩ := createEntry_spec hentry
          rw [BpfHash.keys_of_update hupdate]
          exact Finset.mem_insert_of_mem h
  | delete pid' =>
      by_contra hne
      apply h'
      simp only [handle]
      split
      · split
        · exact h
        · rw [BpfHash.keys_delete, Finset.mem_erase]
          refine ⟨?_, h⟩
          rintro rfl
          exact hne rfl
      · exact h

/-! ## The filter

The filter is marked before the two steps that can fail, and nothing clears it when
one of them does. -/

/-- The filter holds exactly the processes with an entry in the modules map. -/
def FilterExact (s : UnwindState) : Prop := ∀ pid, pid ∈ s.pidsFilter ↔ pid ∈ s.pidModulesMap.keys

/-- A create event that the handler attempts and that fails. -/
def FailedCreate (s : UnwindState) (e : UnwindTablesOperEvt) : Prop :=
  ∃ pid procModules updateFails, e = .create pid procModules updateFails ∧
    pid ∉ s.pidsFilter ∧ createEntry s pid procModules updateFails = none

/-- In every state of a run the filter is exact, and a create event that fails leaves
the state alone, so that the next one for its process is attempted again. -/
structure FilterConsistent (events : List UnwindTablesOperEvt) : Prop where
  exact_ : ∀ past, past <+: events → FilterExact (run past)
  retry : ∀ past e, past ++ [e] <+: events → FailedCreate (run past) e →
    run (past ++ [e]) = run past

theorem FilterExact.handle {s : UnwindState} {e : UnwindTablesOperEvt} (h : FilterExact s)
    (hok : ¬ FailedCreate s e) : FilterExact (handle s e) := by
  cases e with
  | create pid procModules updateFails =>
      simp only [Collector.handle]
      split
      · exact h
      · rename_i hpid
        split
        · rename_i hentry
          exact absurd ⟨pid, procModules, updateFails, rfl, hpid, hentry⟩ hok
        · rename_i pidModulesMap modules hentry
          obtain ⟨procMaps, hupdate, -⟩ := createEntry_spec hentry
          intro pid'
          simp only [BpfHash.keys_of_update hupdate, Finset.mem_insert, h pid']
  | delete pid =>
      simp only [Collector.handle]
      split
      · rename_i hpid
        split
        · rename_i hlookup
          exact absurd ((h pid).mp hpid) (BpfHash.lookup_eq_none_iff.mp hlookup)
        · intro pid'
          simp only [BpfHash.keys_delete, Finset.mem_erase, h pid']
      · exact h

/-- A failed create event marks its process. -/
theorem handle_of_failedCreate {s : UnwindState} {e : UnwindTablesOperEvt}
    (h : FailedCreate s e) : handle s e ≠ s := by
  obtain ⟨pid, procModules, updateFails, rfl, hpid, hentry⟩ := h
  intro heq
  have hfilter := congrArg UnwindState.pidsFilter heq
  simp only [handle, if_neg hpid, hentry] at hfilter
  exact hpid (hfilter ▸ Finset.mem_insert_self pid s.pidsFilter)

/-- The filter and the modules map agree along a run exactly if no create event that
the handler attempts in it fails. -/
theorem filterConsistent_iff (events : List UnwindTablesOperEvt) :
    FilterConsistent events ↔
      EventRun.AllSteps handle (fun s e => ¬ FailedCreate s e) {} events := by
  constructor
  · intro h
    rw [EventRun.allSteps_iff]
    intro past e hpast hfailed
    have hsame := h.retry past e hpast hfailed
    rw [run_snoc] at hsame
    exact handle_of_failedCreate hfailed hsame
  · intro hok
    refine ⟨fun past hpast => ?_, fun past e hpast hfailed => ?_⟩
    · exact EventRun.foldl_invariant (fun _ _ hs hstep => hs.handle hstep)
        (fun pid => by simp) hok hpast
    · exact absurd hfailed (EventRun.allSteps_iff.mp hok past e hpast)

/-- A process whose modules could not be read is not tried again. -/
theorem failed_create_not_retried :
    ¬ FilterConsistent [.create 1 none false, .create 1 (some []) false] ∧
      1 ∈ (run [.create 1 none false]).pidsFilter ∧
      1 ∉ (run [.create 1 none false]).pidModulesMap.keys ∧
      1 ∉ (run [.create 1 none false, .create 1 (some []) false]).pidModulesMap.keys := by
  refine ⟨fun h => ?_, by decide, by decide, by decide⟩
  have hexact := h.exact_ [.create 1 none false] ⟨[.create 1 (some []) false], rfl⟩ 1
  exact absurd (hexact.mp (by decide)) (by decide)

end Collector

end XMonitor
