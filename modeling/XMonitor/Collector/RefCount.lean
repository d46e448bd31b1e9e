import XMonitor.Collector.UnwindTables

/-!
# Reference counts of the unwind tables

`refs` is the reference count of a module's tables, zero if there are none. Both
loops of the handler are described by what they do to it: the loop of a create event
adds one for each module whose tables it finds or creates, the loop of a delete event
takes one away for each module of the process while there are tables.

The second loop does not know for which modules the first one has taken a reference.
Counts therefore never exceed the number of users (`refCount_bounds`), but they may
fall below it. `Tracked` runs record the references that each process holds; as long
as no process gives up more than it holds, no tables are dropped too early.
-/

namespace XMonitor.Collector

/-- The reference count of the tables of a hash. -/
def refs (tables : ModuleFdetablesMap) (hash : UInt64) : Nat :=
  (tables.lookup hash).elim 0 fun t => t.refCount.toNat

/-- Tables in the map have a reference. -/
def Positive (tables : ModuleFdetablesMap) : Prop :=
  ∀ hash t, tables.lookup hash = some t → 1 ≤ t.refCount.toNat

section

variable {tables : ModuleFdetablesMap} {hash : UInt64}

theorem refs_of_lookup {t : ModuleFdeTables} (h : tables.lookup hash = some t) :
    refs tables hash = t.refCount.toNat := by
  simp [refs, h]

theorem Positive.mem_keys_iff (h : Positive tables) :
    hash ∈ tables.keys ↔ 1 ≤ refs tables hash := by
  rw [tables.mem_keys, refs]
  cases hlookup : tables.lookup hash with
  | none => simp
  | some t => simpa using h hash t hlookup

/-! ## One module -/

theorem lookup_updateOrKeep_of_mem (hmem : hash ∈ tables.keys) (t : ModuleFdeTables)
    (hash' : UInt64) :
    (updateOrKeep tables hash t).lookup hash' =
      if hash' = hash then some t else tables.lookup hash' := by
  obtain ⟨m, hm⟩ := BpfHash.exists_update_of_mem hmem t
  rw [updateOrKeep, hm]
  exact BpfHash.lookup_of_update hm hash'

/-- The tables of the module are there after its turn, so a reference was taken. -/
def Taken (tables : ModuleFdetablesMap) (m : ProcModule) : Prop :=
  m.hash ∈ (addModule tables m).keys

instance (tables : ModuleFdetablesMap) (m : ProcModule) : Decidable (Taken tables m) :=
  inferInstanceAs (Decidable (m.hash ∈ (addModule tables m).keys))

/-- The turn of a module changes the count of its own hash by at most one. -/
theorem addModule_lookup_of_ne (m : ProcModule) {hash : UInt64} (hne : hash ≠ m.hash) :
    (addModule tables m).lookup hash = tables.lookup hash := by
  have keep (t : ModuleFdeTables) :
      (updateOrKeep tables m.hash t).lookup hash = tables.lookup hash := by
    rw [updateOrKeep]
    cases hup : tables.update m.hash t with
    | none => rfl
    | some m' => simp [BpfHash.lookup_of_update hup, hne]
  rw [addModule]
  split
  · split
    · exact keep _
    · rfl
  · exact keep _

theorem addModule_refs (m : ProcModule) (hroom : refs tables m.hash + 1 < 2 ^ 32)
    (hash : UInt64) :
    refs (addModule tables m) hash =
      refs tables hash + (if hash = m.hash ∧ Taken tables m then 1 else 0) := by
  by_cases hhash : hash = m.hash
  swap
  · simp [refs, addModule_lookup_of_ne m hhash, hhash]
  subst hhash
  simp only [true_and]
  cases hlookup : tables.lookup m.hash with
  | some t =>
      have hmem := BpfHash.mem_keys_of_lookup hlookup
      have hadd : (addModule tables m).lookup m.hash =
          some { t with refCount := t.refCount + 1 } := by
        rw [addModule, hlookup]
        simp only [lookup_updateOrKeep_of_mem hmem, if_true]
      have htaken : Taken tables m := BpfHash.mem_keys_of_lookup hadd
      rw [if_pos htaken, refs_of_lookup hadd, refs_of_lookup hlookup, UInt32.toNat_add]
      rw [refs_of_lookup hlookup] at hroom
      exact Nat.mod_eq_of_lt hroom
  | none =>
      have hzero : refs tables m.hash = 0 := by simp [refs, hlookup]
      rw [hzero, Nat.zero_add]
      have absent (h : addModule tables m = tables) :
          refs (addModule tables m) m.hash = if Taken tables m then 1 else 0 := by
        have : ¬ Taken tables m := by
          rw [Taken, h]
          exact BpfHash.lookup_eq_none_iff.mp hlookup
        rw [if_neg this, h, hzero]
      cases hfresh : m.fdeTables with
      | none =>
          apply absent
          simp only [addModule, hlookup, hfresh]
      | some fresh =>
          cases hup : tables.update m.hash fresh.tables with
          | none =>
              apply absent
              simp only [addModule, hlookup, hfresh, updateOrKeep, hup, Option.getD_none]
          | some m' =>
              have hadd : (addModule tables m).lookup m.hash = some fresh.tables := by
                simp only [addModule, hlookup, hfresh, updateOrKeep, hup, Option.getD_some,
                  BpfHash.lookup_of_update hup, if_true]
              have htaken : Taken tables m := BpfHash.mem_keys_of_lookup hadd
              rw [if_pos htaken, refs_of_lookup hadd, fresh.refCount]
              rfl

theorem Positive.of_refs (h : ∀ hash, hash ∈ tables.keys → 1 ≤ refs tables hash) :
    Positive tables := by
  intro hash t hlookup
  rw [← refs_of_lookup hlookup]
  exact h hash (BpfHash.mem_keys_of_lookup hlookup)

theorem Positive.addModule (hpos : Positive tables) (m : ProcModule)
    (hroom : refs tables m.hash + 1 < 2 ^ 32) : Positive (addModule tables m) := by
  apply Positive.of_refs
  intro hash hmem
  rw [addModule_refs m hroom]
  by_cases hhash : hash = m.hash
  · subst hhash
    rw [if_pos ⟨rfl, hmem⟩]
    exact Nat.le_add_left _ _
  · rw [BpfHash.mem_keys, addModule_lookup_of_ne m hhash, ← BpfHash.mem_keys,
      hpos.mem_keys_iff] at hmem
    exact Nat.le_trans hmem (Nat.le_add_right _ _)

/-- A reference is given up while there is one. -/
theorem dropModule_refs (hpos : Positive tables) (hash hash' : UInt64) :
    refs (dropModule tables hash) hash' =
      refs tables hash' - (if hash' = hash then 1 else 0) := by
  cases hlookup : tables.lookup hash with
  | none =>
      have hdrop : dropModule tables hash = tables := by simp only [dropModule, hlookup]
      rw [hdrop]
      by_cases hhash : hash' = hash
      · simp [refs, hhash, hlookup]
      · simp [hhash]
  | some t =>
      have hone : (1 : UInt32) ≤ t.refCount := by
        rw [UInt32.le_iff_toNat_le]
        exact hpos hash t hlookup
      have hpred : (t.refCount - 1).toNat = t.refCount.toNat - 1 :=
        UInt32.toNat_sub_of_le _ _ hone
      rw [dropModule, hlookup]
      simp only
      split
      · rw [refs, lookup_updateOrKeep_of_mem (BpfHash.mem_keys_of_lookup hlookup)]
        by_cases hhash : hash' = hash
        · simp [hhash, refs_of_lookup hlookup, hpred]
        · simp [hhash, refs]
      · rename_i hlast
        have hzero : t.refCount.toNat - 1 = 0 := by
          rw [← hpred]
          rw [gt_iff_lt, UInt32.lt_iff_toNat_lt] at hlast
          exact Nat.eq_zero_of_not_pos hlast
        by_cases hhash : hash' = hash
        · simp [hhash, refs, hlookup, hzero]
        · simp [hhash, refs]

theorem dropModule_mem_keys (hpos : Positive tables) {hash hash' : UInt64}
    (h : hash' ∈ (dropModule tables hash).keys) : 1 ≤ refs (dropModule tables hash) hash' := by
  obtain ⟨u, hu⟩ := Option.isSome_iff_exists.mp ((BpfHash.mem_keys _ _).mp h)
  rw [refs_of_lookup hu]
  rw [dropModule] at hu
  split at hu
  · exact hpos hash' u hu
  · rename_i t hlookup
    split at hu
    · rename_i hmore
      rw [lookup_updateOrKeep_of_mem (BpfHash.mem_keys_of_lookup hlookup)] at hu
      split at hu
      · cases hu
        rw [gt_iff_lt, UInt32.lt_iff_toNat_lt] at hmore
        exact hmore
      · exact hpos hash' u hu
    · rw [BpfHash.lookup_delete] at hu
      split at hu
      · cases hu
      · exact hpos hash' u hu

theorem Positive.dropModule (hpos : Positive tables) (hash : UInt64) :
    Positive (dropModule tables hash) :=
  Positive.of_refs fun _ => dropModule_mem_keys hpos

/-! ## The loops -/

theorem foldl_dropModule (hpos : Positive tables) (hashes : List UInt64) :
    Positive (hashes.foldl dropModule tables) ∧
      ∀ hash, refs (hashes.foldl dropModule tables) hash =
        refs tables hash - hashes.count hash := by
  induction hashes generalizing tables with
  | nil => exact ⟨hpos, fun hash => by simp⟩
  | cons x hashes ih =>
      obtain ⟨hpos', hrefs⟩ := ih (hpos.dropModule x)
      refine ⟨hpos', fun hash => ?_⟩
      rw [List.foldl_cons, hrefs, dropModule_refs hpos, List.count_cons]
      by_cases hhash : hash = x
      · subst hhash
        simp only [if_true, BEq.rfl]
        omega
      · have : (x == hash) = false := by simpa using Ne.symm hhash
        simp [hhash, this]

/-- The hashes for which the loop of a create event takes a reference. -/
def takenHashes : ModuleFdetablesMap → List ProcModule → List UInt64
  | _, [] => []
  | tables, m :: modules =>
    if Taken tables m then m.hash :: takenHashes (Collector.addModule tables m) modules
    else takenHashes (Collector.addModule tables m) modules

theorem count_takenHashes_le (tables : ModuleFdetablesMap) (modules : List ProcModule)
    (hash : UInt64) :
    (takenHashes tables modules).count hash ≤ (modules.map ProcModule.hash).count hash := by
  induction modules generalizing tables with
  | nil => exact Nat.le_refl _
  | cons m modules ih =>
      have hrest := ih (Collector.addModule tables m)
      rw [takenHashes, List.map_cons, List.count_cons]
      split
      · rw [List.count_cons]
        omega
      · omega

theorem foldl_addModule (hpos : Positive tables) (modules : List ProcModule)
    (hroom : ∀ hash, refs tables hash + modules.length < 2 ^ 32) :
    Positive (modules.foldl Collector.addModule tables) ∧
      ∀ hash, refs (modules.foldl Collector.addModule tables) hash =
        refs tables hash + (takenHashes tables modules).count hash := by
  induction modules generalizing tables with
  | nil => exact ⟨hpos, fun hash => by simp [takenHashes]⟩
  | cons m modules ih =>
      simp only [List.length_cons] at hroom
      have hone : refs tables m.hash + 1 < 2 ^ 32 := by
        have := hroom m.hash
        omega
      have hstep := addModule_refs m hone
      obtain ⟨hpos', hrefs⟩ := ih (hpos.addModule m hone) (fun hash => by
        have := hroom hash
        rw [hstep]
        split <;> omega)
      refine ⟨hpos', fun hash => ?_⟩
      rw [List.foldl_cons, hrefs, hstep, takenHashes]
      by_cases htaken : Taken tables m
      · rw [if_pos htaken, List.count_cons]
        by_cases hhash : hash = m.hash
        · simp [hhash, htaken]
          omega
        · have : (m.hash == hash) = false := by simpa using Ne.symm hhash
          simp [hhash, this]
      · simp [htaken]

end

/-! ## Counts and users -/

/-- The number of pairs of a process in the modules map and a slot of its modules
that has the hash. -/
def users (s : UnwindState) (hash : UInt64) : Nat :=
  s.pidModulesMap.total fun _ maps => maps.hashes.count hash

/-- What every event keeps. -/
structure UnwindState.Invariant (s : UnwindState) : Prop where
  filter : ∀ pid, pid ∈ s.pidModulesMap.keys → pid ∈ s.pidsFilter
  modules : ∀ pid maps, s.pidModulesMap.lookup pid = some maps →
    maps.hashes.length < maxPerProcessAssocModuleCount
  positive : Positive s.moduleFdetablesMap
  bound : ∀ hash, refs s.moduleFdetablesMap hash ≤ users s hash

/-- Both maps are small enough that no count comes near `2 ^ 32`. -/
theorem UnwindState.Invariant.room {s : UnwindState} (h : s.Invariant) {modules : List ProcModule}
    (hlen : modules.length < maxPerProcessAssocModuleCount) (hash : UInt64) :
    refs s.moduleFdetablesMap hash + modules.length < 2 ^ 32 := by
  have hlen : modules.length < 56 := hlen
  have husers : users s hash ≤ 256 * 56 := by
    apply BpfHash.total_le
    intro pid maps hlookup
    exact Nat.le_trans List.count_le_length (Nat.le_of_lt (h.modules pid maps hlookup))
  have := h.bound hash
  omega

theorem UnwindState.invariant_initial : ({} : UnwindState).Invariant where
  filter := by simp
  modules := by simp
  positive := by simp [Positive]
  bound := by simp [refs]

theorem UnwindState.Invariant.handle {s : UnwindState} (h : s.Invariant)
    (e : UnwindTablesOperEvt) : (handle s e).Invariant := by
  cases e with
  | create pid procModules updateFails =>
      simp only [Collector.handle]
      split
      · exact h
      rename_i hpid
      split
      · exact ⟨fun p hp => Finset.mem_insert_of_mem (h.filter p hp), h.modules, h.positive, h.bound⟩
      rename_i pidModulesMap modules hentry
      obtain ⟨procMaps, hupdate, hhashes, hlen⟩ := createEntry_spec hentry
      have hnew : pid ∉ s.pidModulesMap.keys := fun hmem => hpid (h.filter pid hmem)
      obtain ⟨hpos, hrefs⟩ := foldl_addModule h.positive modules (h.room hlen)
      refine ⟨?_, ?_, hpos, ?_⟩
      · intro p hp
        simp only [BpfHash.keys_of_update hupdate] at hp
        exact Finset.insert_subset_insert pid h.filter hp
      · intro p maps hlookup
        simp only [BpfHash.lookup_of_update hupdate] at hlookup
        split at hlookup
        · cases hlookup
          rw [hhashes, List.length_map]
          exact hlen
        · exact h.modules p maps hlookup
      · intro hash
        have htaken := count_takenHashes_le s.moduleFdetablesMap modules hash
        have hbound := h.bound hash
        simp only [users] at hbound ⊢
        rw [hrefs, BpfHash.total_of_update hupdate hnew, hhashes]
        omega
  | delete pid =>
      simp only [Collector.handle]
      split
      swap
      · exact h
      split
      · rename_i hlookup
        have hnone := BpfHash.lookup_eq_none_iff.mp hlookup
        refine ⟨fun p hp => ?_, h.modules, h.positive, h.bound⟩
        exact Finset.mem_erase.mpr ⟨fun heq => hnone (heq ▸ hp), h.filter p hp⟩
      · rename_i maps hlookup
        obtain ⟨hpos, hrefs⟩ := foldl_dropModule h.positive maps.hashes
        refine ⟨?_, ?_, hpos, ?_⟩
        · intro p hp
          exact Finset.erase_subset_erase pid h.filter hp
        · intro p maps' hlookup'
          simp only [BpfHash.lookup_delete] at hlookup'
          split at hlookup'
          · cases hlookup'
          · exact h.modules p maps' hlookup'
        · intro hash
          have hbound := h.bound hash
          have htotal := BpfHash.total_delete (f := fun _ maps => maps.hashes.count hash) hlookup
          simp only [users] at hbound ⊢
          rw [hrefs]
          omega

theorem run_invariant (events : List UnwindTablesOperEvt) : (run events).Invariant :=
  EventRun.foldl_preserves (fun _ e hs => hs.handle e) UnwindState.invariant_initial events

/-- In every reachable state the tables of a module have at least one reference and
at most as many as they have users. So they are gone with the last process, and no
delete event ever takes a reference from a count of zero. -/
theorem refCount_bounds (events : List UnwindTablesOperEvt) :
    (∀ hash t, (run events).moduleFdetablesMap.lookup hash = some t →
      1 ≤ t.refCount.toNat ∧ t.refCount.toNat ≤ users (run events) hash) ∧
    ((run events).pidModulesMap.keys = ∅ → (run events).moduleFdetablesMap.keys = ∅) ∧
    ∀ pid maps, (run events).pidModulesMap.lookup pid = some maps →
      ∀ before hash after, maps.hashes = before ++ hash :: after →
      ∀ t, (before.foldl dropModule (run events).moduleFdetablesMap).lookup hash = some t →
        1 ≤ t.refCount.toNat := by
  have hinv := run_invariant events
  have hbounds : ∀ hash t, (run events).moduleFdetablesMap.lookup hash = some t →
      1 ≤ t.refCount.toNat ∧ t.refCount.toNat ≤ users (run events) hash := by
    intro hash t hlookup
    refine ⟨hinv.positive hash t hlookup, ?_⟩
    rw [← refs_of_lookup hlookup]
    exact hinv.bound hash
  refine ⟨hbounds, fun hempty => ?_, fun pid maps hlookup before hash after hsplit t ht => ?_⟩
  · rw [BpfHash.keys_eq_empty_iff]
    intro hash
    cases hlookup : (run events).moduleFdetablesMap.lookup hash with
    | none => rfl
    | some t =>
        have hb := hbounds hash t hlookup
        have hzero : users (run events) hash = 0 := by
          rw [users, BpfHash.total, hempty, Finset.sum_empty]
        omega
  · exact (foldl_dropModule hinv.positive before).1 hash t ht

/-! ## References that processes hold -/

/-- A state together with the references that each process has taken and not yet
given up. -/
structure Tracked where
  state : UnwindState := {}
  held : Int32 → List UInt64 := fun _ => []

/-- The handler, with the references it takes for a process recorded. -/
def Tracked.handle (s : Tracked) (e : UnwindTablesOperEvt) : Tracked where
  state := Collector.handle s.state e
  held :=
    match e with
    | .create pid procModules updateFails =>
      if pid ∈ s.state.pidsFilter then s.held
      else
        match createEntry s.state pid procModules updateFails with
        | none => s.held
        | some (_, modules) =>
          Function.update s.held pid (takenHashes s.state.moduleFdetablesMap modules)
    | .delete pid =>
      if pid ∈ s.state.pidsFilter then Function.update s.held pid [] else s.held

/-- Tracking does not change the run. -/
theorem foldl_tracked_state (events : List UnwindTablesOperEvt) (s : Tracked) :
    (events.foldl Tracked.handle s).state = events.foldl handle s.state := by
  induction events generalizing s with
  | nil => rfl
  | cons e events ih => exact ih (s.handle e)

/-- The handling of a create event takes a reference for those modules whose tables it
leaves in the map. -/
theorem mem_takenHashes_iff {tables : ModuleFdetablesMap} (hpos : Positive tables)
    {modules : List ProcModule} (hroom : ∀ hash, refs tables hash + modules.length < 2 ^ 32)
    (hash : UInt64) :
    hash ∈ takenHashes tables modules ↔
      hash ∈ modules.map ProcModule.hash ∧ hash ∈ (modules.foldl addModule tables).keys := by
  obtain ⟨hpos', hrefs⟩ := foldl_addModule hpos modules hroom
  rw [hpos'.mem_keys_iff, hrefs]
  constructor
  · intro hmem
    have hcount : 1 ≤ (takenHashes tables modules).count hash := List.count_pos_iff.mpr hmem
    refine ⟨List.count_pos_iff.mp (Nat.lt_of_lt_of_le hcount ?_), by omega⟩
    exact count_takenHashes_le tables modules hash
  · rintro ⟨hmem, hcount⟩
    clear hpos' hrefs
    induction modules generalizing tables with
    | nil => simp at hmem
    | cons m modules ih =>
        simp only [List.length_cons] at hroom
        have hone : refs tables m.hash + 1 < 2 ^ 32 := by
          have := hroom m.hash
          omega
        have hstep := addModule_refs m hone hash
        have hroom' (hash : UInt64) : refs (addModule tables m) hash + modules.length < 2 ^ 32 := by
          have := hroom hash
          rw [addModule_refs m hone]
          split <;> omega
        have hpos' := hpos.addModule m hone
        rw [takenHashes] at hcount ⊢
        by_cases hhash : hash = m.hash
        · subst hhash
          by_cases htaken : Taken tables m
          · rw [if_pos htaken]
            exact List.mem_cons_self
          · -- the tables are still missing, so a later module has taken them
            rw [if_neg htaken] at hcount ⊢
            have habsent : ¬ 1 ≤ refs (addModule tables m) m.hash :=
              fun h => htaken (hpos'.mem_keys_iff.mpr h)
            simp only [htaken, and_false, if_false, Nat.add_zero] at hstep
            exact List.count_pos_iff.mp (by omega)
        · have hrest : hash ∈ modules.map ProcModule.hash := by
            rw [List.map_cons] at hmem
            exact (List.mem_cons.mp hmem).resolve_left hhash
          have hsame : (m.hash == hash) = false := by simpa using Ne.symm hhash
          simp only [hhash, false_and, if_false, Nat.add_zero] at hstep
          split
          · rename_i htaken
            rw [if_pos htaken, List.count_cons, hsame] at hcount
            exact List.mem_cons_of_mem _ (ih hpos' hroom' hrest (by rw [hstep]; simpa using hcount))
          · rename_i htaken
            rw [if_neg htaken] at hcount
            exact ih hpos' hroom' hrest (by rw [hstep]; exact hcount)

/-- A process that has an entry and has taken a reference finds the tables in place. -/
def Tracked.TablesInPlace (s : Tracked) : Prop :=
  ∀ pid hash, pid ∈ s.state.pidModulesMap.keys → hash ∈ s.held pid →
    hash ∈ s.state.moduleFdetablesMap.keys

/-- A delete event gives up no more references than its process holds: among the
tables that are in the map, each occurs in the modules of the process only as often as
the process has taken a reference to it. -/
def Tracked.DropsOwn (s : Tracked) : UnwindTablesOperEvt → Prop
  | .create _ _ _ => True
  | .delete pid => pid ∈ s.state.pidsFilter → ∀ maps, s.state.pidModulesMap.lookup pid = some maps →
    ∀ hash, hash ∈ s.state.moduleFdetablesMap.keys →
      maps.hashes.count hash ≤ (s.held pid).count hash

/-- Counts and references agree. -/
structure Tracked.Invariant (s : Tracked) : Prop where
  state : s.state.Invariant
  held : ∀ pid, pid ∉ s.state.pidModulesMap.keys → s.held pid = []
  owns : ∀ pid maps, s.state.pidModulesMap.lookup pid = some maps →
    ∀ hash, (s.held pid).count hash ≤ maps.hashes.count hash
  refs : ∀ hash, refs s.state.moduleFdetablesMap hash =
    s.state.pidModulesMap.total fun pid _ => (s.held pid).count hash

theorem Tracked.Invariant.tablesInPlace {s : Tracked} (h : s.Invariant) : s.TablesInPlace := by
  intro pid hash hpid hheld
  obtain ⟨maps, hmaps⟩ := Option.isSome_iff_exists.mp ((BpfHash.mem_keys _ _).mp hpid)
  rw [h.state.positive.mem_keys_iff, h.refs]
  have hone : 1 ≤ (s.held pid).count hash := List.count_pos_iff.mpr hheld
  exact Nat.le_trans hone
    (BpfHash.le_total (f := fun pid _ => (s.held pid).count hash) hmaps)

section

variable {s : Tracked} {pid : Int32} {procModules : Option (List ProcModule)} {updateFails : Bool}

/-- A create event that succeeds. -/
theorem Tracked.handle_create {entry : PidModulesMap} {modules : List ProcModule}
    (hpid : pid ∉ s.state.pidsFilter)
    (hentry : createEntry s.state pid procModules updateFails = some (entry, modules)) :
    s.handle (.create pid procModules updateFails) =
      { state :=
          { pidsFilter := insert pid s.state.pidsFilter
            pidModulesMap := entry
            moduleFdetablesMap := modules.foldl addModule s.state.moduleFdetablesMap }
        held := Function.update s.held pid
          (takenHashes s.state.moduleFdetablesMap modules) } := by
  simp only [Tracked.handle, Collector.handle, if_neg hpid, hentry]

/-- A delete event of a process with an entry. -/
theorem Tracked.handle_delete {maps : PidMaps} (hpid : pid ∈ s.state.pidsFilter)
    (hlookup : s.state.pidModulesMap.lookup pid = some maps) :
    s.handle (.delete pid) =
      { state :=
          { pidsFilter := s.state.pidsFilter.erase pid
            pidModulesMap := s.state.pidModulesMap.delete pid
            moduleFdetablesMap := maps.hashes.foldl dropModule s.state.moduleFdetablesMap }
        held := Function.update s.held pid [] } := by
  simp only [Tracked.handle, Collector.handle, if_pos hpid, hlookup]

theorem Tracked.Invariant.create (h : s.Invariant) {entry : PidModulesMap}
    {modules : List ProcModule} (hpid : pid ∉ s.state.pidsFilter)
    (hentry : createEntry s.state pid procModules updateFails = some (entry, modules)) :
    (s.handle (.create pid procModules updateFails)).Invariant := by
  have hstate := h.state.handle (.create pid procModules updateFails)
  obtain ⟨procMaps, hupdate, hhashes, hlen⟩ := createEntry_spec hentry
  have hnew : pid ∉ s.state.pidModulesMap.keys := fun hmem => hpid (h.state.filter pid hmem)
  obtain ⟨-, hrefs⟩ := foldl_addModule h.state.positive modules (h.state.room hlen)
  refine ⟨hstate, ?_, ?_, ?_⟩ <;> rw [Tracked.handle_create hpid hentry]
  · intro p hp
    simp only [BpfHash.keys_of_update hupdate, Finset.mem_insert, not_or] at hp
    simp only [Function.update_of_ne hp.1]
    exact h.held p hp.2
  · intro p maps hlookup hash
    simp only [BpfHash.lookup_of_update hupdate] at hlookup
    split at hlookup
    · rename_i heq
      cases hlookup
      subst heq
      simp only [Function.update_self, hhashes]
      exact count_takenHashes_le _ _ hash
    · rename_i hne
      simp only [Function.update_of_ne hne]
      exact h.owns p maps hlookup hash
  · intro hash
    simp only
    rw [hrefs, BpfHash.total_of_update hupdate hnew, h.refs, Function.update_self, Nat.add_comm]
    congr 1
    apply BpfHash.total_congr
    intro p maps hlookup
    have hne : p ≠ pid := fun heq => hnew (heq ▸ BpfHash.mem_keys_of_lookup hlookup)
    rw [Function.update_of_ne hne]

theorem Tracked.Invariant.delete (h : s.Invariant) {maps : PidMaps}
    (hown : s.DropsOwn (.delete pid)) (hpid : pid ∈ s.state.pidsFilter)
    (hlookup : s.state.pidModulesMap.lookup pid = some maps) :
    (s.handle (.delete pid)).Invariant := by
  have hstate := h.state.handle (.delete pid)
  obtain ⟨-, hrefs⟩ := foldl_dropModule h.state.positive maps.hashes
  refine ⟨hstate, ?_, ?_, ?_⟩ <;> rw [Tracked.handle_delete hpid hlookup]
  · intro p hp
    by_cases heq : p = pid
    · simp only [heq, Function.update_self]
    · simp only [Function.update_of_ne heq]
      exact h.held p fun hmem => hp (Finset.mem_erase.mpr ⟨heq, hmem⟩)
  · intro p maps' hlookup' hash
    simp only [BpfHash.lookup_delete] at hlookup'
    split at hlookup'
    · cases hlookup'
    · rename_i hne
      simp only [Function.update_of_ne hne]
      exact h.owns p maps' hlookup' hash
  · intro hash
    have htotal := BpfHash.total_delete (f := fun pid _ => (s.held pid).count hash) hlookup
    have hsame : (s.state.pidModulesMap.delete pid).total
        (fun p _ => (Function.update s.held pid [] p).count hash) =
          (s.state.pidModulesMap.delete pid).total fun p _ => (s.held p).count hash := by
      apply BpfHash.total_congr
      intro p maps' hlookup'
      rw [BpfHash.lookup_delete] at hlookup'
      split at hlookup'
      · cases hlookup'
      · rw [Function.update_of_ne ‹_›]
    have howns := h.owns pid maps hlookup hash
    simp only
    rw [hrefs, hsame, h.refs]
    by_cases hmem : hash ∈ s.state.moduleFdetablesMap.keys
    · have := hown hpid maps hlookup hash hmem
      omega
    · -- without tables nobody holds a reference
      rw [h.state.positive.mem_keys_iff, h.refs] at hmem
      omega

end

theorem Tracked.Invariant.handle {s : Tracked} {e : UnwindTablesOperEvt} (h : s.Invariant)
    (hown : s.DropsOwn e) : (s.handle e).Invariant := by
  have hstate := h.state.handle e
  cases e with
  | create pid procModules updateFails =>
      by_cases hpid : pid ∈ s.state.pidsFilter
      · have : s.handle (.create pid procModules updateFails) = s := by
          simp only [Tracked.handle, Collector.handle, if_pos hpid]
        rwa [this]
      cases hentry : createEntry s.state pid procModules updateFails with
      | none =>
          refine ⟨hstate, ?_, ?_, ?_⟩ <;>
            simp only [Tracked.handle, Collector.handle, if_neg hpid, hentry]
          · exact h.held
          · exact h.owns
          · exact h.refs
      | some entry => exact h.create hpid hentry
  | delete pid =>
      by_cases hpid : pid ∈ s.state.pidsFilter
      swap
      · have : s.handle (.delete pid) = s := by
          simp only [Tracked.handle, Collector.handle, if_neg hpid]
        rwa [this]
      cases hlookup : s.state.pidModulesMap.lookup pid with
      | none =>
          have hnone := h.held pid (BpfHash.lookup_eq_none_iff.mp hlookup)
          have hheld : Function.update s.held pid [] = s.held := by
            rw [← hnone]
            exact Function.update_eq_self pid s.held
          refine ⟨hstate, ?_, ?_, ?_⟩ <;>
            simp only [Tracked.handle, Collector.handle, if_pos hpid, hlookup, hheld]
          · exact h.held
          · exact h.owns
          · exact h.refs
      | some maps => exact h.delete hown hpid hlookup

theorem Tracked.invariant_initial : ({} : Tracked).Invariant where
  state := UnwindState.invariant_initial
  held := fun _ _ => rfl
  owns := by simp
  refs := by simp [Collector.refs]

/-! ## Tables in use -/

/-- Tables that the create event of a process has left in the map for one of its
modules stay there until the process is deleted. -/
def TablesKept (events : List UnwindTablesOperEvt) : Prop :=
  ∀ past pid procModules updateFails future entry modules,
    past ++ .create pid procModules updateFails :: future <+: events →
    pid ∉ (run past).pidsFilter →
    createEntry (run past) pid procModules updateFails = some (entry, modules) →
    (∀ e ∈ future, ∀ pid', e = .delete pid' → pid' ≠ pid) →
    ∀ hash ∈ modules.map ProcModule.hash,
      hash ∈ (run (past ++ [.create pid procModules updateFails])).moduleFdetablesMap.keys →
      hash ∈ (run (past ++ .create pid procModules updateFails :: future)).moduleFdetablesMap.keys

/-- Events of other processes leave a process with an entry alone. -/
theorem Tracked.handle_keeps {s : Tracked} {e : UnwindTablesOperEvt} {pid : Int32}
    (he : ∀ pid', e = .delete pid' → pid' ≠ pid) (hfilter : pid ∈ s.state.pidsFilter)
    (hkeys : pid ∈ s.state.pidModulesMap.keys) :
    pid ∈ (s.handle e).state.pidsFilter ∧ pid ∈ (s.handle e).state.pidModulesMap.keys ∧
      (s.handle e).held pid = s.held pid := by
  cases e with
  | create pid' procModules updateFails =>
      simp only [Tracked.handle, Collector.handle]
      by_cases hpid' : pid' ∈ s.state.pidsFilter
      · simp only [if_pos hpid']
        exact ⟨hfilter, hkeys, trivial⟩
      have hne : pid ≠ pid' := fun heq => hpid' (heq ▸ hfilter)
      simp only [if_neg hpid']
      cases hentry : createEntry s.state pid' procModules updateFails with
      | none => exact ⟨Finset.mem_insert_of_mem hfilter, hkeys, rfl⟩
      | some entry =>
          obtain ⟨procMaps, hupdate, -⟩ := createEntry_spec hentry
          refine ⟨Finset.mem_insert_of_mem hfilter, ?_, Function.update_of_ne hne _ _⟩
          simp only [BpfHash.keys_of_update hupdate]
          exact Finset.mem_insert_of_mem hkeys
  | delete pid' =>
      have hne : pid ≠ pid' := Ne.symm (he pid' rfl)
      simp only [Tracked.handle, Collector.handle]
      by_cases hpid' : pid' ∈ s.state.pidsFilter
      · simp only [if_pos hpid']
        refine ⟨?_, ?_, Function.update_of_ne hne _ _⟩ <;> split
        · exact Finset.mem_erase.mpr ⟨hne, hfilter⟩
        · exact Finset.mem_erase.mpr ⟨hne, hfilter⟩
        · exact hkeys
        · exact Finset.mem_erase.mpr ⟨hne, hkeys⟩
      · simp only [if_neg hpid']
        exact ⟨hfilter, hkeys, trivial⟩

theorem Tracked.foldl_keeps {s : Tracked} {events : List UnwindTablesOperEvt} {pid : Int32}
    (hevents : ∀ e ∈ events, ∀ pid', e = .delete pid' → pid' ≠ pid)
    (hfilter : pid ∈ s.state.pidsFilter) (hkeys : pid ∈ s.state.pidModulesMap.keys) :
    pid ∈ (events.foldl Tracked.handle s).state.pidModulesMap.keys ∧
      (events.foldl Tracked.handle s).held pid = s.held pid := by
  induction events generalizing s with
  | nil => exact ⟨hkeys, rfl⟩
  | cons e events ih =>
      obtain ⟨hf, hk, hheld⟩ := handle_keeps (hevents e List.mem_cons_self) hfilter hkeys
      obtain ⟨hk', hheld'⟩ := ih (fun x hx => hevents x (List.mem_cons_of_mem e hx)) hf hk
      exact ⟨hk', hheld'.trans hheld⟩

/-- In a run whose delete events give up no more references than their processes
hold, no tables are dropped while they are in use. -/
theorem tablesKept_of_dropsOwn (events : List UnwindTablesOperEvt)
    (hown : EventRun.AllSteps Tracked.handle Tracked.DropsOwn {} events) : TablesKept events := by
  intro past pid procModules updateFails future entry modules hwithin hpid hentry hfuture hash
    hmodule hleft
  have inv {es : List UnwindTablesOperEvt} (hes : es <+: events) :
      (es.foldl Tracked.handle {}).Invariant :=
    EventRun.foldl_invariant (fun _ _ hs hstep => hs.handle hstep) Tracked.invariant_initial
      hown hes
  have state (es : List UnwindTablesOperEvt) : run es = (es.foldl Tracked.handle {}).state :=
    (foldl_tracked_state es {}).symm
  have hpast := inv ((List.prefix_append past _).trans hwithin)
  have hend := inv hwithin
  rw [state] at hpid hentry hleft ⊢
  rw [List.foldl_append, List.foldl_cons] at hleft hend ⊢
  generalize past.foldl Tracked.handle {} = s at hpast hpid hentry hleft hend ⊢
  have hcreate := Tracked.handle_create hpid hentry
  rw [List.foldl_nil, hcreate] at hleft
  obtain ⟨procMaps, hupdate, -, hlen⟩ := createEntry_spec hentry
  have htaken := (mem_takenHashes_iff hpast.state.positive (hpast.state.room hlen) hash).mpr
    ⟨hmodule, hleft⟩
  -- the process keeps its entry and its references to the end
  have hfilter : pid ∈ (s.handle (.create pid procModules updateFails)).state.pidsFilter := by
    rw [hcreate]
    exact Finset.mem_insert_self _ _
  have hkeys : pid ∈ (s.handle (.create pid procModules updateFails)).state.pidModulesMap.keys := by
    rw [hcreate]
    simp only [BpfHash.keys_of_update hupdate]
    exact Finset.mem_insert_self _ _
  obtain ⟨hkeys', hheld⟩ := Tracked.foldl_keeps hfuture hfilter hkeys
  refine hend.tablesInPlace pid hash hkeys' ?_
  rw [hheld, hcreate]
  simp only [Function.update_self]
  exact htaken

/-- A module of a shared library, with or without tables. -/
def sharedModule (ok : Bool) : ProcModule :=
  { entry := { startAddr := 0x1000, endAddr := 0x2000, buildIdHash := 5, type := .so }
    fdeTables := if ok then some { tables := { refCount := 1 }, refCount := rfl } else none }

/-- Two processes share a module, and the first one exits. -/
theorem shared_tables_kept : TablesKept [.create 1 (some [sharedModule true]) false,
    .create 2 (some [sharedModule true]) false, .delete 1] := by
  refine tablesKept_of_dropsOwn _ ⟨trivial, trivial, fun _ maps hmaps hash _ => ?_, trivial⟩
  obtain rfl := Option.some.inj hmaps
  exact Nat.le_refl _

/-- Here the first one could not create the tables, so it never held a reference. Its
exit drops the tables of the second one. -/
theorem shared_tables_dropped : ¬ TablesKept [.create 1 (some [sharedModule false]) false,
    .create 2 (some [sharedModule true]) false, .delete 1] := by
  intro h
  have hfuture : ∀ e ∈ [UnwindTablesOperEvt.delete 1], ∀ pid', e = .delete pid' → pid' ≠ 2 := by
    intro e he pid' heq
    obtain rfl := List.mem_singleton.mp he
    cases heq
    decide
  have hkept := h [.create 1 (some [sharedModule false]) false] 2 (some [sharedModule true]) false
    [.delete 1] _ _ (List.prefix_refl _) (by decide) rfl hfuture 5 (by decide) (by decide)
  exact absurd hkept (by decide)

end XMonitor.Collector
