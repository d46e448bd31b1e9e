import XMonitor.Apps.Match
import XMonitor.Lib.AListCount

/-!
# Who owns which process

The table of processes points to statuses of apps, and a status counts the entries that
point to it. The count is kept by hand, in four places: where a process is associated,
where it moves to another app, where a collection drops it, and where an app without
processes is freed. It is right after every run, so no entry ever points to a status
that was freed.
-/

namespace XMonitor.Apps

/-- The number of entries that refer to an app. -/
def references (table : AssocTable) (id : Nat) : Nat :=
  table.countEntries fun e => e.2.asTarget = id

/-- The ownership invariant of the two tables. -/
structure Owned (s : AppsState) : Prop where
  target : ∀ pid aap, s.table.lookup pid = some aap → ∃ as ∈ s.apps, as.id = aap.asTarget
  single : s.table.keys.Nodup
  count : ∀ as ∈ s.apps, as.processCount = references s.table as.id
  names : (s.apps.map AppStatus.appName).Nodup

/-- Identities are given out once. -/
structure AppsState.Invariant (s : AppsState) : Prop extends Owned s where
  ids : (s.apps.map AppStatus.id).Nodup
  fresh : ∀ as ∈ s.apps, as.id < s.nextId

/-! ## References -/

theorem references_erase_add {table : AssocTable} {pid : Pid} {aap : AppAssocProcess}
    (h : table.lookup pid = some aap) (id : Nat) :
    references (table.erase pid) id + (if aap.asTarget = id then 1 else 0) =
      references table id := by
  have hcount := AList.countEntries_erase_add table pid (p := fun e => e.2.asTarget = id)
  rw [AList.countAt_of_lookup h] at hcount
  simpa [references] using hcount

theorem references_insert_new {table : AssocTable} {pid : Pid} (h : table.lookup pid = none)
    (aap : AppAssocProcess) (id : Nat) :
    references (table.insert pid aap) id =
      references table id + if aap.asTarget = id then 1 else 0 := by
  have hcount := AList.countEntries_erase_add table pid (p := fun e => e.2.asTarget = id)
  rw [AList.countAt_of_lookup_none h, Nat.add_zero] at hcount
  rw [references, AList.countEntries_insert, hcount]
  simp [references]

/-- An entry that keeps its target keeps all counts. -/
theorem references_insert_same {table : AssocTable} {pid : Pid} {aap aap' : AppAssocProcess}
    (h : table.lookup pid = some aap) (htarget : aap'.asTarget = aap.asTarget) (id : Nat) :
    references (table.insert pid aap') id = references table id := by
  have herase := references_erase_add h id
  rw [references, AList.countEntries_insert, ← herase, ← htarget]
  simp [references]

theorem references_pos {table : AssocTable} {pid : Pid} {aap : AppAssocProcess}
    (h : table.lookup pid = some aap) : 0 < references table aap.asTarget :=
  AList.countEntries_pos h (decide_eq_true rfl)

theorem references_eq_zero {table : AssocTable} {id : Nat}
    (h : ∀ pid aap, table.lookup pid = some aap → aap.asTarget ≠ id) :
    references table id = 0 := by
  rw [references, AList.countEntries, List.countP_eq_zero]
  rintro ⟨pid, aap⟩ he htarget
  have hlookup : table.lookup pid = some aap := AList.mem_lookup_iff.mpr he
  exact h pid aap hlookup (of_decide_eq_true htarget)

/-! ## Changing one app -/

section Modify

variable {apps : List AppStatus} {id : Nat} {g : AppStatus → AppStatus}

theorem map_modifyApp {α : Type*} {field : AppStatus → α} (h : ∀ as, field (g as) = field as) :
    (modifyApp apps id g).map field = apps.map field := by
  rw [modifyApp, List.map_map]
  refine List.map_congr_left fun as _ => ?_
  by_cases hid : as.id = id
  · simp only [Function.comp_apply, if_pos hid, h as]
  · simp only [Function.comp_apply, if_neg hid]

theorem mem_modifyApp {as' : AppStatus} :
    as' ∈ modifyApp apps id g ↔ ∃ as ∈ apps, (if as.id = id then g as else as) = as' :=
  List.mem_map

end Modify

/-- The list has an app with this identity. -/
def AppsState.Has (s : AppsState) (id : Nat) : Prop := id ∈ s.apps.map AppStatus.id

theorem AppsState.Invariant.has_target {s : AppsState} (h : s.Invariant) {pid : Pid}
    {aap : AppAssocProcess} (hpid : s.table.lookup pid = some aap) : s.Has aap.asTarget := by
  obtain ⟨as, hmem, hid⟩ := h.target pid aap hpid
  exact List.mem_map.mpr ⟨as, hmem, hid⟩

/-- An app is found by its identity. -/
theorem AppsState.Invariant.find {s : AppsState} (h : s.Invariant) {as : AppStatus}
    (has : as ∈ s.apps) : s.apps.find? (fun as' => as'.id = as.id) = some as := by
  cases hfind : s.apps.find? fun as' => as'.id = as.id with
  | none => exact absurd (decide_eq_true rfl) (List.find?_eq_none.mp hfind as has)
  | some found =>
      have hid : found.id = as.id := of_decide_eq_true (List.find?_some hfind :)
      have hmem := List.mem_of_find?_eq_some hfind
      rw [List.inj_on_of_nodup_map h.ids hmem has hid]

/-- The invariant follows if the identities and the names are the same, every entry
refers to an app of the list and the counts are right. -/
theorem AppsState.Invariant.of_same {s s' : AppsState} (h : s.Invariant)
    (hids : s'.apps.map AppStatus.id = s.apps.map AppStatus.id)
    (hnames : s'.apps.map AppStatus.appName = s.apps.map AppStatus.appName)
    (hnext : s'.nextId = s.nextId)
    (htarget : ∀ pid aap, s'.table.lookup pid = some aap → s.Has aap.asTarget)
    (hcount : ∀ as ∈ s'.apps, as.processCount = references s'.table as.id) : s'.Invariant where
  target pid aap hpid := by
    have hhas := htarget pid aap hpid
    rw [AppsState.Has, ← hids] at hhas
    exact List.mem_map.mp hhas
  single := s'.table.keys_nodup
  count := hcount
  names := hnames ▸ h.names
  ids := hids ▸ h.ids
  fresh as hmem := by
    have hhas : as.id ∈ s.apps.map AppStatus.id := hids ▸ List.mem_map_of_mem hmem
    obtain ⟨as', hmem', hid⟩ := List.mem_map.mp hhas
    rw [hnext, ← hid]
    exact h.fresh as' hmem'

/-! ## Associating and dropping a process -/

theorem delAppAssocProcess_ids (s : AppsState) (pid : Pid) (aap : AppAssocProcess) :
    (delAppAssocProcess s pid aap).apps.map AppStatus.id = s.apps.map AppStatus.id :=
  map_modifyApp fun _ => rfl

theorem AppsState.Invariant.delAppAssocProcess {s : AppsState} (h : s.Invariant) {pid : Pid}
    {aap : AppAssocProcess} (hpid : s.table.lookup pid = some aap) :
    (delAppAssocProcess s pid aap).Invariant := by
  refine h.of_same (delAppAssocProcess_ids s pid aap) (map_modifyApp fun _ => rfl) rfl ?_ ?_
  · intro pid' aap' hpid'
    have hne : pid' ≠ pid := by
      rintro rfl
      rw [Apps.delAppAssocProcess, AList.lookup_erase] at hpid'
      cases hpid'
    rw [Apps.delAppAssocProcess, AList.lookup_erase_ne hne] at hpid'
    exact h.has_target hpid'
  · intro as' hmem
    obtain ⟨as, has, rfl⟩ := mem_modifyApp.mp hmem
    have hcount := h.count as has
    have hrefs := references_erase_add hpid as.id
    by_cases hid : as.id = aap.asTarget
    · rw [if_pos hid.symm] at hrefs
      rw [if_pos hid]
      change as.processCount - 1 = (references (s.table.erase pid) as.id : Int)
      omega
    · rw [if_neg (Ne.symm hid)] at hrefs
      rw [if_neg hid]
      change as.processCount = (references (s.table.erase pid) as.id : Int)
      omega

theorem addAppAssocProcess_ids (s : AppsState) (as : AppStatus) (pid : Pid) :
    (addAppAssocProcess s as pid).apps.map AppStatus.id = s.apps.map AppStatus.id :=
  map_modifyApp fun _ => rfl

theorem AppsState.Invariant.addAppAssocProcess {s : AppsState} (h : s.Invariant)
    {as : AppStatus} (has : s.Has as.id) {pid : Pid} (hpid : s.table.lookup pid = none) :
    (addAppAssocProcess s as pid).Invariant := by
  refine h.of_same (addAppAssocProcess_ids s as pid) (map_modifyApp fun _ => rfl) rfl ?_ ?_
  · intro pid' aap' hpid'
    by_cases hne : pid' = pid
    · subst hne
      rw [Apps.addAppAssocProcess, AList.lookup_insert] at hpid'
      obtain rfl := Option.some.inj hpid'
      exact has
    · rw [Apps.addAppAssocProcess, AList.lookup_insert_ne hne] at hpid'
      exact h.has_target hpid'
  · intro as' hmem
    obtain ⟨old, hold, rfl⟩ := mem_modifyApp.mp hmem
    have hcount := h.count old hold
    have hrefs := references_insert_new hpid { asTarget := as.id, update := false } old.id
    by_cases hid : old.id = as.id
    · rw [if_pos hid.symm] at hrefs
      rw [if_pos hid]
      change old.processCount + 1 = (references (s.table.insert pid _) old.id : Int)
      omega
    · rw [if_neg (Ne.symm hid)] at hrefs
      rw [if_neg hid]
      change old.processCount = (references (s.table.insert pid _) old.id : Int)
      omega

/-- An association keeps the invariant and the identities, whichever app had the process
before. -/
theorem AppsState.Invariant.getAppAssocProcess {s : AppsState} (h : s.Invariant)
    {as : AppStatus} (has : s.Has as.id) (pid appPid : Pid) (appName : String) :
    (getAppAssocProcess s as pid appPid appName).Invariant ∧
      (getAppAssocProcess s as pid appPid appName).Has as.id := by
  unfold Apps.getAppAssocProcess
  cases hpid : s.table.lookup pid with
  | none =>
      refine ⟨h.addAppAssocProcess has hpid, ?_⟩
      rw [AppsState.Has, addAppAssocProcess_ids]
      exact has
  | some aap =>
      simp only
      split
      · exact ⟨h, has⟩
      · have hhas : (Apps.delAppAssocProcess s pid aap).Has as.id := by
          rw [AppsState.Has, delAppAssocProcess_ids]
          exact has
        have hgone : (Apps.delAppAssocProcess s pid aap).table.lookup pid = none :=
          AList.lookup_erase pid s.table
        refine ⟨(h.delAppAssocProcess hpid).addAppAssocProcess hhas hgone, ?_⟩
        rw [AppsState.Has, addAppAssocProcess_ids]
        exact hhas

/-! ## Updating the collection -/

theorem AppsState.Invariant.references_fresh {s : AppsState} (h : s.Invariant) :
    references s.table s.nextId = 0 := by
  refine references_eq_zero fun pid aap hpid => ?_
  obtain ⟨as, hmem, hid⟩ := h.target pid aap hpid
  have hlt := h.fresh as hmem
  omega

theorem AppsState.Invariant.getAppStatus {s : AppsState} (h : s.Invariant) {registers : Bool}
    {pid : Pid} {appName appTypeName : String} {as : AppStatus} {s' : AppsState}
    (hget : getAppStatus s registers pid appName appTypeName = some (as, s')) :
    s'.Invariant ∧ s'.Has as.id := by
  unfold Apps.getAppStatus at hget
  cases hfind : s.apps.find? fun as => as.appName = appName with
  | some found =>
      rw [hfind] at hget
      simp only at hget
      split at hget
      · obtain ⟨rfl, rfl⟩ := Prod.mk.inj (Option.some.inj hget)
        exact ⟨h, List.mem_map_of_mem (List.mem_of_find?_eq_some hfind)⟩
      · cases hget
  | none =>
      rw [hfind] at hget
      simp only at hget
      split at hget
      · obtain ⟨rfl, rfl⟩ := Prod.mk.inj (Option.some.inj hget)
        have hother : ∀ as ∈ s.apps, as.appName ≠ appName := by
          simpa using List.find?_eq_none.mp hfind
        refine ⟨⟨⟨?_, s.table.keys_nodup, ?_, ?_⟩, ?_, ?_⟩, ?_⟩
        · intro pid' aap hpid'
          obtain ⟨as, hmem, hid⟩ := h.target pid' aap hpid'
          exact ⟨as, List.mem_append_left _ hmem, hid⟩
        · intro as hmem
          obtain hmem | hmem := List.mem_append.mp hmem
          · exact h.count as hmem
          · obtain rfl := List.mem_singleton.mp hmem
            exact congrArg Int.ofNat h.references_fresh.symm
        · simp only [List.map_append, List.map_cons, List.map_nil]
          refine List.nodup_append.mpr ⟨h.names, List.nodup_singleton _, ?_⟩
          intro name hname name' hname' heq
          obtain ⟨as, hmem, rfl⟩ := List.mem_map.mp hname
          exact hother as hmem (heq.trans (List.mem_singleton.mp hname'))
        · simp only [List.map_append, List.map_cons, List.map_nil]
          refine List.nodup_append.mpr ⟨h.ids, List.nodup_singleton _, ?_⟩
          intro id hid id' hid' heq
          obtain ⟨as, hmem, rfl⟩ := List.mem_map.mp hid
          have hlt := h.fresh as hmem
          rw [heq, List.mem_singleton.mp hid'] at hlt
          exact Nat.lt_irrefl _ hlt
        · intro as hmem
          obtain hmem | hmem := List.mem_append.mp hmem
          · exact Nat.lt_succ_of_lt (h.fresh as hmem)
          · obtain rfl := List.mem_singleton.mp hmem
            exact Nat.lt_succ_self s.nextId
        · simp [AppsState.Has]
      · cases hget

theorem AppsState.Invariant.matchAppProcess {st : AppsState × List AppProcessFilterRule}
    (h : st.1.Invariant) (fs : ProcFs) (registers : String → Bool) (pid : Pid) :
    (matchAppProcess fs registers st pid).1.Invariant := by
  unfold Apps.matchAppProcess
  split
  · exact h
  · split
    · exact h
    · split
      · exact h
      · rename_i rule _ _ as s' hget
        obtain ⟨hs', has⟩ := h.getAppStatus hget
        have hmain := hs'.getAppAssocProcess has pid pid rule.appName
        simp only
        split
        · have hkeep : ∀ s child, s.Invariant ∧ s.Has as.id →
              (Apps.getAppAssocProcess s as child pid rule.appName).Invariant ∧
                (Apps.getAppAssocProcess s as child pid rule.appName).Has as.id :=
            fun s child hs => hs.1.getAppAssocProcess hs.2 child pid rule.appName
          exact (EventRun.foldl_preserves hkeep hmain _).1
        · exact hmain.1

theorem AppsState.Invariant.updateAppCollection {s : AppsState} (h : s.Invariant) (fs : ProcFs)
    (registers : String → Bool) (rules : List AppProcessFilterRule) :
    (updateAppCollection s fs registers rules).Invariant := by
  have hkeep : ∀ (st : AppsState × List AppProcessFilterRule) pid, st.1.Invariant →
      (Apps.matchAppProcess fs registers st pid).1.Invariant :=
    fun st pid hst => hst.matchAppProcess fs registers pid
  exact EventRun.foldl_preserves (I := fun st : AppsState × List AppProcessFilterRule =>
    st.1.Invariant) hkeep h fs.pids

/-! ## Collecting the usage -/

/-- Changes of the totals of an app and of update flags do not matter. -/
theorem AppsState.Invariant.modify {s : AppsState} (h : s.Invariant) {pid : Pid}
    {aap : AppAssocProcess} (hpid : s.table.lookup pid = some aap) (aap' : AppAssocProcess)
    (htarget : aap'.asTarget = aap.asTarget) (id : Nat) {g : AppStatus → AppStatus}
    (hid : ∀ as, (g as).id = as.id) (hname : ∀ as, (g as).appName = as.appName)
    (hcount : ∀ as, (g as).processCount = as.processCount) :
    { s with apps := modifyApp s.apps id g, table := s.table.insert pid aap' }.Invariant := by
  refine h.of_same (map_modifyApp hid) (map_modifyApp hname) rfl ?_ ?_
  · intro pid' aap'' hpid'
    by_cases hne : pid' = pid
    · subst hne
      rw [AList.lookup_insert] at hpid'
      obtain rfl := Option.some.inj hpid'
      rw [htarget]
      exact h.has_target hpid
    · rw [AList.lookup_insert_ne hne] at hpid'
      exact h.has_target hpid'
  · intro as' hmem
    obtain ⟨as, has, rfl⟩ := mem_modifyApp.mp hmem
    simp only
    rw [references_insert_same hpid htarget]
    split
    · rw [hcount, hid, h.count as has]
    · exact h.count as has

theorem modifyApp_id (apps : List AppStatus) (id : Nat) :
    modifyApp apps id (fun as => as) = apps := by
  simp [modifyApp]

theorem AppStatus.add_shape (as : AppStatus) (ps : ProcessStatus) :
    (as.add ps).id = as.id ∧ (as.add ps).appName = as.appName ∧
      (as.add ps).processCount = as.processCount ∧ (as.add ps).appPid = as.appPid := by
  unfold AppStatus.add
  simp only
  split
  · exact ⟨rfl, rfl, rfl, rfl⟩
  · exact ⟨rfl, rfl, rfl, rfl⟩

/-- The state that an accumulation stands for. -/
def Accumulation.toState (acc : Accumulation) (nextId : Nat) : AppsState where
  apps := acc.apps
  table := acc.table
  nextId := nextId

theorem AppsState.Invariant.visit {acc : Accumulation} {nextId : Nat}
    (h : (acc.toState nextId).Invariant) (r : Reading) (pid : Pid) :
    ((acc.visit r pid).toState nextId).Invariant := by
  unfold Accumulation.visit
  cases hpid : acc.table.lookup pid with
  | none => exact h
  | some aap =>
      have hskip : ({ acc with
          table := acc.table.insert pid { aap with update := false } } :
            Accumulation).toState nextId |>.Invariant := by
        have hmodify := h.modify (g := fun as => as) hpid { aap with update := false } rfl 0
          (fun _ => rfl) (fun _ => rfl) (fun _ => rfl)
        rw [modifyApp_id] at hmodify
        exact hmodify
      simp only
      split
      · exact hskip
      · rename_i as hfind
        split
        · exact hskip
        · rename_i ps hps
          split
          · exact h.modify hpid { aap with update := true } rfl as.id
              (fun as => (as.add_shape ps).1) (fun as => (as.add_shape ps).2.1)
              (fun as => (as.add_shape ps).2.2.1)
          · exact hskip

theorem AppsState.Invariant.accumulated {s : AppsState} (h : s.Invariant) (r : Reading) :
    (accumulated s r).Invariant := by
  have hzero : { s with apps := s.apps.map AppStatus.zero }.Invariant := by
    refine h.of_same ?_ ?_ rfl (fun pid aap hpid => h.has_target hpid) ?_
    · rw [List.map_map]
      rfl
    · rw [List.map_map]
      rfl
    · intro as' hmem
      obtain ⟨as, has, rfl⟩ := List.mem_map.mp hmem
      exact h.count as has
  have hkeep : ∀ (acc : Accumulation) pid, (acc.toState s.nextId).Invariant →
      ((acc.visit r pid).toState s.nextId).Invariant := fun acc pid hacc => hacc.visit r pid
  have hstart : (Accumulation.toState { apps := s.apps.map AppStatus.zero, table := s.table }
      s.nextId).Invariant := hzero
  exact EventRun.foldl_preserves (I := fun acc : Accumulation =>
    (acc.toState s.nextId).Invariant) hkeep hstart (r.order.arrange s.table.keys)

theorem AppsState.Invariant.dropProcess {s : AppsState} (h : s.Invariant) (pid : Pid) :
    (dropProcess s pid).Invariant := by
  unfold Apps.dropProcess
  cases hpid : s.table.lookup pid with
  | none => exact h
  | some aap =>
      simp only
      split
      · exact h
      · exact h.delAppAssocProcess hpid

/-- Only apps to which no entry refers are freed. -/
theorem AppsState.Invariant.dropApps {s : AppsState} (h : s.Invariant) :
    (dropApps s).Invariant := by
  have hsub : (Apps.dropApps s).apps.Sublist s.apps := List.filter_sublist
  refine ⟨⟨?_, s.table.keys_nodup, ?_, ?_⟩, ?_, ?_⟩
  · intro pid aap hpid
    obtain ⟨as, hmem, hid⟩ := h.target pid aap hpid
    refine ⟨as, List.mem_filter.mpr ⟨hmem, decide_eq_true ?_⟩, hid⟩
    have hcount := h.count as hmem
    have hpos : 0 < references s.table aap.asTarget := references_pos hpid
    rw [hid] at hcount
    omega
  · exact fun as hmem => h.count as (hsub.subset hmem)
  · exact h.names.sublist (hsub.map _)
  · exact h.ids.sublist (hsub.map _)
  · exact fun as hmem => h.fresh as (hsub.subset hmem)

theorem AppsState.Invariant.collectingAppsUsage {s : AppsState} (h : s.Invariant) (r : Reading) :
    (collectingAppsUsage s r).Invariant := by
  unfold Apps.collectingAppsUsage
  split
  · exact h
  · have hkeep : ∀ s pid, AppsState.Invariant s → (Apps.dropProcess s pid).Invariant :=
      fun s pid hs => hs.dropProcess pid
    exact (EventRun.foldl_preserves hkeep (h.accumulated r) _).dropApps

/-! ## Runs -/

theorem AppsState.Invariant.appStep {s : AppsState} (h : s.Invariant) (e : AppEvent) :
    (appStep s e).Invariant := by
  cases e with
  | update fs registers rules => exact h.updateAppCollection fs registers rules
  | collect r => exact h.collectingAppsUsage r

theorem invariant_empty : ({} : AppsState).Invariant where
  target _ _ hpid := nomatch hpid
  single := List.nodup_nil
  count _ hmem := nomatch hmem
  names := List.nodup_nil
  ids := List.nodup_nil
  fresh _ hmem := nomatch hmem

theorem invariant_appRun (events : List AppEvent) : (appRun events).Invariant := by
  have hkeep : ∀ s e, AppsState.Invariant s → (Apps.appStep s e).Invariant :=
    fun s e h => h.appStep e
  exact EventRun.foldl_preserves hkeep invariant_empty events

/-- The tables own each other's entries after every run, and a step frees an app only
when no entry refers to it. -/
theorem owned_appRun (events : List AppEvent) :
    Owned (appRun events) ∧
      ∀ e, ∀ as ∈ (appRun events).apps,
        (∀ as' ∈ (appStep (appRun events) e).apps, as'.id ≠ as.id) →
          ∀ pid aap, (appStep (appRun events) e).table.lookup pid = some aap →
            aap.asTarget ≠ as.id := by
  refine ⟨(invariant_appRun events).toOwned, ?_⟩
  intro e as _ hfreed pid aap hpid htarget
  obtain ⟨as', hmem, hid⟩ := ((invariant_appRun events).appStep e).target pid aap hpid
  exact hfreed as' hmem (hid.trans htarget)

end XMonitor.Apps
