import XMonitor.Apps.Ownership

/-!
# What a collection adds up

The accumulation loop changes apps and entries while it goes through the table. Here it
is described as a whole: which processes it adds to which app is a function of the state
before it and of what it reads, every app ends as the sum of its processes, and every
entry ends with a flag that says whether its process was added.
-/

namespace XMonitor.Apps

/-- What the loop adds for a pid, if it adds anything. -/
def AppsState.adds (s : AppsState) (r : Reading) (pid : Pid) : Option Added := do
  let aap ← s.table.lookup pid
  let as ← s.apps.find? fun as => as.id = aap.asTarget
  let ps ← r.usage pid
  if as.Takes pid ps then some { app := as.id, pid, ps } else none

/-- The processes of one app in a log. -/
def processesOf (added : List Added) (id : Nat) : List ProcessStatus :=
  (added.filter fun a => a.app = id).map Added.ps

/-- The processes that a collection aggregates into an app, in the order of the table. -/
def AppsState.aggregated (s : AppsState) (r : Reading) (id : Nat) : List ProcessStatus :=
  processesOf ((r.order.arrange s.table.keys).filterMap (s.adds r)) id

/-- The loop after the pids `past`. -/
structure Visited (s : AppsState) (r : Reading) (past : List Pid) (acc : Accumulation) : Prop where
  apps : acc.apps = s.apps.map fun as =>
    (processesOf acc.added as.id).foldl AppStatus.add as.zero
  added : acc.added = past.filterMap (s.adds r)
  table : ∀ pid, acc.table.lookup pid =
    if pid ∈ past then
      (s.table.lookup pid).map fun aap => { aap with update := (s.adds r pid).isSome }
    else s.table.lookup pid

theorem processesOf_append (added : List Added) (a : Added) (id : Nat) :
    processesOf (added ++ [a]) id =
      processesOf added id ++ if a.app = id then [a.ps] else [] := by
  by_cases h : a.app = id
  · simp [processesOf, List.filter_append, h]
  · simp [processesOf, List.filter_append, h]

theorem foldl_add_shape (ps : List ProcessStatus) (as : AppStatus) :
    (ps.foldl AppStatus.add as).id = as.id ∧ (ps.foldl AppStatus.add as).appPid = as.appPid := by
  induction ps generalizing as with
  | nil => exact ⟨rfl, rfl⟩
  | cons p ps ih =>
      obtain ⟨hid, hpid⟩ := ih (as.add p)
      exact ⟨hid.trans (as.add_shape p).1, hpid.trans (as.add_shape p).2.2.2⟩

namespace Visited

variable {s : AppsState} {r : Reading} {past : List Pid} {acc : Accumulation}

/-- Until it is visited, the loop finds the entry of a pid and its app as they were. -/
theorem find (h : Visited s r past acc) (id : Nat) :
    acc.apps.find? (fun as => as.id = id) =
      (s.apps.find? fun as => as.id = id).map fun as =>
        (processesOf acc.added as.id).foldl AppStatus.add as.zero := by
  rw [h.apps, List.find?_map]
  congr 2
  funext as
  simp only [Function.comp_apply, (foldl_add_shape _ as.zero).1]
  rfl

theorem takes_iff (as : AppStatus) (added : List Added) (pid : Pid) (ps : ProcessStatus) :
    ((processesOf added as.id).foldl AppStatus.add as.zero).Takes pid ps ↔ as.Takes pid ps := by
  rw [AppStatus.Takes, (foldl_add_shape _ as.zero).2]
  rfl

/-- The entry of a pid after its turn. -/
theorem table_insert (h : Visited s r past acc) {pid : Pid} {aap : AppAssocProcess}
    (hpid : s.table.lookup pid = some aap) {update : Bool} (hadds : (s.adds r pid).isSome = update)
    (pid' : Pid) : (acc.table.insert pid { aap with update }).lookup pid' =
      if pid' ∈ past ++ [pid] then
        (s.table.lookup pid').map fun aap => { aap with update := (s.adds r pid').isSome }
      else s.table.lookup pid' := by
  by_cases hne : pid' = pid
  · subst hne
    simp [AList.lookup_insert, hpid, hadds]
  · rw [AList.lookup_insert_ne hne, h.table pid']
    simp [hne]

/-- A pid that is not added only loses its update flag. -/
theorem skip (h : Visited s r past acc) {pid : Pid} {aap : AppAssocProcess}
    (hpid : s.table.lookup pid = some aap) (hadds : s.adds r pid = none) :
    Visited s r (past ++ [pid])
      { acc with table := acc.table.insert pid { aap with update := false } } where
  apps := h.apps
  added := by simp [h.added, hadds]
  table := h.table_insert hpid (by rw [hadds]; rfl)

/-- A pid that is added is added to the app of its entry. -/
theorem add (h : Visited s r past acc) {pid : Pid} {aap : AppAssocProcess}
    (hpid : s.table.lookup pid = some aap) {a : Added} (hadds : s.adds r pid = some a) :
    Visited s r (past ++ [pid])
      { apps := modifyApp acc.apps a.app fun as => as.add a.ps
        table := acc.table.insert pid { aap with update := true }
        added := acc.added ++ [a] } where
  apps := by
    rw [h.apps, modifyApp, List.map_map]
    refine List.map_congr_left fun as _ => ?_
    have hid : ((processesOf acc.added as.id).foldl AppStatus.add as.zero).id = as.id :=
      (foldl_add_shape _ as.zero).1
    simp only [Function.comp_apply, hid, processesOf_append]
    by_cases happ : as.id = a.app
    · rw [if_pos happ, if_pos happ.symm, List.foldl_append]
      rfl
    · rw [if_neg happ, if_neg (Ne.symm happ), List.append_nil]
  added := by simp [h.added, hadds]
  table := h.table_insert hpid (by rw [hadds]; rfl)

theorem visit (h : Visited s r past acc) {pid : Pid} (hpid : pid ∉ past) :
    Visited s r (past ++ [pid]) (acc.visit r pid) := by
  have hlookup : acc.table.lookup pid = s.table.lookup pid := by
    rw [h.table pid, if_neg hpid]
  unfold Accumulation.visit
  rw [hlookup]
  cases hentry : s.table.lookup pid with
  | none =>
      have hadds : s.adds r pid = none := by simp [AppsState.adds, hentry]
      refine ⟨h.apps, by simp [h.added, hadds], fun pid' => ?_⟩
      by_cases hne : pid' = pid
      · subst hne
        simp [hlookup, hentry]
      · simp [h.table pid', hne]
  | some aap =>
      simp only [h.find aap.asTarget]
      cases hfind : s.apps.find? fun as => as.id = aap.asTarget with
      | none => exact h.skip hentry (by simp [AppsState.adds, hentry, hfind])
      | some as =>
          simp only [Option.map_some, takes_iff]
          cases husage : r.usage pid with
          | none => exact h.skip hentry (by simp [AppsState.adds, hentry, husage])
          | some ps =>
              simp only
              split
              · rename_i htakes
                have hadds : s.adds r pid = some { app := as.id, pid, ps } := by
                  simp [AppsState.adds, hentry, hfind, husage, htakes]
                have hid : ((processesOf acc.added as.id).foldl AppStatus.add as.zero).id =
                    as.id := (foldl_add_shape _ as.zero).1
                rw [hid]
                exact h.add hentry hadds
              · rename_i htakes
                exact h.skip hentry (by simp [AppsState.adds, hentry, hfind, husage, htakes])

theorem foldl (h : Visited s r past acc) {pids : List Pid} (hpids : (past ++ pids).Nodup) :
    Visited s r (past ++ pids) (pids.foldl (Accumulation.visit r) acc) := by
  induction pids generalizing past acc with
  | nil => simpa using h
  | cons pid pids ih =>
      have hpid : pid ∉ past := by
        intro hmem
        exact (List.nodup_append.mp hpids).2.2 pid hmem pid List.mem_cons_self rfl
      have hrest : (past ++ [pid] ++ pids).Nodup := by simpa using hpids
      have hdone := ih (h.visit hpid) hrest
      simpa using hdone

end Visited

theorem visited_accumulate (s : AppsState) (r : Reading) :
    Visited s r (r.order.arrange s.table.keys) (accumulate s r) := by
  have hstart : Visited s r [] { apps := s.apps.map AppStatus.zero, table := s.table } := by
    refine ⟨?_, rfl, fun pid => by simp⟩
    simp [processesOf]
  have hnodup : ([] ++ r.order.arrange s.table.keys).Nodup :=
    (r.order.perm _).nodup_iff.mpr s.table.keys_nodup
  exact hstart.foldl hnodup

theorem mem_arrange {s : AppsState} {r : Reading} {pid : Pid} :
    pid ∈ r.order.arrange s.table.keys ↔ pid ∈ s.table :=
  (r.order.perm _).mem_iff

/-- Every app ends the loop as its old status, reset and with its processes added. -/
theorem accumulate_apps (s : AppsState) (r : Reading) :
    (accumulate s r).apps = s.apps.map fun as =>
      (s.aggregated r as.id).foldl AppStatus.add as.zero := by
  have h := visited_accumulate s r
  rw [h.apps, h.added]
  rfl

/-- The log of the loop holds the aggregated processes. -/
theorem processesOf_accumulate (s : AppsState) (r : Reading) (id : Nat) :
    processesOf (accumulate s r).added id = s.aggregated r id := by
  rw [(visited_accumulate s r).added]
  rfl

theorem mem_accumulate_added {s : AppsState} {r : Reading} {a : Added} :
    a ∈ (accumulate s r).added ↔ ∃ pid ∈ s.table, s.adds r pid = some a := by
  rw [(visited_accumulate s r).added, List.mem_filterMap]
  simp only [mem_arrange]

/-- Every entry ends the loop with a flag that says whether its process was added. -/
theorem accumulate_lookup (s : AppsState) (r : Reading) (pid : Pid) :
    (accumulate s r).table.lookup pid =
      (s.table.lookup pid).map fun aap => { aap with update := (s.adds r pid).isSome } := by
  rw [(visited_accumulate s r).table pid]
  split
  · rfl
  · rename_i hmem
    rw [mem_arrange, ← AList.lookup_eq_none] at hmem
    simp [hmem]

end XMonitor.Apps
