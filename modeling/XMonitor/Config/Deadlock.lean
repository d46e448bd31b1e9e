import XMonitor.Config.Config

/-!
# Deadlocks of the configuration lock

`ProgramCommFilter` holds the read lock when `ProgramConfigByName` asks for it again. If
`OnConfigChange` calls `Lock` between the two, it waits for the first read lock and keeps
the second one from being given: both are stuck, and with them all who come later. This is
the only way in which the goroutines can block each other.
-/

namespace XMonitor.Config

variable {ι : Type*} [DecidableEq ι]

/-- The next step of the goroutine is the call of `Lock`. -/
def Goroutine.callsLock (g : Goroutine) : Bool :=
  match g.point, g.calls with
  | .entry, .onConfigChange _ :: _ => true
  | _, _ => false

/-- The goroutine holds the read lock and is about to take it once more. -/
def Goroutine.between (g : Goroutine) : Bool :=
  match g.point with
  | .programCommFilter _ _ => true
  | _ => false

/-- No goroutine is between its two read locks if the step calls `Lock`. -/
def System.LocksApart (s : System ι) (i : ι) : Prop :=
  (s.goroutines i).callsLock = true → ∀ j, (s.goroutines j).between = false

instance [Fintype ι] (s : System ι) (i : ι) : Decidable (s.LocksApart i) :=
  inferInstanceAs (Decidable (_ → ∀ j, (s.goroutines j).between = false))

/-! ## One step -/

section

variable {s s' : Shared} {g g' : Goroutine}

theorem enter_op {call : Call} (hg : g.point = .entry) (h : enter s g call = some (s', g')) :
    RWMutex.Op s.mu g.point.use s'.mu g'.point.use := by
  rw [hg]
  cases call with
  | enabled | programConfigByName | programCommFilter =>
      obtain ⟨mu, hmu, h⟩ := Option.bind_eq_some_iff.mp h
      cases h
      exact .rlock hmu
  | onConfigChange =>
      cases h
      exact .callLock rfl

/-- Every step is an operation on the lock. -/
theorem step_op (h : step s g = some (s', g')) :
    RWMutex.Op s.mu g.point.use s'.mu g'.point.use := by
  obtain ⟨calls, point, results⟩ := g
  cases point with
  | entry =>
      cases calls with
      | nil => cases h
      | cons call calls => exact enter_op (g := ⟨calls, .entry, results⟩) rfl h
  | enabled | programConfigByName | commFilterFound | commFilterConfig =>
      cases h
      exact .runlock (Nat.succ_ne_zero _)
  | programCommFilter progName comm =>
      obtain ⟨mu, hmu, h⟩ := Option.bind_eq_some_iff.mp h
      cases h
      exact .rlock hmu
  | lockCalled =>
      obtain ⟨mu, hmu, h⟩ := Option.bind_eq_some_iff.mp h
      cases h
      exact .acquire rfl rfl hmu
  | locked =>
      cases h
      exact .unlock rfl

theorem rlock_admits {m m' : RWMutex} (h : m.rlock = some m') :
    m.Admits ∧ m'.waiting = m.waiting := by
  rw [RWMutex.rlock] at h
  split at h
  next hadmits =>
    cases h
    exact ⟨hadmits, rfl⟩
  · cases h

theorem acquire_waiting {m m' : RWMutex} (h : m.acquire = some m') : m'.waiting ≤ m.waiting := by
  rw [RWMutex.acquire] at h
  split at h
  · cases h
    exact Nat.sub_le _ _
  · cases h

/-- A goroutine gets between its read locks only where readers are admitted, and only the call
of `Lock` adds to the calls that wait. -/
theorem step_lock (h : step s g = some (s', g')) :
    (g'.between = true → s.mu.Admits ∧ g.callsLock = false) ∧
      (g.callsLock = false → s'.mu.waiting ≤ s.mu.waiting) := by
  obtain ⟨calls, point, results⟩ := g
  cases point with
  | entry =>
      cases calls with
      | nil => cases h
      | cons call calls =>
          cases call with
          | enabled | programConfigByName | programCommFilter =>
              obtain ⟨mu, hmu, h⟩ := Option.bind_eq_some_iff.mp h
              obtain ⟨hadmits, hwaiting⟩ := rlock_admits hmu
              cases h
              exact ⟨fun _ => ⟨hadmits, rfl⟩, fun _ => Nat.le_of_eq hwaiting⟩
          | onConfigChange =>
              cases h
              exact ⟨fun hg => (by cases hg), fun hg => (by cases hg)⟩
  | programCommFilter progName comm =>
      obtain ⟨mu, hmu, h⟩ := Option.bind_eq_some_iff.mp h
      obtain ⟨hadmits, hwaiting⟩ := rlock_admits hmu
      cases h
      exact ⟨fun _ => ⟨hadmits, rfl⟩, fun _ => Nat.le_of_eq hwaiting⟩
  | lockCalled =>
      obtain ⟨mu, hmu, h⟩ := Option.bind_eq_some_iff.mp h
      cases h
      exact ⟨fun hg => (by cases hg), fun _ => acquire_waiting hmu⟩
  | enabled | programConfigByName | commFilterFound | commFilterConfig | locked =>
      cases h
      exact ⟨fun hg => (by cases hg), fun _ => Nat.le_refl _⟩

/-! Who can take a step. -/

theorem exists_step_of_reads (hg : g.point.use.reads ≠ 0) (hbetween : g.between = false) :
    ∃ next, step s g = some next := by
  obtain ⟨calls, point, results⟩ := g
  cases point with
  | enabled | programConfigByName | commFilterFound | commFilterConfig => exact ⟨_, rfl⟩
  | programCommFilter => cases hbetween
  | entry | lockCalled | locked => exact absurd rfl hg

theorem exists_step_of_writes (hg : g.point.use.writes = true) : ∃ next, step s g = some next := by
  obtain ⟨calls, point, results⟩ := g
  cases point with
  | locked => exact ⟨_, rfl⟩
  | _ => cases hg

theorem exists_step_of_waits (hg : g.point.use.waits = true) (hreaders : s.mu.readers = 0)
    (hwriting : s.mu.writing = false) : ∃ next, step s g = some next := by
  obtain ⟨calls, point, results⟩ := g
  cases point with
  | lockCalled => simp [step, RWMutex.acquire, hreaders, hwriting]
  | _ => cases hg

theorem exists_step_of_admits (hadmits : s.mu.Admits) (hg : ¬ g.Finished)
    (hwaits : g.point.use.waits = false) : ∃ next, step s g = some next := by
  have hlock : s.mu.rlock = some { s.mu with readers := s.mu.readers + 1 } := if_pos hadmits
  obtain ⟨calls, point, results⟩ := g
  cases point with
  | entry =>
      cases calls with
      | nil => exact absurd ⟨rfl, rfl⟩ hg
      | cons call calls => cases call <;> simp [step, enter, hlock]
  | programCommFilter => simp [step, hlock]
  | enabled | programConfigByName | commFilterFound | commFilterConfig | locked => exact ⟨_, rfl⟩
  | lockCalled => cases hwaits

/-- A goroutine between its read locks is kept there by a call of `Lock` that waits. -/
theorem step_of_between (hg : g.between = true) (hwaiting : 0 < s.mu.waiting) :
    step s g = none := by
  obtain ⟨calls, point, results⟩ := g
  cases point with
  | programCommFilter =>
      have hadmits : ¬ s.mu.Admits := fun h => Nat.ne_of_gt hwaiting h.1
      simp [step, RWMutex.rlock, hadmits]
  | _ => cases hg

theorem reads_of_between (hg : g.between = true) : g.point.use.reads = 1 := by
  obtain ⟨calls, point, results⟩ := g
  cases point with
  | programCommFilter => rfl
  | _ => cases hg

/-- The steps that a goroutine has left at most. -/
def Point.left : Point → Nat
  | .entry => 0
  | .enabled _ | .programConfigByName _ | .commFilterFound _ _ | .locked _ => 1
  | .commFilterConfig _ _ | .lockCalled _ => 2
  | .programCommFilter _ _ => 3

def Goroutine.left (g : Goroutine) : Nat := 4 * g.calls.length + g.point.left

theorem step_left (h : step s g = some (s', g')) : g'.left < g.left := by
  obtain ⟨calls, point, results⟩ := g
  cases point with
  | entry =>
      cases calls with
      | nil => cases h
      | cons call calls =>
          cases call with
          | enabled | programConfigByName | programCommFilter =>
              obtain ⟨mu, -, h⟩ := Option.bind_eq_some_iff.mp h
              cases h
              simp only [Goroutine.left, Goroutine.goto, Point.left, List.length_cons]
              omega
          | onConfigChange =>
              cases h
              simp only [Goroutine.left, Goroutine.goto, Point.left, List.length_cons]
              omega
  | programCommFilter | lockCalled =>
      obtain ⟨mu, -, h⟩ := Option.bind_eq_some_iff.mp h
      cases h
      exact Nat.lt_succ_self _
  | enabled | programConfigByName | commFilterFound | commFilterConfig | locked =>
      cases h
      exact Nat.lt_succ_self _

end

/-! ## All goroutines -/

section

variable {s s' : System ι} {i : ι}

theorem System.step_eq_some (h : s.step i = some s') :
    ∃ shared g, Config.step s.shared (s.goroutines i) = some (shared, g) ∧
      s' = ⟨shared, Function.update s.goroutines i g⟩ := by
  obtain ⟨⟨shared, g⟩, hstep, hs'⟩ := Option.map_eq_some_iff.mp h
  exact ⟨shared, g, hstep, hs'.symm⟩

theorem System.exists_step (h : ∃ next, Config.step s.shared (s.goroutines i) = some next) :
    s.step i ≠ none := by
  obtain ⟨next, hstep⟩ := h
  simp [System.step, hstep]

variable [Fintype ι]

/-- The lock is in the state that the points of the goroutines add up to. -/
def System.Accounted (s : System ι) : Prop :=
  s.shared.mu.Accounts fun i => (s.goroutines i).point.use

theorem System.Accounted.step (h : s.Accounted) (hstep : s.step i = some s') : s'.Accounted := by
  obtain ⟨shared, g, hlocal, rfl⟩ := System.step_eq_some hstep
  have huse : (fun j => ((Function.update s.goroutines i g) j).point.use) =
      Function.update (fun j => (s.goroutines j).point.use) i g.point.use :=
    funext fun j =>
      Function.apply_update (fun _ (g : Goroutine) => g.point.use) s.goroutines i g j
  rw [System.Accounted]
  simp only [huse]
  exact RWMutex.Accounts.op h (step_op hlocal)

/-- While readers are kept out, no goroutine is between its two read locks. -/
structure System.Inv (s : System ι) : Prop where
  accounted : s.Accounted
  apart : s.shared.mu.Admits ∨ ∀ i, (s.goroutines i).between = false

omit [DecidableEq ι] in
theorem System.inv_start (programConfigs : List ProgramConfig) (calls : ι → List Call) :
    (System.start programConfigs calls).Inv where
  accounted := RWMutex.Accounts.idle
  apart := .inl ⟨rfl, rfl⟩

theorem System.Inv.step (h : s.Inv) (hapart : s.LocksApart i) (hstep : s.step i = some s') :
    s'.Inv := by
  refine ⟨h.accounted.step hstep, ?_⟩
  obtain ⟨shared, g, hlocal, rfl⟩ := System.step_eq_some hstep
  obtain ⟨hbetween, hwaiting⟩ := step_lock hlocal
  -- a goroutine that is not between its read locks stays so unless readers are admitted
  have others (hall : ∀ j, (s.goroutines j).between = false) (hg : g.between = false) (j : ι) :
      (Function.update s.goroutines i g j).between = false := by
    by_cases hj : j = i
    · subst hj
      rw [Function.update_self]
      exact hg
    · rw [Function.update_of_ne hj]
      exact hall j
  by_cases hadmits : s.shared.mu.Admits
  · obtain hadmits' | hcall := h.accounted.admits_op hadmits (step_op hlocal)
    · exact .inl hadmits'
    · right
      have hcalls : (s.goroutines i).callsLock = true := by
        by_contra hno
        have hle := hwaiting (Bool.not_eq_true _ ▸ hno)
        rw [hcall] at hle
        exact Nat.not_succ_le_self _ hle
      refine others (hapart hcalls) ?_
      by_contra hg
      have hno := (hbetween (Bool.not_eq_false _ ▸ hg)).2
      rw [hcalls] at hno
      cases hno
  · right
    refine others (h.apart.resolve_left hadmits) ?_
    by_contra hg
    exact hadmits (hbetween (Bool.not_eq_false _ ▸ hg)).1

theorem System.Inv.schedule (h : s.Inv) (hapart : s.LocksApart i) : (s.schedule i).Inv := by
  rw [System.schedule]
  cases hstep : s.step i with
  | none => exact h
  | some s' => exact h.step hapart hstep

theorem System.Inv.not_deadlocked (h : s.Inv) : ¬ s.Deadlocked := by
  rintro ⟨⟨i, hi⟩, hblocked⟩
  have hacc := h.accounted
  cases hwriting : s.shared.mu.writing with
  | true =>
      -- the writer goes on
      obtain ⟨j, hj⟩ := hacc.exists_writer hwriting
      exact System.exists_step (exists_step_of_writes hj) (hblocked j)
  | false =>
      by_cases hwaiting : s.shared.mu.waiting = 0
      · -- nobody waits, so the goroutine itself goes on
        have hwaits : (s.goroutines i).point.use.waits = false := by
          by_contra hw
          have hpos := hacc.waiting_pos (i := i) (Bool.not_eq_false _ ▸ hw)
          omega
        exact System.exists_step (exists_step_of_admits ⟨hwaiting, hwriting⟩ hi hwaits)
          (hblocked i)
      · by_cases hreaders : s.shared.mu.readers = 0
        · obtain ⟨j, hj⟩ := hacc.exists_waiting hwaiting
          exact System.exists_step (exists_step_of_waits hj hreaders hwriting) (hblocked j)
        · -- a reader goes on: it does not ask for a second lock
          obtain ⟨j, hj⟩ := hacc.exists_reader hreaders
          have hnone := h.apart.resolve_left fun hadmits => hwaiting hadmits.1
          exact System.exists_step (exists_step_of_reads hj (hnone j)) (hblocked j)

/-! ## Stuck goroutines -/

/-- A goroutine between its read locks is kept there by a call of `Lock`. -/
structure System.Stuck (s : System ι) : Prop where
  accounted : s.Accounted
  between : ∃ j, (s.goroutines j).between = true
  waiting : 0 < s.shared.mu.waiting

theorem System.Stuck.step (h : s.Stuck) (hstep : s.step i = some s') : s'.Stuck := by
  refine ⟨h.accounted.step hstep, ?_, ?_⟩
  · obtain ⟨shared, g, hlocal, rfl⟩ := System.step_eq_some hstep
    obtain ⟨j, hj⟩ := h.between
    refine ⟨j, ?_⟩
    have hne : j ≠ i := by
      rintro rfl
      rw [step_of_between hj h.waiting] at hlocal
      cases hlocal
    simp only [Function.update_of_ne hne]
    exact hj
  · obtain ⟨shared, g, hlocal, rfl⟩ := System.step_eq_some hstep
    obtain ⟨j, hj⟩ := h.between
    have hreads := h.accounted.reads_le j
    rw [reads_of_between hj] at hreads
    exact RWMutex.waiting_op (Nat.ne_of_gt hreads) h.waiting (step_op hlocal)

/-- The steps that all goroutines have left at most. -/
def System.left (s : System ι) : Nat := ∑ i, (s.goroutines i).left

theorem System.step_left (hstep : s.step i = some s') : s'.left < s.left := by
  obtain ⟨shared, g, hlocal, rfl⟩ := System.step_eq_some hstep
  refine Finset.sum_lt_sum (fun j _ => ?_) ⟨i, Finset.mem_univ i, ?_⟩
  · by_cases hj : j = i
    · subst hj
      simp only [Function.update_self]
      exact Nat.le_of_lt (Config.step_left hlocal)
    · simp only [Function.update_of_ne hj]
      exact Nat.le_refl _
  · simp only [Function.update_self]
    exact Config.step_left hlocal

/-- The others go on for a while, and then nobody can. -/
theorem System.Stuck.exists_deadlocked (h : s.Stuck) :
    ∃ more : List ι, (more.foldl System.schedule s).Deadlocked := by
  induction hleft : s.left using Nat.strongRecOn generalizing s with
  | ind n ih =>
      by_cases hblocked : ∀ i, s.step i = none
      · obtain ⟨j, hj⟩ := h.between
        refine ⟨[], ⟨j, fun hfinished => ?_⟩, hblocked⟩
        have hfinished : (s.goroutines j).Finished := hfinished
        rw [Goroutine.between, hfinished.2] at hj
        cases hj
      · push Not at hblocked
        obtain ⟨i, hi⟩ := hblocked
        obtain ⟨s', hstep⟩ := Option.ne_none_iff_exists'.mp hi
        obtain ⟨more, hmore⟩ := ih s'.left (hleft ▸ System.step_left hstep) (h.step hstep) rfl
        refine ⟨i :: more, ?_⟩
        rw [List.foldl_cons, System.schedule, hstep]
        exact hmore

theorem System.Accounted.schedule (h : s.Accounted) : (s.schedule i).Accounted := by
  rw [System.schedule]
  cases hstep : s.step i with
  | none => exact h
  | some s' => exact h.step hstep

/-- A step that calls `Lock` at the wrong moment. -/
theorem System.Accounted.stuck_of_not_locksApart (h : s.Accounted) (hi : ¬ s.LocksApart i) :
    (s.schedule i).Stuck := by
  rw [System.LocksApart] at hi
  push Not at hi
  obtain ⟨hcalls, j, hj⟩ := hi
  have hj : (s.goroutines j).between = true := Bool.not_eq_false _ ▸ hj
  obtain ⟨tmpCfgs, calls, hpoint, hhead⟩ : ∃ tmpCfgs calls,
      (s.goroutines i).point = .entry ∧
        (s.goroutines i).calls = .onConfigChange tmpCfgs :: calls := by
    rw [Goroutine.callsLock] at hcalls
    split at hcalls
    next tmpCfgs calls hpoint hhead => exact ⟨tmpCfgs, calls, hpoint, hhead⟩
    · cases hcalls
  have hstep : s.schedule i =
      ⟨{ s.shared with mu := s.shared.mu.callLock },
        Function.update s.goroutines i
          ({ s.goroutines i with calls }.goto (.lockCalled tmpCfgs))⟩ := by
    simp only [System.schedule, System.step, Config.step, hpoint, hhead, enter, Option.map_some,
      Option.getD_some]
  refine ⟨h.schedule, ⟨j, ?_⟩, ?_⟩
  · have hne : j ≠ i := by
      rintro rfl
      rw [Goroutine.between, hpoint] at hj
      cases hj
    rw [hstep]
    simp only [Function.update_of_ne hne]
    exact hj
  · rw [hstep]
    exact Nat.succ_pos _

end

/-- A run in which `Lock` is never called while a goroutine is between its two read locks
reaches no deadlock. Every such call can be followed by steps that end in one. -/
theorem never_deadlocks [Fintype ι] (programConfigs : List ProgramConfig) (calls : ι → List Call)
    (sched : List ι) :
    (EventRun.AllSteps System.schedule System.LocksApart (System.start programConfigs calls)
        sched →
      ∀ past, past <+: sched →
        ¬ (past.foldl System.schedule (System.start programConfigs calls)).Deadlocked) ∧
      ∀ i, ¬ (sched.foldl System.schedule (System.start programConfigs calls)).LocksApart i →
        ∃ more, ((sched ++ i :: more).foldl System.schedule
          (System.start programConfigs calls)).Deadlocked := by
  constructor
  · intro hapart past hpast
    have hinv := EventRun.foldl_invariant (fun _ _ h hi => System.Inv.schedule h hi)
      (System.inv_start programConfigs calls) hapart hpast
    exact hinv.not_deadlocked
  · intro i hi
    have haccounted : (sched.foldl System.schedule
        (System.start programConfigs calls)).Accounted :=
      EventRun.foldl_preserves (fun _ _ h => System.Accounted.schedule h)
        (System.inv_start programConfigs calls).accounted sched
    obtain ⟨more, hmore⟩ := (haccounted.stuck_of_not_locksApart hi).exists_deadlocked
    refine ⟨more, ?_⟩
    rw [List.foldl_append, List.foldl_cons]
    exact hmore

/-- One goroutine filters a command, another one reloads the settings. -/
def filterAndReload : Fin 2 → List Call
  | 0 => [.programCommFilter "cpu_sched" "bash"]
  | 1 => [.onConfigChange (some [])]

/-- A reload after the filter has returned, and one before it starts. -/
theorem reload_apart :
    (∀ past, past <+: [0, 0, 0, 0, 1, 1, 1] →
      ¬ (past.foldl System.schedule (System.start [] filterAndReload)).Deadlocked) ∧
    ∃ more : List (Fin 2), (([0] ++ 1 :: more).foldl System.schedule
      (System.start [] filterAndReload)).Deadlocked :=
  ⟨(never_deadlocks [] filterAndReload [0, 0, 0, 0, 1, 1, 1]).1 (by decide),
    (never_deadlocks [] filterAndReload [0]).2 1 (by decide)⟩

/-- A reload between the two read locks of the filter. -/
theorem reload_between_deadlocks :
    ¬ ∀ sched : List (Fin 2),
      ¬ (sched.foldl System.schedule (System.start [] filterAndReload)).Deadlocked :=
  fun h => h [0, 1] (by decide)

end XMonitor.Config
