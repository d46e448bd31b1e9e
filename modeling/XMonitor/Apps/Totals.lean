import XMonitor.Apps.Accumulate

/-!
# The totals of an app

A collection should leave every app with the sums over the processes that it has
aggregated, and with the out-of-memory scores of the process where these are greatest.
The loop adds correctly; but what it adds to is not always zero. Six of the additive
fields and the scores are never reset, so they carry over from one collection to the
next.

A process that is bound to an app is aggregated only if it is the main process of the
app or a child of it. Any other process is dropped from the table instead, however it
was bound.
-/

namespace XMonitor.Apps

/-- The number is a value of the type of the field. -/
def AppField.Fits (f : AppField) (n : Int) : Prop := f.value (BitVec.ofInt f.width n) = n

theorem AppField.ofInt_value (f : AppField) (x : BitVec f.width) :
    BitVec.ofInt f.width (f.value x) = x := by
  unfold AppField.value
  split
  · exact BitVec.ofInt_toInt
  · rw [BitVec.ofInt_natCast, BitVec.ofNat_toNat, BitVec.setWidth_eq]

/-- A field that had some value and was increased by `n` shows `n` only if it was zero. -/
theorem AppField.value_add_iff (f : AppField) (x : BitVec f.width) (n : Int) :
    f.value (x + BitVec.ofInt f.width n) = n ↔ x = 0 ∧ f.Fits n := by
  constructor
  · intro h
    have hbits := f.ofInt_value (x + BitVec.ofInt f.width n)
    rw [h] at hbits
    have hx : x = 0 := by simpa using hbits
    subst hx
    exact ⟨rfl, by simpa [AppField.Fits] using h⟩
  · rintro ⟨rfl, h⟩
    simpa [AppField.Fits] using h

/-! ## The additive fields -/

theorem foldl_update_zero (fields : List AppField) (totals : (f : AppField) → BitVec f.width)
    (f : AppField) :
    fields.foldl (fun totals f => Function.update totals f 0) totals f =
      if f ∈ fields then 0 else totals f := by
  induction fields generalizing totals with
  | nil => rfl
  | cons g fields ih =>
      rw [List.foldl_cons, ih]
      by_cases hmem : f ∈ fields
      · simp [hmem]
      · by_cases heq : f = g
        · subst heq
          simp
        · simp [hmem, heq]

theorem AppStatus.zero_totals (as : AppStatus) (f : AppField) :
    as.zero.totals f = if f ∈ resetFields then 0 else as.totals f :=
  foldl_update_zero resetFields as.totals f

theorem AppStatus.add_totals (as : AppStatus) (ps : ProcessStatus) (f : AppField) :
    (as.add ps).totals f = as.totals f + BitVec.ofInt f.width (ps.contribution f) := by
  unfold AppStatus.add
  simp only
  split <;> rfl

/-- The loop adds the sum over the processes to every field. -/
theorem foldl_add_totals (l : List ProcessStatus) (as : AppStatus) (f : AppField) :
    (l.foldl AppStatus.add as).totals f =
      as.totals f + BitVec.ofInt f.width (l.map fun ps => ps.contribution f).sum := by
  induction l generalizing as with
  | nil => simp
  | cons ps l ih =>
      rw [List.foldl_cons, ih, AppStatus.add_totals, List.map_cons, List.sum_cons,
        BitVec.ofInt_add, BitVec.add_assoc]

theorem total_exact_iff (as : AppStatus) (l : List ProcessStatus) (f : AppField) :
    f.value ((l.foldl AppStatus.add as.zero).totals f) =
        (l.map fun ps => ps.contribution f).sum ↔
      (f ∉ resetFields → as.totals f = 0) ∧ f.Fits (l.map fun ps => ps.contribution f).sum := by
  rw [foldl_add_totals, AppField.value_add_iff, AppStatus.zero_totals]
  by_cases hreset : f ∈ resetFields
  · simp [hreset]
  · simp [hreset]

/-! ## The out-of-memory scores -/

/-- The scores of the app are those of the process. -/
def AppStatus.ScoresOf (as : AppStatus) (ps : ProcessStatus) : Prop :=
  as.maxOomScore = ps.oomScore ∧ as.maxOomScoreAdj = ps.oomScoreAdj

/-- The two apps have the same scores. -/
def AppStatus.SameScores (as as' : AppStatus) : Prop :=
  as.maxOomScore = as'.maxOomScore ∧ as.maxOomScoreAdj = as'.maxOomScoreAdj

theorem AppStatus.ScoresOf.oomSum {as : AppStatus} {ps : ProcessStatus} (h : as.ScoresOf ps) :
    as.oomSum = ps.oomSum := by
  rw [AppStatus.oomSum, ProcessFiles.oomSum, h.1, h.2]

theorem AppStatus.SameScores.oomSum {as as' : AppStatus} (h : as.SameScores as') :
    as.oomSum = as'.oomSum := by
  rw [AppStatus.oomSum, AppStatus.oomSum, h.1, h.2]

theorem AppStatus.add_scores (as : AppStatus) (ps : ProcessStatus) :
    (as.oomSum < ps.oomSum ∧ (as.add ps).ScoresOf ps) ∨
      (ps.oomSum ≤ as.oomSum ∧ (as.add ps).SameScores as) := by
  unfold AppStatus.add
  simp only
  split
  · rename_i h
    exact .inl ⟨h, rfl, rfl⟩
  · rename_i h
    exact .inr ⟨Int.not_lt.mp h, rfl, rfl⟩

/-- The loop ends with the scores it started with, which no process exceeds, or with the
greatest scores of a process. -/
theorem foldl_add_scores (l : List ProcessStatus) (as : AppStatus) :
    ((l.foldl AppStatus.add as).SameScores as ∧ ∀ ps ∈ l, ps.oomSum ≤ as.oomSum) ∨
      ∃ ps ∈ l, (l.foldl AppStatus.add as).ScoresOf ps ∧ as.oomSum < ps.oomSum ∧
        ∀ q ∈ l, q.oomSum ≤ ps.oomSum := by
  induction l generalizing as with
  | nil => exact .inl ⟨⟨rfl, rfl⟩, by simp⟩
  | cons p l ih =>
      simp only [List.foldl_cons, List.forall_mem_cons, List.exists_mem_cons_iff]
      obtain ⟨hlt, hp⟩ | ⟨hle, hsame⟩ := as.add_scores p
      · obtain ⟨hkept, hall⟩ | ⟨ps, hmem, hps, hgt, hall⟩ := ih (as.add p)
        · refine .inr (.inl ⟨?_, hlt, Int.le_refl _, ?_⟩)
          · exact ⟨hkept.1.trans hp.1, hkept.2.trans hp.2⟩
          · intro q hq
            rw [← hp.oomSum]
            exact hall q hq
        · rw [hp.oomSum] at hgt
          exact .inr (.inr ⟨ps, hmem, hps, by omega, by omega, hall⟩)
      · obtain ⟨hkept, hall⟩ | ⟨ps, hmem, hps, hgt, hall⟩ := ih (as.add p)
        · refine .inl ⟨⟨hkept.1.trans hsame.1, hkept.2.trans hsame.2⟩, hle, ?_⟩
          intro q hq
          rw [← hsame.oomSum]
          exact hall q hq
        · rw [hsame.oomSum] at hgt
          exact .inr (.inr ⟨ps, hmem, hps, hgt, by omega, hall⟩)

/-! ## Exact totals -/

/-- The status shows the sums over the processes, and the scores of the one where they
are greatest. -/
structure AppStatus.ExactFor (as : AppStatus) (l : List ProcessStatus) : Prop where
  totals : ∀ f, f.value (as.totals f) = (l.map fun ps => ps.contribution f).sum
  scores : l ≠ [] → ∃ ps ∈ l, as.ScoresOf ps ∧ ∀ q ∈ l, q.oomSum ≤ ps.oomSum

/-- A status from which adding the processes gives exact totals: the fields that are not
reset are zero, the sums fit, and some process has scores that exceed or equal those of
the status. -/
structure AppStatus.CleanFor (as : AppStatus) (l : List ProcessStatus) : Prop where
  zero : ∀ f, f ∉ resetFields → as.totals f = 0
  fits : ∀ f : AppField, f.Fits (l.map fun ps => ps.contribution f).sum
  scores : l ≠ [] → ∃ ps ∈ l, as.oomSum < ps.oomSum ∨ as.ScoresOf ps

theorem scores_exact_iff {l : List ProcessStatus} (as : AppStatus) :
    (∃ ps ∈ l, (l.foldl AppStatus.add as.zero).ScoresOf ps ∧ ∀ q ∈ l, q.oomSum ≤ ps.oomSum) ↔
      ∃ ps ∈ l, as.oomSum < ps.oomSum ∨ as.ScoresOf ps := by
  have hzero : as.zero.oomSum = as.oomSum := rfl
  obtain ⟨hkept, hall⟩ | ⟨ps, hmem, hps, hgt, hall⟩ := foldl_add_scores l as.zero
  · have hkept : (l.foldl AppStatus.add as.zero).SameScores as := hkept
    constructor
    · rintro ⟨ps, hmem, hps, -⟩
      exact ⟨ps, hmem, .inr ⟨hkept.1.symm.trans hps.1, hkept.2.symm.trans hps.2⟩⟩
    · rintro ⟨ps, hmem, hlt | hscores⟩
      · have hle := hall ps hmem
        omega
      · refine ⟨ps, hmem, ⟨hkept.1.trans hscores.1, hkept.2.trans hscores.2⟩, ?_⟩
        intro q hq
        rw [← hscores.oomSum]
        exact hall q hq
  · constructor
    · intro _
      exact ⟨ps, hmem, .inl (hzero ▸ hgt)⟩
    · intro _
      exact ⟨ps, hmem, hps, hall⟩

theorem exactFor_iff (as : AppStatus) (l : List ProcessStatus) :
    (l.foldl AppStatus.add as.zero).ExactFor l ↔ as.CleanFor l := by
  constructor
  · intro h
    have htotals (f : AppField) := (total_exact_iff as l f).mp (h.totals f)
    exact ⟨fun f => (htotals f).1, fun f => (htotals f).2,
      fun hne => (scores_exact_iff as).mp (h.scores hne)⟩
  · intro h
    exact ⟨fun f => (total_exact_iff as l f).mpr ⟨h.zero f, h.fits f⟩,
      fun hne => (scores_exact_iff as).mpr (h.scores hne)⟩

/-- After the accumulation loop every app is exact for the processes that were added. -/
def RoundExact (s : AppsState) : AppEvent → Prop
  | .update .. => True
  | .collect r => ∀ as ∈ (accumulate s r).apps,
      as.ExactFor (processesOf (accumulate s r).added as.id)

/-- Before a collection every app is clean for the processes that will be aggregated. -/
def RoundClean (s : AppsState) : AppEvent → Prop
  | .update .. => True
  | .collect r => ∀ as ∈ s.apps, as.CleanFor (s.aggregated r as.id)

theorem roundExact_iff (s : AppsState) (e : AppEvent) : RoundExact s e ↔ RoundClean s e := by
  cases e with
  | update fs registers rules => exact Iff.rfl
  | collect r =>
      simp only [RoundExact, RoundClean, accumulate_apps, processesOf_accumulate,
        List.forall_mem_map]
      refine forall₂_congr fun as _ => ?_
      rw [(foldl_add_shape _ as.zero).1]
      exact exactFor_iff as _

/-- Aggregation is exact in every collection of a run exactly if every collection starts
from clean apps. -/
theorem totals_exact_iff (events : List AppEvent) :
    EventRun.AllSteps appStep RoundExact {} events ↔
      EventRun.AllSteps appStep RoundClean {} events :=
  EventRun.allSteps_congr (I := fun _ => True) (fun _ _ _ _ => trivial)
    (fun s e _ => roundExact_iff s e) trivial events

/-- The files of a process with one thread and no open file. -/
def plainFiles (ppid : Pid) (nvcsw : UInt64) : ProcessFiles where
  ppid
  minflt := 0
  cminflt := 0
  majflt := 0
  cmajflt := 0
  utime := 0
  stime := 0
  cutime := 0
  cstime := 0
  processCpuJiffies := 0
  numThreads := 1
  vmsize := 0
  rssAnon := 0
  rssFile := 0
  rssShmem := 0
  vmswap := 0
  smapsRss := 0
  smapsPss := 0
  smapsPssAnon := 0
  smapsPssFile := 0
  smapsPssShmem := 0
  smapsUss := 0
  ioLogicalBytesRead := 0
  ioLogicalBytesWritten := 0
  ioReadCalls := 0
  ioWriteCalls := 0
  ioStorageBytesRead := 0
  ioStorageBytesWritten := 0
  ioCancelledWriteBytes := 0
  oomScore := 1
  oomScoreAdj := 0
  nvcsw
  nivcsw := 0
  fds := some []

def dbRule : AppProcessFilterRule where
  enable := true
  appTypeName := "store"
  appName := "db"
  assignType := .processTree
  keys := ["dbd".toList]
  isMatched := false

/-- The process 10 with its child 11 and its grandchild 12. -/
def dbFs : ProcFs where
  pids := [10, 11, 12]
  cmdline pid := if pid = 10 then some "dbd -x".toList else some "w".toList
  childrenFile pid :=
    if pid = 10 then some "11 ".toList else if pid = 11 then some "12 ".toList else none
  rank pid := 12 - pid
  rank_lt := by
    intro pid child hchild
    by_cases h10 : pid = 10
    · subst h10
      have hchild : child ∈ [11] := hchild
      simp at hchild
      subst hchild
      decide
    · by_cases h11 : pid = 11
      · subst h11
        have hchild : child ∈ [12] := hchild
        simp at hchild
        subst hchild
        decide
      · simp [h10, h11, childPids, strsplitToNums] at hchild

def tableOrder : IterOrder where
  arrange pids := pids
  perm pids := List.Perm.refl pids

def dbReading : Reading where
  order := tableOrder
  sockTable _ := none
  files pid := some (plainFiles (pid - 1) 1)

def dbUpdate : AppEvent := .update dbFs (fun _ => true) [dbRule]

/-- The second of two equal collections shows twice the context switches. -/
theorem context_switches_carry_over :
    ¬ EventRun.AllSteps appStep RoundExact {}
      [dbUpdate, .collect dbReading, .collect dbReading] := by
  rintro ⟨-, -, hexact, -⟩
  let s := appRun [dbUpdate, .collect dbReading]
  have hall : ((accumulate s dbReading).apps.all fun as =>
      AppField.value .nvcsw (as.totals .nvcsw) =
        ((processesOf (accumulate s dbReading).added as.id).map
          fun ps => ps.contribution .nvcsw).sum) = true :=
    List.all_eq_true.mpr fun as has => decide_eq_true ((hexact as has).totals .nvcsw)
  exact absurd hall (by decide)

/-! ## Bound processes -/

/-- A process is added to its app in a collection, and its association survives it. -/
structure Accounted (s : AppsState) (r : Reading) (as : AppStatus) (pid : Pid)
    (ps : ProcessStatus) : Prop where
  added : { app := as.id, pid, ps } ∈ (accumulate s r).added
  stays : ∃ aap, (collectingAppsUsage s r).table.lookup pid = some aap ∧ aap.asTarget = as.id

/-- The drop loop keeps exactly the entries whose flag is set. -/
theorem foldl_dropProcess_lookup {s : AppsState} {pids : List Pid} (pid : Pid) :
    (pids.foldl dropProcess s).table.lookup pid =
      if pid ∈ pids then (s.table.lookup pid).filter fun aap => aap.update
      else s.table.lookup pid := by
  induction pids generalizing s with
  | nil => simp
  | cons p pids ih =>
      rw [List.foldl_cons, ih]
      by_cases hp : pid = p
      · subst hp
        have hdrop : (dropProcess s pid).table.lookup pid =
            (s.table.lookup pid).filter fun aap => aap.update := by
          unfold dropProcess
          cases hentry : s.table.lookup pid with
          | none => exact hentry
          | some aap =>
              cases hupdate : aap.update with
              | true => simp [hentry, hupdate, Option.filter_some]
              | false => simp [hupdate, delAppAssocProcess, Option.filter_some]
        rw [hdrop]
        simp [Option.filter_filter]
      · have hother : (dropProcess s p).table.lookup pid = s.table.lookup pid := by
          unfold dropProcess
          cases s.table.lookup p with
          | none => rfl
          | some aap =>
              simp only
              split
              · rfl
              · exact AList.lookup_erase_ne hp
        simp [hother, hp]

/-- An entry survives a collection exactly if its process was added. -/
theorem collectingAppsUsage_lookup {s : AppsState} {r : Reading} (hs : s.apps ≠ []) {pid : Pid}
    {aap : AppAssocProcess} (hpid : s.table.lookup pid = some aap) :
    (collectingAppsUsage s r).table.lookup pid =
      if (s.adds r pid).isSome then some { aap with update := true } else none := by
  have hmem : pid ∈ r.order.arrange s.table.keys := by
    rw [mem_arrange, ← AList.lookup_isSome, hpid]
    rfl
  rw [collectingAppsUsage, if_neg hs]
  change ((r.order.arrange s.table.keys).foldl dropProcess (accumulated s r)).table.lookup pid = _
  rw [foldl_dropProcess_lookup, if_pos hmem]
  change ((accumulate s r).table.lookup pid).filter _ = _
  rw [accumulate_lookup, hpid]
  cases (s.adds r pid).isSome with
  | true => simp
  | false => simp

/-- In every collection after any run, a bound process whose usage could be read is
accounted for exactly if it is the main process of its app or one of its children. -/
theorem accounted_iff (events : List AppEvent) (r : Reading) {pid : Pid} {aap : AppAssocProcess}
    {as : AppStatus} {ps : ProcessStatus}
    (hpid : (appRun events).table.lookup pid = some aap) (has : as ∈ (appRun events).apps)
    (hid : as.id = aap.asTarget) (hps : r.usage pid = some ps) :
    Accounted (appRun events) r as pid ps ↔ pid = as.appPid ∨ ps.ppid = as.appPid := by
  have hinv := invariant_appRun events
  have hne : (appRun events).apps ≠ [] := List.ne_nil_of_mem has
  have hfind : (appRun events).apps.find? (fun as => as.id = aap.asTarget) = some as :=
    hid ▸ hinv.find has
  have hadds : (appRun events).adds r pid =
      if as.Takes pid ps then some { app := as.id, pid, ps } else none := by
    simp [AppsState.adds, hpid, hfind, hps]
  change _ ↔ as.Takes pid ps
  constructor
  · intro h
    by_contra htakes
    obtain ⟨aap', hstays, -⟩ := h.stays
    rw [collectingAppsUsage_lookup hne hpid, hadds, if_neg htakes] at hstays
    cases hstays
  · intro htakes
    rw [if_pos htakes] at hadds
    refine ⟨mem_accumulate_added.mpr ⟨pid, ?_, hadds⟩, { aap with update := true }, ?_, hid.symm⟩
    · rw [← AList.lookup_isSome, hpid]
      rfl
    · rw [collectingAppsUsage_lookup hne hpid, hadds]
      rfl

/-- The main process 10 of the app and its child 11. -/
theorem child_accounted_iff :
    Accounted (appRun [dbUpdate]) dbReading ((appRun [dbUpdate]).apps.head (by decide)) 11
        { plainFiles 10 1 with processOpenFds := 0, sst := {} } ↔
      (11 : Pid) = ((appRun [dbUpdate]).apps.head (by decide)).appPid ∨
        (10 : Pid) = ((appRun [dbUpdate]).apps.head (by decide)).appPid :=
  accounted_iff [dbUpdate] dbReading rfl (List.head_mem _) rfl rfl

/-- A grandchild is associated with the app and its usage can be read, but it is dropped. -/
theorem grandchild_not_accounted :
    12 ∈ dbFs.descendantPids 10 ∧
      (appRun [dbUpdate]).table.lookup 12 = some { asTarget := 0, update := false } ∧
      (dbReading.usage 12).isSome ∧
      ∀ as ps, ¬ Accounted (appRun [dbUpdate]) dbReading as 12 ps := by
  refine ⟨by decide, by decide, by decide, ?_⟩
  intro as ps h
  obtain ⟨aap, hstays, -⟩ := h.stays
  have hgone : (collectingAppsUsage (appRun [dbUpdate]) dbReading).table.lookup 12 = none := by
    decide
  rw [hgone] at hstays
  cases hstays

end XMonitor.Apps
