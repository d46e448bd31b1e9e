import XMonitor.Cgroups.CpuStat

/-!
# The counters of `cpu.stat` telescope

What a collection remembers is what it has added, so that the totals of the counters are the
values of the kernel, as long as the collection finds the value of each key. Version 1 takes the
zeros of its variables for the values of keys that are not there, also where the file is too
short, and version 2 takes the values of other keys if the lines are in another order.
-/

namespace XMonitor.Cgroups

open Procfile CpuCollect

variable {cgType : CgType}

/-- The file with the lines of a version. -/
def CpuFiles.cpuStat (files : CpuFiles) : CgType → LinesSource (List UInt8)
  | .v1 => files.cpuacctCpuStat
  | .v2 => files.unifiedCpuStat

/-- The files in a round, where `cpu.stat` has lines with keys and values if it can be read. -/
structure CpuRound (cgType : CgType) where
  files : CpuFiles
  stat : LinesSource (List StatLine)
  text : files.cpuStat cgType = stat.map statText

/-- The lines that a collection reads. -/
def CpuRound.lines (round : CpuRound cgType) : Option (List StatLine) :=
  if round.files.endsFirst cgType then none
  else
    match round.stat with
    | .read lines => some lines
    | .noName | .notOpened | .notRead => none

/-- The values that are known behind a file, where one that is too short does not count. -/
def learn (cgType : CgType) (known : CpuCounter → Option UInt64) (lines : List StatLine) :
    CpuCounter → Option UInt64 :=
  if TooShort cgType lines then known else fun c => (valueOf cgType lines c).or (known c)

/-- The value of each key in the last file that has contained it. -/
def lastKnown (rounds : List (CpuRound cgType)) : CpuCounter → Option UInt64 :=
  (rounds.filterMap CpuRound.lines).foldl (learn cgType) fun _ => none

/-- The values of the kernel never decrease. -/
def NeverDecrease (rounds : List (CpuRound cgType)) : Prop :=
  ∀ c, ((rounds.filterMap CpuRound.lines).filterMap fun lines => valueOf cgType lines c).Pairwise
    (· ≤ ·)

/-- A file from which a collection takes the values that are known behind it. -/
def Suits (cgType : CgType) (known : CpuCounter → Option UInt64) (lines : List StatLine) : Prop :=
  if TooShort cgType lines then
    cgType = .v1 → ∀ set ∈ cpuStatSets cgType, (known set.2).getD 0 = 0
  else
    ∀ set ∈ cpuStatSets cgType,
      (valueAt cgType lines set.2).getD 0 = ((valueOf cgType lines set.2).or (known set.2)).getD 0 ∧
        Exact ((valueAt cgType lines set.2).getD 0 - (known set.2).getD 0)

/-- What a round has to meet, behind others. -/
structure Meets (cpuCoresNum : UInt32) (past : List (CpuRound cgType))
    (round : CpuRound cgType) : Prop where
  noFault : NoFault cpuCoresNum round.files cgType
  suits : ∀ lines, round.lines = some lines → Suits cgType (lastKnown past) lines

/-! ## What is added -/

/-- What an object remembers, and what has been added, are the known values. -/
def Telescoped (cgType : CgType) (known : CpuCounter → Option UInt64) (obj : CpuObj)
    (outputs : List CpuOutput) : Prop :=
  ∀ set ∈ cpuStatSets cgType, obj.counters set.2 = (known set.2).getD 0 ∧
    addedTo set.1 outputs = ((known set.2).getD 0).toNat

section Takes

variable {known known' : CpuCounter → Option UInt64} {p : CpuCollect}

/-- The values that the counters of `cpu.stat` remember. -/
def remembered (cgType : CgType) (obj : CpuObj) : List UInt64 :=
  (cpuStatSets cgType).map fun set => obj.counters set.2

theorem takes_of_leaves
    (h : p.Leaves (remembered cgType) fun metric => metric ∈ (cpuStatSets cgType).map Prod.fst) :
    Takes (Telescoped cgType known) (Telescoped cgType known) p := by
  intro obj outputs part htelescoped hpart set hset
  obtain ⟨hremembered, hadded⟩ := h obj part hpart
  obtain ⟨hcounter, htotal⟩ := htelescoped set hset
  refine ⟨(List.map_inj_left.mp hremembered set hset).trans hcounter, ?_⟩
  rw [addedTo_append, htotal, hadded set.1 (List.mem_map_of_mem hset), Nat.add_zero]

/-- The differences to the known values lead to the new ones. -/
theorem takes_addDifferences {values : CpuCounter → UInt64}
    (hvalues : ∀ set ∈ cpuStatSets cgType, values set.2 = (known' set.2).getD 0)
    (hle : ∀ set ∈ cpuStatSets cgType, (known set.2).getD 0 ≤ (known' set.2).getD 0)
    (hexact : ∀ set ∈ cpuStatSets cgType, Exact (values set.2 - (known set.2).getD 0)) :
    Takes (Telescoped cgType known) (Telescoped cgType known') fun obj =>
      some (addDifferences (cpuStatSets cgType) values obj) := by
  intro obj outputs part htelescoped hpart set hset
  obtain rfl := Option.some.inj hpart
  obtain ⟨hcounter, htotal⟩ := htelescoped set hset
  have hnodup : ((cpuStatSets cgType).map Prod.fst).Nodup := by
    cases cgType
    all_goals decide
  have hdifference := addedTo_counterAdd hnodup hset fun set =>
    doubleOfUInt64 (values set.2 - obj.counters set.2)
  refine ⟨(counters_addDifferences hset values obj).trans (hvalues set hset), ?_⟩
  have hexact := hexact set hset
  rw [hvalues set hset] at hexact
  rw [addedTo_append, htotal, addDifferences, hdifference, hcounter, hvalues set hset]
  exact hexact.add_sub (hle set hset)

/-! ## The files -/

theorem takes_collectCpuStatV1 {lines : List StatLine} (hsuits : Suits .v1 known lines)
    (hle : ∀ c, (known c).getD 0 ≤ (learn .v1 known lines c).getD 0) :
    Takes (Telescoped .v1 known) (Telescoped .v1 (learn .v1 known lines))
      (collectCpuStatV1 (.read (statText lines))) := by
  have hkeys : ∀ set ∈ cpuStatV1, (cpuStatKey .v1 set.2, set.2) ∈ cpuStatV1Keys := by decide
  by_cases hshort : TooShort .v1 lines
  · rw [Suits, if_pos hshort] at hsuits
    have hknown := hsuits rfl
    rw [learn, if_pos hshort] at hle ⊢
    have hvalues : (if 3 ≤ (fileLines cpuTypes (statText lines)).length then
        readKeys cpuStatV1Keys (fileLines cpuTypes (statText lines)) else fun _ => 0) =
        fun _ => 0 := by
      rw [length_fileLines_statText]
      exact if_neg (Nat.not_le.mpr (Nat.succ_lt_succ hshort))
    refine takes_addDifferences (fun set hset => ?_) (fun set _ => hle set.2) fun set hset => ?_
    · rw [hvalues, hknown set hset]
    · rw [hvalues, hknown set hset]
      change Exact ((0 : UInt64) - 0)
      rw [UInt64.sub_self]
      exact exact_zero
  · rw [Suits, if_neg hshort] at hsuits
    rw [learn, if_neg hshort] at hle ⊢
    have hlong : 3 ≤ lines.length + 1 := Nat.succ_le_succ (Nat.not_lt.mp hshort)
    have hvalues (set : CpuMetric × CpuCounter) (hset : set ∈ cpuStatV1) :
        (if 3 ≤ (fileLines cpuTypes (statText lines)).length then
          readKeys cpuStatV1Keys (fileLines cpuTypes (statText lines)) else fun _ => 0) set.2 =
        (valueAt .v1 lines set.2).getD 0 := by
      rw [length_fileLines_statText, if_pos hlong]
      exact keysApart_cpuStatV1.readKeys (hkeys set hset) lines
    refine takes_addDifferences (fun set hset => ?_) (fun set _ => hle set.2) fun set hset => ?_
    · exact (hvalues set hset).trans (hsuits set hset).1
    · rw [hvalues set hset]
      exact (hsuits set hset).2

/-- A value of version 2 is that of its line, or zero behind the last one. -/
theorem str2uint64_lineword (lines : List StatLine) (c : CpuCounter) :
    str2uint64 (lineword ((fileLines cpuTypes (statText lines)).getD (cpuStatV2Line c) []) 1) =
      (valueAt .v2 lines c).getD 0 := by
  change _ = (lines[cpuStatV2Line c]?.map StatLine.value).getD 0
  rw [fileLines_statText, List.getD_eq_getElem?_getD]
  obtain hlt | hge := Nat.lt_or_ge (cpuStatV2Line c) lines.length
  · rw [List.getElem?_append_left (by rwa [List.length_map]), List.getElem?_map,
      List.getElem?_eq_getElem hlt]
    exact str2uint64_value _
  · rw [List.getElem?_append_right (by rwa [List.length_map]), List.getElem?_eq_none hge,
      List.getElem?_singleton]
    split
    · rfl
    · rfl

theorem takes_collectCpuStatV2 {lines : List StatLine} (hsuits : Suits .v2 known lines)
    (hle : ∀ c, (known c).getD 0 ≤ (learn .v2 known lines c).getD 0) :
    Takes (Telescoped .v2 known) (Telescoped .v2 (learn .v2 known lines))
      (collectCpuStatV2 (.read (statText lines))) := by
  by_cases hshort : TooShort .v2 lines
  · rw [learn, if_pos hshort]
    intro obj outputs part htelescoped hpart
    have hlength : (fileLines cpuTypes (statText lines)).length < 6 := by
      rw [length_fileLines_statText]
      exact Nat.succ_lt_succ hshort
    change (if (fileLines cpuTypes (statText lines)).length < 6 then _ else _) = some part at hpart
    rw [if_pos hlength] at hpart
    obtain rfl := Option.some.inj hpart
    rw [List.append_nil]
    exact htelescoped
  · rw [Suits, if_neg hshort] at hsuits
    rw [learn, if_neg hshort] at hle ⊢
    have hlength : ¬(fileLines cpuTypes (statText lines)).length < 6 := by
      rw [length_fileLines_statText]
      exact fun h => hshort (Nat.lt_of_succ_lt_succ h)
    have htakes : Takes (Telescoped .v2 known)
        (Telescoped .v2 fun c => (valueOf .v2 lines c).or (known c)) fun obj =>
        some (addDifferences cpuStatV2 (fun c => (valueAt .v2 lines c).getD 0) obj) :=
      takes_addDifferences (fun set hset => (hsuits set hset).1) (fun set _ => hle set.2)
        fun set hset => (hsuits set hset).2
    intro obj outputs part htelescoped hpart
    change (if (fileLines cpuTypes (statText lines)).length < 6 then _ else _) = some part at hpart
    rw [if_neg hlength] at hpart
    simp only [str2uint64_lineword] at hpart
    exact htakes obj outputs part htelescoped hpart

end Takes

/-! ## Rounds -/

/-- The values that are known behind a round. -/
def CpuRound.learn (round : CpuRound cgType) (known : CpuCounter → Option UInt64) :
    CpuCounter → Option UInt64 :=
  match round.lines with
  | none => known
  | some lines => Cgroups.learn cgType known lines

theorem lastKnown_concat (past : List (CpuRound cgType)) (round : CpuRound cgType) :
    lastKnown (past ++ [round]) = round.learn (lastKnown past) := by
  rw [lastKnown, List.filterMap_append, List.foldl_append, CpuRound.learn]
  cases hlines : round.lines with
  | none =>
      rw [List.filterMap_cons_none hlines]
      rfl
  | some lines =>
      rw [List.filterMap_cons_some hlines]
      rfl

/-- A known value has been in a file. -/
theorem mem_of_lastKnown {past : List (CpuRound cgType)} {c : CpuCounter} {value : UInt64}
    (h : lastKnown past c = some value) :
    value ∈ (past.filterMap CpuRound.lines).filterMap fun lines => valueOf cgType lines c := by
  rw [lastKnown] at h
  generalize past.filterMap CpuRound.lines = files at h ⊢
  induction files using List.reverseRecOn with
  | nil => exact absurd h.symm (Option.some_ne_none _)
  | append_singleton files lines ih =>
      rw [List.foldl_append, List.foldl_cons, List.foldl_nil, Cgroups.learn] at h
      rw [List.filterMap_append, List.mem_append]
      split at h
      · exact .inl (ih h)
      · obtain hvalue | ⟨-, hknown⟩ := Option.or_eq_some_iff.mp h
        · exact .inr (List.mem_filterMap.mpr ⟨lines, List.mem_singleton_self lines, hvalue⟩)
        · exact .inl (ih hknown)

/-- What is known never decreases. -/
theorem NeverDecrease.learn_le {rounds past : List (CpuRound cgType)} {round : CpuRound cgType}
    (h : NeverDecrease rounds) (hpast : past ++ [round] <+: rounds) {lines : List StatLine}
    (hlines : round.lines = some lines) (c : CpuCounter) :
    (lastKnown past c).getD 0 ≤ (learn cgType (lastKnown past) lines c).getD 0 := by
  rw [learn]
  split
  · exact Nat.le_refl _
  · change _ ≤ ((valueOf cgType lines c).or (lastKnown past c)).getD 0
    cases hvalue : valueOf cgType lines c with
    | none =>
        rw [Option.none_or]
        exact Nat.le_refl _
    | some value =>
        rw [Option.some_or, Option.getD_some]
        cases hknown : lastKnown past c with
        | none => exact Nat.zero_le _
        | some known =>
            obtain ⟨rest, rfl⟩ := hpast
            have hpair := h c
            simp only [List.filterMap_append] at hpair
            have hpair' := (List.pairwise_append.mp (List.pairwise_append.mp hpair).1).2.2
            refine hpair' known (mem_of_lastKnown hknown) value ?_
            rw [List.filterMap_cons_some hlines, List.filterMap_nil]
            exact List.mem_filterMap.mpr ⟨lines, List.mem_singleton_self lines, hvalue⟩

/-- What the collections of version 1 do behind `cpu.stat` is about other values. -/
theorem takes_rest (cpuCoresNum : UInt32) (files : CpuFiles)
    (known : CpuCounter → Option UInt64) :
    Takes (Telescoped .v1 known) (Telescoped .v1 known) ((collectV1Gauges files).andThen
      ((collectUsageAll cpuCoresNum files.cpuacctUsageAll).andThen (collectV1Usage files))) := by
  refine takes_of_leaves ((leaves_collectV1Gauges files).andThen
    ((leaves_collectUsageAll (fun _ _ _ => rfl) ?_ cpuCoresNum _).andThen
      (leaves_collectV1Usage ?_ ?_ files)))
  · rintro metric hmetric ⟨cpu, hcpu⟩
    revert hmetric hcpu
    simp only [perCpuSets, cpuStatSets, cpuStatV1, List.map_cons, List.map_nil, List.mem_cons,
      List.not_mem_nil, or_false]
    rintro (rfl | rfl | rfl)
    all_goals simp
  · rintro obj c value (rfl | rfl | rfl)
    · rfl
    · rfl
    · rfl
  · decide

/-- What a collection that gets to `cpu.stat` does with it takes the known values on. -/
theorem takes_cpuStat {round : CpuRound cgType} {known : CpuCounter → Option UInt64}
    (hends : round.files.endsFirst cgType = false) {p : ProcFile → CpuCollect}
    (hread : ∀ lines, round.lines = some lines →
      Takes (Telescoped cgType known) (Telescoped cgType (learn cgType known lines))
        (p (fileLines cpuTypes (statText lines)))) :
    Takes (Telescoped cgType known) (Telescoped cgType (round.learn known))
      (withLines (round.files.cpuStat cgType) true p) := by
  rw [round.text, CpuRound.learn]
  refine Takes.withLines (fun lines hstat => ?_) fun hother obj outputs htelescoped => ?_
  · have hlines : round.lines = some lines := by
      rw [CpuRound.lines, hends, if_neg Bool.false_ne_true, hstat]
    rw [hlines]
    exact hread lines hlines
  · rw [CpuRound.lines, hends, if_neg Bool.false_ne_true]
    cases hstat : round.stat with
    | read lines => exact absurd hstat (hother lines)
    | _ => exact htelescoped

/-- A round takes the known values on. -/
theorem takes_round {cpuCoresNum : UInt32} {rounds past : List (CpuRound cgType)}
    {round : CpuRound cgType} (hmono : NeverDecrease rounds) (hpast : past ++ [round] <+: rounds)
    (hmeets : Meets cpuCoresNum past round) :
    Takes (Telescoped cgType (lastKnown past)) (Telescoped cgType (lastKnown (past ++ [round])))
      (collectCgroupObjCpuMetrics cgType cpuCoresNum round.files) := by
  rw [lastKnown_concat]
  cases cgType with
  | v1 =>
      have hstat : Takes (Telescoped .v1 (lastKnown past))
          (Telescoped .v1 (round.learn (lastKnown past)))
          (collectCpuStatV1 round.files.cpuacctCpuStat) :=
        takes_cpuStat rfl fun lines hlines =>
          takes_collectCpuStatV1 (hmeets.suits lines hlines) (hmono.learn_le hpast hlines)
      exact hstat.andThen (takes_rest cpuCoresNum round.files _)
  | v2 =>
      have hmax : Takes (Telescoped .v2 (lastKnown past)) (Telescoped .v2 (lastKnown past))
          (collectCpuMax round.files.unifiedCpuMax) := takes_of_leaves (leaves_collectCpuMax _)
      refine hmax.andThen_of_returned (continues_collectCpuMax round.files).of_some
        (fun hends => ?_) ?_
      · exact takes_cpuStat hends fun lines hlines =>
          takes_collectCpuStatV2 (hmeets.suits lines hlines) (hmono.learn_le hpast hlines)
      · intro hends obj outputs htelescoped
        have hlearn : round.learn (lastKnown past) = lastKnown past := by
          rw [CpuRound.learn, CpuRound.lines, if_pos (Bool.not_eq_false _ ▸ hends)]
        rw [hlearn]
        exact htelescoped

/-! ## Runs -/

theorem telescoped_init (cgType : CgType) (cpuCoresNum : UInt32) :
    Telescoped cgType (fun _ => none) (initCgroupObjCpuMetrics cgType cpuCoresNum) [] :=
  fun _ _ => ⟨rfl, rfl⟩

/-- A run in which every round meets the conditions gets through and telescopes. -/
theorem exists_telescoped_run {cpuCoresNum : UInt32} {rounds : List (CpuRound cgType)}
    (hmono : NeverDecrease rounds)
    (hmeets : ∀ past round, past ++ [round] <+: rounds → Meets cpuCoresNum past round)
    {past : List (CpuRound cgType)} (hpast : past <+: rounds) :
    ∃ st, cpuRun cgType cpuCoresNum (past.map CpuRound.files) = some st ∧
      Telescoped cgType (lastKnown past) st.obj st.outputs :=
  exists_run (I := fun past => Telescoped cgType (lastKnown past))
    (telescoped_init cgType cpuCoresNum)
    (fun past round hround => ⟨(hmeets past round hround).noFault,
      takes_round hmono hround (hmeets past round hround)⟩) hpast

/-- In a run in which every round meets the conditions, the total of each counter and what is
remembered for it are the value of its key in the last file that has contained it, after every
round. A file that is too short changes neither. -/
theorem cpu_stat_telescopes (cgType : CgType) (cpuCoresNum : UInt32)
    (rounds : List (CpuRound cgType)) (hmono : NeverDecrease rounds)
    (hmeets : ∀ past round, past ++ [round] <+: rounds → Meets cpuCoresNum past round) :
    (∀ past, past <+: rounds →
      ∃ st, cpuRun cgType cpuCoresNum (past.map CpuRound.files) = some st ∧
        ∀ set ∈ cpuStatSets cgType, st.obj.counters set.2 = (lastKnown past set.2).getD 0 ∧
          st.total set.1 = ((lastKnown past set.2).getD 0).toNat) ∧
      ∀ past round, past ++ [round] <+: rounds →
        (∀ lines, round.lines = some lines → TooShort cgType lines) →
        ∃ st st', cpuRun cgType cpuCoresNum (past.map CpuRound.files) = some st ∧
          cpuRun cgType cpuCoresNum ((past ++ [round]).map CpuRound.files) = some st' ∧
          ∀ set ∈ cpuStatSets cgType, st'.obj.counters set.2 = st.obj.counters set.2 ∧
            st'.total set.1 = st.total set.1 := by
  refine ⟨fun past hpast => exists_telescoped_run hmono hmeets hpast, ?_⟩
  intro past round hpast hshort
  obtain ⟨st, hst, htelescoped⟩ :=
    exists_telescoped_run hmono hmeets ((List.prefix_append past [round]).trans hpast)
  obtain ⟨st', hst', htelescoped'⟩ := exists_telescoped_run hmono hmeets hpast
  have hknown : lastKnown (past ++ [round]) = lastKnown past := by
    rw [lastKnown_concat, CpuRound.learn]
    cases hlines : round.lines with
    | none => rfl
    | some lines => exact if_pos (hshort lines hlines)
  rw [hknown] at htelescoped'
  refine ⟨st, st', hst, hst', fun set hset => ?_⟩
  obtain ⟨hcounter, htotal⟩ := htelescoped set hset
  obtain ⟨hcounter', htotal'⟩ := htelescoped' set hset
  exact ⟨hcounter'.trans hcounter.symm, htotal'.trans htotal.symm⟩

/-! ## Some files -/

def statLine (key : String) (value : UInt64) (h : ascii key ≠ [] ∧
    ∀ c ∈ ascii key, cpuTypes c = .isWord) : StatLine :=
  ⟨ascii key, value, h.1, h.2⟩

/-- A file with the keys of version 1 in another order. -/
def throttledLines (periods : UInt64) : List StatLine :=
  [statLine "nr_throttled" 2 (by decide), statLine "wait_sum" 9 (by decide),
    statLine "throttled_time" 7 (by decide), statLine "nr_periods" periods (by decide)]

def statRound (lines : List StatLine) : CpuRound .v1 where
  files := { cpuacctCpuStat := .read (statText lines) }
  stat := .read lines
  text := rfl

theorem meets_statRound {past : List (CpuRound .v1)} {lines : List StatLine}
    (h : Suits .v1 (lastKnown past) lines) : Meets 1 past (statRound lines) where
  noFault := ⟨by simp [statRound], fun _ => ⟨by simp [statRound], fun _ => trivial⟩⟩
  suits := by
    intro lines' hlines
    obtain rfl := Option.some.inj hlines
    exact h

/-- Two rounds with all keys. -/
theorem throttled_rounds_telescope :
    ∃ st, cpuRun .v1 1 ([statRound (throttledLines 5), statRound (throttledLines 8)].map
        CpuRound.files) = some st ∧
      ∀ set ∈ cpuStatSets .v1, st.obj.counters set.2 =
          (lastKnown [statRound (throttledLines 5), statRound (throttledLines 8)] set.2).getD 0 ∧
        st.total set.1 = ((lastKnown [statRound (throttledLines 5),
          statRound (throttledLines 8)] set.2).getD 0).toNat := by
  refine (cpu_stat_telescopes .v1 1 [statRound (throttledLines 5), statRound (throttledLines 8)]
    (fun c => ?_) fun past round hpast => ?_).1 _ (List.prefix_refl _)
  · cases c
    all_goals decide +kernel
  · rcases past with _ | ⟨first, _ | ⟨second, rest⟩⟩
    · obtain ⟨rfl, -⟩ := List.cons_prefix_cons.mp hpast
      refine meets_statRound ?_
      rw [Suits, if_neg (by decide)]
      decide +kernel
    · obtain ⟨rfl, htail⟩ := List.cons_prefix_cons.mp hpast
      obtain ⟨rfl, -⟩ := List.cons_prefix_cons.mp htail
      refine meets_statRound ?_
      rw [Suits, if_neg (by decide)]
      decide +kernel
    · have hlength := hpast.length_le
      simp at hlength

/-- A file of version 2 with one more key in front of the last three. -/
def idleLines : List StatLine :=
  [statLine "usage_usec" 10 (by decide), statLine "user_usec" 6 (by decide),
    statLine "system_usec" 4 (by decide),
    statLine "core_sched.force_idle_usec" 0 (by decide), statLine "nr_periods" 3 (by decide),
    statLine "nr_throttled" 2 (by decide), statLine "throttled_usec" 1 (by decide)]

def idleRound : CpuRound .v2 where
  files := { unifiedCpuStat := .read (statText idleLines) }
  stat := .read idleLines
  text := rfl

/-- Behind a file with all keys, one without lines adds `2 ^ 64` in version 1. In version 2 the
value of the key in front of the periods is taken for theirs. -/
theorem short_file_adds :
    NeverDecrease [statRound (throttledLines 5), statRound []] ∧
      lastKnown [statRound (throttledLines 5), statRound []] .cpuStatNrPeriods = some 5 ∧
      ((cpuRun .v1 1 ([statRound (throttledLines 5), statRound []].map CpuRound.files)).map
        fun st => (st.obj.counters .cpuStatNrPeriods, st.total .v1CpuStatNrPeriods)) =
          some (0, 5 + 2 ^ 64) ∧
      lastKnown [idleRound] .cpuStatNrPeriods = some 3 ∧
      ((cpuRun .v2 1 [idleRound.files]).map
        fun st => (st.obj.counters .cpuStatNrPeriods, st.total .v2CpuStatNrPeriods)) =
          some (0, 0) := by
  have hmono : NeverDecrease [statRound (throttledLines 5), statRound []] := by
    intro c
    cases c
    all_goals decide +kernel
  refine ⟨hmono, ?_⟩
  decide +kernel

end XMonitor.Cgroups
