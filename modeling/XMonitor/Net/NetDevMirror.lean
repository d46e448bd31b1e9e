import XMonitor.Lib.EventRun
import XMonitor.Lib.FirstSeen
import XMonitor.Net.NetDevList

/-!
# The list of network devices after a round

Names, addresses and the cursor stay in order in every run. Whether the list is that of
the file depends on the sweep. It frees what the round did not update, so that the list
is exact, but it counts every freed node against the kept ones; and after the counter has
come out as zero, the next round has no sweep.
-/

namespace XMonitor.Net

/-- The names of the devices that a file lists. -/
def NetDevFile.names (file : NetDevFile) : List CString :=
  (file.lines.drop 2).filterMap fun line =>
    if line.length < 17 then none else some (lineDevName line)

/-- The devices of a file, each once. -/
def NetDevFile.devices (file : NetDevFile) : List CString :=
  firstSeen (fun _ => True) file.names

/-- The names that no node has yet. -/
def newDevices (s : NetDevMetrics) (names : List CString) : List CString :=
  firstSeen (fun devName => devName ∉ s.names) names

/-- Every device that has a node is found, wherever the cursor stands. -/
def Finds (s : NetDevMetrics) : Prop :=
  ∀ pointer, s.Valid pointer → ∀ m ∈ s.nodes, ∃ next, s.Valid next ∧
    getNetDevMetric { s with lastUsed := pointer } m.devName =
      (m.address, { s with lastUsed := next })

/-- The list has one node for each device of the file and no other, the counter is its
length, and the cursor is null or points into it. -/
structure Mirrors (file : NetDevFile) (s : NetDevMetrics) : Prop where
  distinct : s.names.Nodup
  listed : ∀ devName, devName ∈ s.names ↔ devName ∈ file.devices
  count : s.added.toNat = s.nodes.length
  cursor : s.Valid s.lastUsed

/-- A listed device is missing in a file. -/
def Removes (s : NetDevMetrics) (file : NetDevFile) : Prop :=
  ∃ m ∈ s.nodes, m.devName ∉ file.devices

/-- The state after the rounds of a run. -/
def afterRounds (files : List NetDevFile) : NetDevMetrics :=
  files.foldl collectorProcNetDev {}

/-- A device was missing in one of the files. -/
def FollowsRemoval (files : List NetDevFile) : Prop :=
  ∃ past file, past ++ [file] <+: files ∧ Removes (afterRounds past) file

/-- What should hold of the round that reads a file after other rounds: every lookup finds
what there is, and the list mirrors the file at the end. -/
structure RoundMirrors (past : List NetDevFile) (file : NetDevFile) : Prop where
  lookups : ∀ read, read <+: file.lines.drop 2 →
    Finds (read.foldl netDevLine (afterRounds past))
  mirrors : Mirrors file (afterRounds (past ++ [file]))

/-- The sweep of a round does its work. It takes place unless there is nothing to list;
every node whose device has disappeared has lost its flag in an earlier round; and the
number of these nodes does not show in the counter, because it is zero or a multiple of
`2 ^ 32`. -/
def SweepsRight (s : NetDevMetrics) (file : NetDevFile) : Prop :=
  if s.added + UInt32.ofNat (newDevices s file.names).length = 0 then
    s.nodes = [] ∧ file.devices = []
  else
    (∀ m ∈ s.nodes, m.devName ∉ file.devices → m.updated = false) ∧
      2 ^ 32 ∣ (s.nodes.countP fun m => m.devName ∉ file.devices) ∧
      file.devices.length < 2 ^ 32

/-- The nodes that a round updates or that had their flag before. -/
def keptNodes (s : NetDevMetrics) (names : List CString) : List NetDevMetric :=
  s.nodes.filter fun m => m.updated || decide (m.devName ∈ names)

/-- The loop over the lines after the devices `past`. -/
structure HasRead (s : NetDevMetrics) (past : List CString) (cur : NetDevMetrics) : Prop where
  invariant : cur.Invariant
  views : cur.nodes.map NetDevMetric.view =
    (s.nodes.map fun m => (m.devName, m.updated || decide (m.devName ∈ past))) ++
      (newDevices s past).map fun devName => (devName, true)
  added : cur.added = s.added + UInt32.ofNat (newDevices s past).length

theorem mem_devices {file : NetDevFile} {devName : CString} :
    devName ∈ file.devices ↔ devName ∈ file.names := by
  show devName ∈ firstSeen _ _ ↔ _
  rw [mem_firstSeen, and_iff_left trivial]

theorem names_fit {file : NetDevFile} {devName : CString} (h : devName ∈ file.names) :
    devName.length < XM_DEV_NAME_MAX := by
  obtain ⟨line, hline, hname⟩ := List.mem_filterMap.mp h
  split at hname
  · exact nomatch hname
  · obtain rfl := Option.some.inj hname
    exact file.names_fit line hline

theorem foldl_netDevLine (s : NetDevMetrics) (lines : ProcFile) :
    lines.foldl netDevLine s = (lines.filterMap fun line =>
      if line.length < 17 then none else some (lineDevName line)).foldl updateNetDev s := by
  rw [List.foldl_filterMap]
  congr 1
  funext s line
  rw [netDevLine]
  split <;> rfl

/-! ## The lines -/

section Lines

variable {s cur : NetDevMetrics} {past : List CString} {devName : CString}

theorem HasRead.names (h : HasRead s past cur) : cur.names = s.names ++ newDevices s past := by
  have hviews := congrArg (List.map Prod.fst) h.views
  simp only [List.map_append, List.map_map] at hviews
  have hid : (newDevices s past).map (Prod.fst ∘ fun devName => (devName, true)) =
      newDevices s past := List.map_id' _
  rw [hid] at hviews
  exact hviews

theorem mem_newDevices : devName ∈ newDevices s past ↔ devName ∈ past ∧ devName ∉ s.names := by
  rw [newDevices, mem_firstSeen]

theorem HasRead.update_listed (h : HasRead s past cur) (hmem : devName ∈ cur.names) :
    HasRead s (past ++ [devName]) (updateNetDev cur devName) := by
  obtain ⟨hinv, hadded, hnodes⟩ := updateNetDev_of_mem h.invariant hmem
  have hold : ¬(devName ∉ s.names ∧ devName ∉ newDevices s past) := by
    rintro ⟨hs, hnew⟩
    rw [h.names, List.mem_append] at hmem
    exact hmem.elim hs hnew
  have hsame : newDevices s (past ++ [devName]) = newDevices s past := by
    rw [newDevices, firstSeen_concat, ← newDevices, if_neg hold]
  refine ⟨hinv, ?_, by rw [hadded, h.added, hsame]⟩
  have hview : (cur.nodes.map fun m =>
        if m.devName = devName then { m with updated := true } else m).map NetDevMetric.view =
      (cur.nodes.map NetDevMetric.view).map fun v => (v.1, v.2 || decide (v.1 = devName)) := by
    rw [List.map_map, List.map_map]
    refine List.map_congr_left fun m _ => ?_
    rw [Function.comp_apply, Function.comp_apply]
    by_cases heq : m.devName = devName
    · simp [NetDevMetric.view, heq]
    · simp [NetDevMetric.view, heq]
  rw [hnodes, hview, h.views, List.map_append, List.map_map, List.map_map, hsame]
  congr 1
  refine List.map_congr_left fun m _ => ?_
  simp [Bool.or_assoc, Bool.decide_or]

theorem HasRead.update_new (h : HasRead s past cur) (hnew : devName ∉ cur.names)
    (hfit : devName.length < XM_DEV_NAME_MAX) :
    HasRead s (past ++ [devName]) (updateNetDev cur devName) := by
  obtain ⟨hinv, hadded, hnodes⟩ := updateNetDev_of_notMem h.invariant hnew hfit
  rw [h.names, List.mem_append, not_or] at hnew
  have hmore : newDevices s (past ++ [devName]) = newDevices s past ++ [devName] := by
    rw [newDevices, firstSeen_concat, ← newDevices, if_pos hnew]
  refine ⟨hinv, ?_, ?_⟩
  · have hothers : (s.nodes.map fun m =>
          (m.devName, m.updated || decide (m.devName ∈ past ++ [devName]))) =
        s.nodes.map fun m => (m.devName, m.updated || decide (m.devName ∈ past)) := by
      refine List.map_congr_left fun m hm => ?_
      have hne : m.devName ≠ devName := by
        rintro rfl
        exact hnew.1 (List.mem_map_of_mem hm)
      simp [hne]
    rw [hnodes, List.map_append, h.views, hmore, List.map_append, hothers, List.append_assoc]
    rfl
  · rw [hadded, h.added, hmore, List.length_append, List.length_singleton, UInt32.ofNat_add,
      UInt32.add_assoc]
    rfl

/-- The whole loop. -/
theorem hasRead_foldl (hs : s.Invariant) {names : List CString}
    (hfit : ∀ devName ∈ names, devName.length < XM_DEV_NAME_MAX) :
    HasRead s names (names.foldl updateNetDev s) := by
  induction names using List.reverseRecOn with
  | nil =>
      refine ⟨hs, ?_, ?_⟩
      · simp [newDevices, firstSeen, NetDevMetric.view]
      · simp [newDevices, firstSeen]
  | append_singleton names devName ih =>
      have hpast := ih fun name hname => hfit name (List.mem_append_left _ hname)
      rw [List.foldl_append]
      by_cases hmem : devName ∈ (names.foldl updateNetDev s).names
      · exact hpast.update_listed hmem
      · exact hpast.update_new hmem (hfit devName (by simp))

/-- The nodes that are updated after the loop. -/
theorem HasRead.updated_names (h : HasRead s past cur) :
    (cur.nodes.filter fun d => d.updated).map NetDevMetric.devName =
      (keptNodes s past).map NetDevMetric.devName ++ newDevices s past := by
  have hviews : (cur.nodes.filter fun d => d.updated).map NetDevMetric.devName =
      ((cur.nodes.map NetDevMetric.view).filter Prod.snd).map Prod.fst := by
    rw [List.filter_map, List.map_map]
    rfl
  have hnew : (newDevices s past).filter (Prod.snd ∘ fun devName => (devName, true)) =
      newDevices s past := List.filter_eq_self.mpr fun _ _ => rfl
  rw [hviews, h.views, List.filter_append, List.map_append, List.filter_map, List.map_map,
    List.filter_map, List.map_map, hnew]
  congr 1
  exact List.map_id' _

theorem HasRead.countP_updated (h : HasRead s past cur) :
    (cur.nodes.countP fun d => d.updated) =
      (keptNodes s past).length + (newDevices s past).length := by
  have hnames := congrArg List.length h.updated_names
  rw [List.length_map, List.length_append, List.length_map,
    ← List.countP_eq_length_filter] at hnames
  exact hnames

theorem HasRead.countP_not_updated (h : HasRead s past cur) :
    (cur.nodes.countP fun d => !d.updated) =
      s.nodes.countP fun m => !(m.updated || decide (m.devName ∈ past)) := by
  have hviews : (cur.nodes.countP fun d => !d.updated) =
      (cur.nodes.map NetDevMetric.view).countP fun v => !v.2 := by
    rw [List.countP_map]
    rfl
  have hnew : (newDevices s past).countP ((fun v => !v.2) ∘ fun devName => (devName, true)) = 0 :=
    List.countP_eq_zero.mpr fun _ _ => Bool.false_ne_true
  rw [hviews, h.views, List.countP_append, List.countP_map, List.countP_map, hnew]
  rfl

end Lines

/-! ## The sweep -/

/-- The sweep keeps the updated nodes, clears their flags, and leaves in the counter the
kept nodes minus the freed ones. -/
theorem cleanupLoop_nodes (last lastUsed : Option Nat) (added : UInt32)
    (ds : List NetDevMetric) :
    (cleanupLoop last lastUsed added ds).1 =
        (ds.filter fun d => d.updated).map (fun d => { d with updated := false }) ∧
      (cleanupLoop last lastUsed added ds).2.2 =
        added + UInt32.ofNat (ds.countP fun d => d.updated) -
          UInt32.ofNat (ds.countP fun d => !d.updated) := by
  induction ds generalizing last lastUsed added with
  | nil => simp [cleanupLoop]
  | cons d ds ih =>
      rw [cleanupLoop]
      cases hd : d.updated with
      | true =>
          obtain ⟨hnodes, hadded⟩ := ih (some d.address) lastUsed (added + 1)
          refine ⟨?_, ?_⟩
          · simp [hd, hnodes]
          · simp only [if_true, hadded, List.countP_cons, hd, Bool.not_true,
              Bool.false_eq_true, if_false, UInt32.ofNat_add]
            grind
      | false =>
          obtain ⟨hnodes, hadded⟩ :=
            ih last (if lastUsed = some d.address then last else lastUsed) (added - 1)
          refine ⟨?_, ?_⟩
          · simp [hd, hnodes]
          · simp only [Bool.false_eq_true, if_false, hadded, List.countP_cons, hd,
              Bool.not_false, if_true, UInt32.ofNat_add]
            grind

/-- The sweep moves the cursor from a freed node to the node kept last. -/
theorem cleanupLoop_cursor {last lastUsed : Option Nat} {added : UInt32}
    {ds : List NetDevMetric} {address : Nat}
    (h : (cleanupLoop last lastUsed added ds).2.1 = some address) :
    address ∈ (cleanupLoop last lastUsed added ds).1.map NetDevMetric.address ∨
      last = some address ∨
      lastUsed = some address ∧ address ∉ ds.map NetDevMetric.address := by
  induction ds generalizing last lastUsed added with
  | nil => exact .inr (.inr ⟨h, List.not_mem_nil⟩)
  | cons d ds ih =>
      rw [cleanupLoop] at h ⊢
      rw [List.map_cons, List.mem_cons, not_or]
      cases hd : d.updated with
      | true =>
          simp only [hd, if_true, List.map_cons, List.mem_cons] at h ⊢
          obtain hkept | hlast | ⟨hcursor, hrest⟩ := ih h
          · exact .inl (.inr hkept)
          · exact .inl (.inl (Option.some.inj hlast).symm)
          · by_cases heq : address = d.address
            · exact .inl (.inl heq)
            · exact .inr (.inr ⟨hcursor, heq, hrest⟩)
      | false =>
          simp only [hd, Bool.false_eq_true, if_false] at h ⊢
          obtain hkept | hlast | ⟨hcursor, hrest⟩ := ih h
          · exact .inl hkept
          · exact .inr (.inl hlast)
          · split at hcursor
            · exact .inr (.inl hcursor)
            · rename_i hne
              refine .inr (.inr ⟨hcursor, ?_, hrest⟩)
              rintro rfl
              exact hne hcursor

theorem cleanupNetDevMetric_of_ne {s : NetDevMetrics} (hne : s.added ≠ s.found) :
    cleanupNetDevMetric s =
      { s with
        nodes := (cleanupLoop none s.lastUsed 0 s.nodes).1
        lastUsed := (cleanupLoop none s.lastUsed 0 s.nodes).2.1
        added := (cleanupLoop none s.lastUsed 0 s.nodes).2.2 } := by
  rw [cleanupNetDevMetric, if_neg hne]

theorem NetDevMetrics.Invariant.cleanup {s : NetDevMetrics} (hs : s.Invariant) :
    (cleanupNetDevMetric s).Invariant := by
  by_cases heq : s.added = s.found
  · rw [cleanupNetDevMetric, if_pos heq]
    exact hs
  · rw [cleanupNetDevMetric_of_ne heq]
    have hnodes := (cleanupLoop_nodes none s.lastUsed 0 s.nodes).1
    have hnames : ((cleanupLoop none s.lastUsed 0 s.nodes).1.map NetDevMetric.devName).Sublist
        s.names := by
      rw [hnodes, List.map_map]
      exact List.filter_sublist.map NetDevMetric.devName
    have haddresses :
        ((cleanupLoop none s.lastUsed 0 s.nodes).1.map NetDevMetric.address).Sublist
          s.addresses := by
      rw [hnodes, List.map_map]
      exact List.filter_sublist.map NetDevMetric.address
    refine ⟨hs.names.sublist hnames, hs.addresses.sublist haddresses,
      fun address h => hs.fresh address (haddresses.subset h), ?_, hs.found⟩
    intro address h
    obtain hkept | hlast | ⟨hcursor, hgone⟩ := cleanupLoop_cursor h
    · exact hkept
    · exact nomatch hlast
    · exact absurd (hs.cursor address hcursor) hgone

/-! ## The round -/

section Round

variable {s : NetDevMetrics} (hs : s.Invariant) (file : NetDevFile)

include hs

theorem hasRead_lines {read : ProcFile} (hread : read <+: file.lines.drop 2) :
    ∃ past, HasRead s past (read.foldl netDevLine s) := by
  rw [foldl_netDevLine]
  refine ⟨_, hasRead_foldl hs fun devName hname => ?_⟩
  have hsub : devName ∈ file.names := (hread.sublist.filterMap _).subset hname
  exact names_fit hsub

theorem hasRead_file : HasRead s file.names ((file.lines.drop 2).foldl netDevLine s) := by
  rw [foldl_netDevLine]
  exact hasRead_foldl hs fun devName hname => names_fit hname

theorem invariant_collectorProcNetDev : (collectorProcNetDev s file).Invariant :=
  (hasRead_file hs file).invariant.cleanup

/-- Where the counter is zero after the lines, the list only grows. -/
theorem collectorProcNetDev_of_zero
    (hzero : s.added + UInt32.ofNat (newDevices s file.names).length = 0) :
    (collectorProcNetDev s file).names = s.names ++ newDevices s file.names ∧
      (collectorProcNetDev s file).added = 0 := by
  have hread := hasRead_file hs file
  have heq := hread.added.trans hzero
  rw [collectorProcNetDev, cleanupNetDevMetric, if_pos (heq.trans hread.invariant.found.symm)]
  exact ⟨hread.names, heq⟩

/-- Otherwise the sweep keeps the nodes that are updated or had their flag before, and the
new ones. -/
theorem collectorProcNetDev_of_ne_zero
    (hne : s.added + UInt32.ofNat (newDevices s file.names).length ≠ 0) :
    (collectorProcNetDev s file).names =
        (keptNodes s file.names).map NetDevMetric.devName ++ newDevices s file.names ∧
      (collectorProcNetDev s file).added =
        UInt32.ofNat ((keptNodes s file.names).length + (newDevices s file.names).length) -
          UInt32.ofNat (s.nodes.countP fun m =>
            !(m.updated || decide (m.devName ∈ file.names))) := by
  have hread := hasRead_file hs file
  have hsweep : ((file.lines.drop 2).foldl netDevLine s).added ≠
      ((file.lines.drop 2).foldl netDevLine s).found := by
    rw [hread.added, hread.invariant.found]
    exact hne
  obtain ⟨hnodes, hadded⟩ := cleanupLoop_nodes none
    ((file.lines.drop 2).foldl netDevLine s).lastUsed 0
    ((file.lines.drop 2).foldl netDevLine s).nodes
  rw [collectorProcNetDev, cleanupNetDevMetric_of_ne hsweep, ← hread.updated_names,
    ← hread.countP_updated, ← hread.countP_not_updated]
  refine ⟨?_, ?_⟩
  · rw [NetDevMetrics.names, hnodes, List.map_map]
    rfl
  · rw [hadded, UInt32.zero_add]

end Round

/-! ## Every round -/

/-- A counter that wraps around shows a difference as the first number only if it fits and
the second is a multiple of the modulus. -/
theorem toNat_ofNat_sub_eq_iff (kept gone : Nat) :
    (UInt32.ofNat kept - UInt32.ofNat gone).toNat = kept ↔ kept < 2 ^ 32 ∧ 2 ^ 32 ∣ gone := by
  rw [UInt32.toNat_sub, UInt32.toNat_ofNat', UInt32.toNat_ofNat']
  omega

section Exact

variable {s : NetDevMetrics} (hs : s.Invariant) {file : NetDevFile}

include hs

/-- The nodes of the listed devices and the new ones are as many as the devices. -/
theorem length_devices :
    (s.names.filter fun devName => devName ∈ file.names).length +
      (newDevices s file.names).length = file.devices.length := by
  have hperm : file.devices.Perm ((s.names.filter fun devName => devName ∈ file.names) ++
      newDevices s file.names) :=
    firstSeen_perm hs.names (fun _ _ => trivial) (fun _ => (and_iff_right trivial).symm) _
  rw [hperm.length_eq, List.length_append]

theorem mirrors_of_zero_iff
    (hzero : s.added + UInt32.ofNat (newDevices s file.names).length = 0) :
    Mirrors file (collectorProcNetDev s file) ↔ s.nodes = [] ∧ file.devices = [] := by
  obtain ⟨hnames, hadded⟩ := collectorProcNetDev_of_zero hs file hzero
  have hround := invariant_collectorProcNetDev hs file
  constructor
  · intro h
    have hnone : (collectorProcNetDev s file).names = [] := by
      have hcount := h.count
      rw [hadded] at hcount
      exact List.map_eq_nil_iff.mpr (List.eq_nil_of_length_eq_zero hcount.symm)
    refine ⟨?_, ?_⟩
    · rw [hnames] at hnone
      exact List.map_eq_nil_iff.mp (List.append_eq_nil_iff.mp hnone).1
    · refine List.eq_nil_iff_forall_not_mem.mpr fun devName hdev => ?_
      have hmem := (h.listed devName).mpr hdev
      rw [hnone] at hmem
      exact absurd hmem List.not_mem_nil
  · rintro ⟨hnodes, hdevices⟩
    have hnone : (collectorProcNetDev s file).names = [] := by
      rw [hnames, NetDevMetrics.names, hnodes, List.map_nil, List.nil_append]
      refine List.eq_nil_iff_forall_not_mem.mpr fun devName hnew => ?_
      have hdev := mem_devices.mpr (mem_newDevices.mp hnew).1
      rw [hdevices] at hdev
      exact absurd hdev List.not_mem_nil
    refine ⟨hround.names, ?_, ?_, hround.cursor⟩
    · intro devName
      rw [hnone, hdevices]
    · rw [hadded, List.map_eq_nil_iff.mp hnone]
      rfl

omit hs in
/-- Once no flag is left over, the kept nodes are those of the listed devices. -/
theorem keptNodes_eq (hflags : ∀ m ∈ s.nodes, m.devName ∉ file.devices → m.updated = false) :
    keptNodes s file.names = s.nodes.filter fun m => m.devName ∈ file.names := by
  refine List.filter_congr fun m hm => ?_
  by_cases hmem : m.devName ∈ file.names
  · simp [hmem]
  · simp [hmem, hflags m hm (mt mem_devices.mp hmem)]

omit hs in
theorem countP_gone (hflags : ∀ m ∈ s.nodes, m.devName ∉ file.devices → m.updated = false) :
    (s.nodes.countP fun m => !(m.updated || decide (m.devName ∈ file.names))) =
      s.nodes.countP fun m => m.devName ∉ file.devices := by
  refine List.countP_congr fun m hm => ?_
  by_cases hmem : m.devName ∈ file.names
  · simp [hmem, mem_devices]
  · simp [hmem, mem_devices, hflags m hm (mt mem_devices.mp hmem)]

theorem length_keptNodes
    (hflags : ∀ m ∈ s.nodes, m.devName ∉ file.devices → m.updated = false) :
    (keptNodes s file.names).length + (newDevices s file.names).length =
      file.devices.length := by
  rw [keptNodes_eq hflags, ← length_devices hs, NetDevMetrics.names, List.filter_map,
    List.length_map]
  rfl

/-- The counter after a sweep that no flag is left over for. -/
theorem count_iff (hne : s.added + UInt32.ofNat (newDevices s file.names).length ≠ 0)
    (hflags : ∀ m ∈ s.nodes, m.devName ∉ file.devices → m.updated = false) :
    (collectorProcNetDev s file).added.toNat = (collectorProcNetDev s file).nodes.length ↔
      file.devices.length < 2 ^ 32 ∧
        2 ^ 32 ∣ (s.nodes.countP fun m => m.devName ∉ file.devices) := by
  obtain ⟨hnames, hadded⟩ := collectorProcNetDev_of_ne_zero hs file hne
  have hlength : (collectorProcNetDev s file).nodes.length = file.devices.length := by
    rw [← List.length_map NetDevMetric.devName, ← NetDevMetrics.names, hnames,
      List.length_append, List.length_map, length_keptNodes hs hflags]
  rw [hlength, hadded, length_keptNodes hs hflags, countP_gone hflags, toNat_ofNat_sub_eq_iff]

omit hs in
/-- The kept nodes and the new ones are those of the listed devices. -/
theorem mem_kept_append_new_iff
    (hflags : ∀ m ∈ s.nodes, m.devName ∉ file.devices → m.updated = false)
    (devName : CString) :
    devName ∈ (keptNodes s file.names).map NetDevMetric.devName ++ newDevices s file.names ↔
      devName ∈ file.devices := by
  rw [List.mem_append, keptNodes_eq hflags, mem_newDevices, mem_devices]
  simp only [List.mem_map, List.mem_filter, decide_eq_true_eq]
  constructor
  · rintro (⟨m, ⟨-, hmem⟩, rfl⟩ | ⟨hmem, -⟩)
    · exact hmem
    · exact hmem
  · intro hmem
    by_cases hold : devName ∈ s.names
    · obtain ⟨m, hm, rfl⟩ := List.mem_map.mp hold
      exact .inl ⟨m, ⟨hm, hmem⟩, rfl⟩
    · exact .inr ⟨hmem, hold⟩

theorem mirrors_of_ne_zero_iff
    (hne : s.added + UInt32.ofNat (newDevices s file.names).length ≠ 0) :
    Mirrors file (collectorProcNetDev s file) ↔
      (∀ m ∈ s.nodes, m.devName ∉ file.devices → m.updated = false) ∧
        2 ^ 32 ∣ (s.nodes.countP fun m => m.devName ∉ file.devices) ∧
        file.devices.length < 2 ^ 32 := by
  obtain ⟨hnames, -⟩ := collectorProcNetDev_of_ne_zero hs file hne
  constructor
  · intro h
    have hflags : ∀ m ∈ s.nodes, m.devName ∉ file.devices → m.updated = false := by
      intro m hm hdev
      by_contra hup
      have hmem : m.devName ∈ (collectorProcNetDev s file).names := by
        rw [hnames]
        apply List.mem_append_left
        apply List.mem_map_of_mem
        exact List.mem_filter.mpr ⟨hm, by simp [hup]⟩
      exact hdev ((h.listed m.devName).mp hmem)
    obtain ⟨hfew, hdvd⟩ := (count_iff hs hne hflags).mp h.count
    exact ⟨hflags, hdvd, hfew⟩
  · rintro ⟨hflags, hdvd, hfew⟩
    have hround := invariant_collectorProcNetDev hs file
    refine ⟨hround.names, fun devName => ?_, ?_, hround.cursor⟩
    · rw [hnames]
      exact mem_kept_append_new_iff hflags devName
    · exact (count_iff hs hne hflags).mpr ⟨hfew, hdvd⟩

theorem mirrors_iff_sweepsRight :
    Mirrors file (collectorProcNetDev s file) ↔ SweepsRight s file := by
  rw [SweepsRight]
  split
  · rename_i hzero
    exact mirrors_of_zero_iff hs hzero
  · rename_i hne
    exact mirrors_of_ne_zero_iff hs hne

theorem finds_of_invariant : Finds s :=
  fun pointer _ _ hm => getNetDevMetric_of_mem hs hm pointer

end Exact

/-- Every run keeps the invariant. -/
theorem invariant_afterRounds (files : List NetDevFile) : (afterRounds files).Invariant := by
  have keep : ∀ s file, NetDevMetrics.Invariant s → (collectorProcNetDev s file).Invariant :=
    fun _ file hs => invariant_collectorProcNetDev hs file
  exact EventRun.foldl_preserves keep invariant_empty files

/-- After every run, the next round mirrors its file if and only if its sweep does its
work. -/
theorem roundMirrors_iff (past : List NetDevFile) (file : NetDevFile) :
    RoundMirrors past file ↔ SweepsRight (afterRounds past) file := by
  have hs := invariant_afterRounds past
  have hround : afterRounds (past ++ [file]) = collectorProcNetDev (afterRounds past) file := by
    rw [afterRounds, List.foldl_append]
    rfl
  rw [← mirrors_iff_sweepsRight hs, ← hround]
  constructor
  · exact fun h => h.mirrors
  · intro hmirrors
    refine ⟨fun read hread => ?_, hmirrors⟩
    obtain ⟨names, hnames⟩ := hasRead_lines hs file hread
    exact finds_of_invariant hnames.invariant

/-- A file with devices whose names are one character. -/
def exampleFile (names : List Char) : NetDevFile where
  lines := [] :: [] :: names.map fun c => [c, ':'] :: List.replicate 16 ['0']
  names_fit := by
    intro line hline
    obtain ⟨c, -, rfl⟩ := List.mem_map.mp hline
    show 1 < 128
    decide

/-- The round in which `b` has disappeared leaves the counter at zero, so that `a`, which
disappears next, stays in the list. -/
theorem removed_device_stays : ¬∀ past file, FollowsRemoval past → RoundMirrors past file := by
  intro h
  have hremoval : FollowsRemoval [exampleFile ['a', 'b'], exampleFile ['a']] := by
    refine ⟨[exampleFile ['a', 'b']], exampleFile ['a'], List.prefix_refl _, ?_⟩
    exact ⟨⟨1, ['b'], false⟩, by decide, by decide⟩
  have hround := (h _ (exampleFile []) hremoval).mirrors
  exact absurd ((hround.listed ['a']).mp (by decide)) (by decide)

end XMonitor.Net
