import XMonitor.Lib.EventRun
import XMonitor.Lib.FirstSeen

/-!
# Discovering cgroups

A round of discovery walks the directory trees of the enabled controllers and calls back
for every directory. The callback marks the object of a cgroup that is already listed, or
lists a new object if the name passes the filter and there is room. At the end objects
without a mark are released, and the collection list is copied from the discovery list.

The room is tested before the filter, by comparing the count of objects with the
configured maximum. The comparison lets the count grow one beyond the maximum, and the
objects that the round is going to release still take up room.
-/

namespace XMonitor.Cgroups

/-- A directory: whether it can be opened, and its subdirectories in the order of
`readdir`. -/
inductive Dir
  | mk (opens : Bool) (entries : List (String × Dir))

inductive CgType
  | v1 | v2
deriving DecidableEq

/-- The controllers of version 1 that are searched. -/
inductive Controller
  | cpuacct | memory | cpuset | blkio | device
deriving DecidableEq

/-- `struct plugin_cgroups_ctx`, with the two patterns as the predicates they stand for. -/
structure PluginCgroupsCtx where
  maxCgroupsNum : Int
  cgType : CgType
  enable : Controller → Bool
  cgroupsMatching : String → Bool
  cgroupsSubpathsMatching : String → Bool

/-- `struct xm_cgroup_obj`, known by an address. -/
structure XmCgroupObj where
  address : Nat
  cgId : String
  findFlag : Bool
deriving DecidableEq

/-- `struct xm_cgroup_objs_mgr`. The collection list is a list of the same objects. -/
structure XmCgroupObjsMgr where
  cgDiscoveryList : List XmCgroupObj := []
  cgCollectionList : List Nat := []
  currCgroupCount : Int := 0
  nextAddress : Nat := 0

/-- What a round finds on the file systems. -/
structure Trees where
  v1 : Controller → Dir
  unified : Dir

variable (ctx : PluginCgroupsCtx)

/-! ## The walk -/

mutual

/-- `__find_dir_in_subdirs`: the ids that are called back, for the directory with the
given path relative to the base. -/
def findDirInSubdirs (path : String) : Dir → List String
  | .mk opens entries =>
      let relativePath := if path = "" then "/" else path
      if opens then
        relativePath ::
          if ctx.cgroupsSubpathsMatching relativePath then findInEntries path entries else []
      else []

/-- The loop over the entries of a directory. -/
def findInEntries (path : String) : List (String × Dir) → List String
  | [] => []
  | (name, dir) :: entries =>
      findDirInSubdirs (path ++ "/" ++ name) dir ++ findInEntries path entries

end

/-- The trees that a round searches, in order. -/
def Trees.searched (trees : Trees) : List Dir :=
  match ctx.cgType with
  | .v1 => ([.cpuacct, .memory, .cpuset, .blkio, .device].filter ctx.enable).map trees.v1
  | .v2 => [trees.unified]

/-- All ids that a round visits, in order. -/
def Trees.visited (trees : Trees) : List String :=
  (trees.searched ctx).flatMap (findDirInSubdirs ctx "")

/-! ## The lists -/

/-- `__add_cgroup_obj`, with the metric registration succeeding. -/
def addCgroupObj (mgr : XmCgroupObjsMgr) (cgId : String) : XmCgroupObjsMgr :=
  let cgId := if cgId = "" then "/" else cgId
  if ctx.maxCgroupsNum < mgr.currCgroupCount then mgr
  else if ctx.cgroupsMatching cgId then
    { mgr with
      cgDiscoveryList :=
        mgr.cgDiscoveryList ++ [{ address := mgr.nextAddress, cgId, findFlag := true }]
      currCgroupCount := mgr.currCgroupCount + 1
      nextAddress := mgr.nextAddress + 1 }
  else mgr

/-- Set the flag of the first object with the id. -/
def markFound (cgId : String) : List XmCgroupObj → List XmCgroupObj
  | [] => []
  | obj :: objs =>
      if obj.cgId = cgId then { obj with findFlag := true } :: objs
      else obj :: markFound cgId objs

/-- `__found_cgroup_in_dir`. -/
def foundCgroupInDir (mgr : XmCgroupObjsMgr) (cgId : String) : XmCgroupObjsMgr :=
  if mgr.cgDiscoveryList.any fun obj => obj.cgId = cgId then
    { mgr with cgDiscoveryList := markFound cgId mgr.cgDiscoveryList }
  else addCgroupObj ctx mgr cgId

def unsetAllCgroupObjFindFlag (mgr : XmCgroupObjsMgr) : XmCgroupObjsMgr :=
  { mgr with
    cgDiscoveryList := mgr.cgDiscoveryList.map fun obj => { obj with findFlag := false } }

/-- `cgroups_discovery`. -/
def cgroupsDiscovery (mgr : XmCgroupObjsMgr) (trees : Trees) : XmCgroupObjsMgr :=
  (trees.visited ctx).foldl (foundCgroupInDir ctx) (unsetAllCgroupObjFindFlag mgr)

/-- `__cleanup_all_cgroup_objs`, which decrements the count for every released object. -/
def cleanupAllCgroupObjs (mgr : XmCgroupObjsMgr) : XmCgroupObjsMgr :=
  { mgr with
    cgDiscoveryList := mgr.cgDiscoveryList.filter fun obj => obj.findFlag
    currCgroupCount :=
      mgr.currCgroupCount - mgr.cgDiscoveryList.countP fun obj => !obj.findFlag }

/-- A round of `__cgroups_discovery_routine`. -/
def discoveryRound (mgr : XmCgroupObjsMgr) (trees : Trees) : XmCgroupObjsMgr :=
  let mgr := cleanupAllCgroupObjs (cgroupsDiscovery ctx mgr trees)
  { mgr with cgCollectionList := mgr.cgDiscoveryList.map XmCgroupObj.address }

/-! ## What the lists should be -/

def XmCgroupObjsMgr.ids (mgr : XmCgroupObjsMgr) : List String :=
  mgr.cgDiscoveryList.map XmCgroupObj.cgId

/-- The distinct ids that a round visits and that pass the filter. -/
def Trees.found (trees : Trees) : List String :=
  firstSeen (fun id => ctx.cgroupsMatching id) (trees.visited ctx)

/-- The distinct ids that pass the filter and are not listed yet. -/
def newIds (mgr : XmCgroupObjsMgr) (visited : List String) : List String :=
  firstSeen (fun id => ctx.cgroupsMatching id ∧ id ∉ mgr.ids) visited

/-- The lists are consistent after a round that leads from one state to another. -/
structure Consistent (trees : Trees) (before after : XmCgroupObjsMgr) : Prop where
  distinct : after.ids.Nodup
  complete : ((trees.found ctx).length : Int) ≤ ctx.maxCgroupsNum →
    ∀ id, id ∈ after.ids ↔ id ∈ trees.found ctx
  same : ∀ obj ∈ before.cgDiscoveryList, obj.cgId ∈ trees.visited ctx →
    ∃ obj' ∈ after.cgDiscoveryList, obj'.cgId = obj.cgId ∧ obj'.address = obj.address
  collection : after.cgCollectionList = after.cgDiscoveryList.map XmCgroupObj.address
  count : after.currCgroupCount = after.cgDiscoveryList.length
  limit : after.currCgroupCount ≤ ctx.maxCgroupsNum

/-- There is room for a round. If it finds no more cgroups than the maximum, then those
listed before it and the new ones are at most one more than the maximum; if it finds
more, one that was listed has disappeared. -/
def HasRoom (mgr : XmCgroupObjsMgr) (trees : Trees) : Prop :=
  0 ≤ ctx.maxCgroupsNum ∧
    if ((trees.found ctx).length : Int) ≤ ctx.maxCgroupsNum then
      (mgr.cgDiscoveryList.length + (newIds ctx mgr (trees.visited ctx)).length : Int) ≤
        ctx.maxCgroupsNum + 1
    else ∃ obj ∈ mgr.cgDiscoveryList, obj.cgId ∉ trees.visited ctx

/-- Between rounds, the listed ids are distinct, pass the filter and are counted. -/
structure XmCgroupObjsMgr.Invariant (mgr : XmCgroupObjsMgr) : Prop where
  distinct : mgr.ids.Nodup
  matching : ∀ id ∈ mgr.ids, ctx.cgroupsMatching id
  count : mgr.currCgroupCount = mgr.cgDiscoveryList.length

/-- The number of objects that a round can still list. -/
def room (mgr : XmCgroupObjsMgr) : Nat :=
  (ctx.maxCgroupsNum + 1 - mgr.currCgroupCount).toNat

/-- The objects that were listed before the round, marked if they were visited. -/
def marked (mgr : XmCgroupObjsMgr) (past : List String) : List XmCgroupObj :=
  mgr.cgDiscoveryList.map fun obj => { obj with findFlag := obj.cgId ∈ past }

/-- The walk after the visits `past`: the old objects are marked as far as they were
visited, and the first new ids are listed as long as there is room. -/
structure Walked (mgr : XmCgroupObjsMgr) (past : List String) (added : List XmCgroupObj)
    (cur : XmCgroupObjsMgr) : Prop where
  list : cur.cgDiscoveryList = marked mgr past ++ added
  ids : added.map XmCgroupObj.cgId = (newIds ctx mgr past).take (room ctx mgr)
  flags : ∀ obj ∈ added, obj.findFlag = true
  count : cur.currCgroupCount = mgr.currCgroupCount + added.length

variable {ctx}

/-! ## No visited id is empty -/

mutual

theorem empty_notMem_findDirInSubdirs (path : String) :
    (dir : Dir) → "" ∉ findDirInSubdirs ctx path dir
  | .mk opens entries => by
      have hrest := empty_notMem_findInEntries path entries
      have hname : "" ≠ if path = "" then "/" else path := by
        split
        · decide
        · rename_i hpath
          exact Ne.symm hpath
      rw [findDirInSubdirs]
      generalize (if path = "" then "/" else path) = relativePath at hname ⊢
      cases opens with
      | false => exact List.not_mem_nil
      | true =>
          rw [if_pos rfl, List.mem_cons, not_or]
          refine ⟨hname, ?_⟩
          split
          · exact hrest
          · exact List.not_mem_nil

theorem empty_notMem_findInEntries (path : String) :
    (entries : List (String × Dir)) → "" ∉ findInEntries ctx path entries
  | [] => by
      rw [findInEntries]
      exact List.not_mem_nil
  | (name, dir) :: entries => by
      rw [findInEntries, List.mem_append, not_or]
      exact ⟨empty_notMem_findDirInSubdirs _ dir, empty_notMem_findInEntries path entries⟩

end

theorem ne_empty_of_visited {trees : Trees} {id : String} (h : id ∈ trees.visited ctx) :
    id ≠ "" := by
  rintro rfl
  obtain ⟨dir, -, hdir⟩ := List.mem_flatMap.mp h
  exact empty_notMem_findDirInSubdirs "" dir hdir

/-! ## The walk, visit by visit -/

theorem markFound_eq_map {cgId : String} {objs : List XmCgroupObj}
    (h : (objs.map XmCgroupObj.cgId).Nodup) :
    markFound cgId objs =
      objs.map fun obj => if obj.cgId = cgId then { obj with findFlag := true } else obj := by
  induction objs with
  | nil => rfl
  | cons obj objs ih =>
      obtain ⟨hobj, hrest⟩ := List.nodup_cons.mp h
      rw [markFound, List.map_cons]
      split
      · rename_i heq
        have hother : ∀ obj' ∈ objs,
            (if obj'.cgId = cgId then { obj' with findFlag := true } else obj') = obj' := by
          intro obj' hmem
          refine if_neg fun heq' => hobj ?_
          rw [heq, ← heq']
          exact List.mem_map_of_mem hmem
        rw [List.map_congr_left hother, List.map_id']
      · rw [ih hrest]

theorem map_cgId_marked (mgr : XmCgroupObjsMgr) (past : List String) :
    (marked mgr past).map XmCgroupObj.cgId = mgr.ids := by
  rw [marked, List.map_map]
  rfl

theorem marked_concat_of_notMem {mgr : XmCgroupObjsMgr} {past : List String} {id : String}
    (h : id ∉ mgr.ids) : marked mgr (past ++ [id]) = marked mgr past := by
  refine List.map_congr_left fun obj hobj => ?_
  have hne : obj.cgId ≠ id := by
    rintro rfl
    exact h (List.mem_map_of_mem hobj)
  simp [hne]

/-- Marking an id marks the old object that has it. -/
theorem markFound_marked {mgr : XmCgroupObjsMgr} {past : List String} {added : List XmCgroupObj}
    {id : String} (hnodup : (mgr.ids ++ added.map XmCgroupObj.cgId).Nodup)
    (hflags : ∀ obj ∈ added, obj.findFlag = true) :
    markFound id (marked mgr past ++ added) = marked mgr (past ++ [id]) ++ added := by
  rw [markFound_eq_map, List.map_append, marked, marked, List.map_map]
  · congr 1
    · refine List.map_congr_left fun obj _ => ?_
      by_cases heq : obj.cgId = id
      · simp [heq]
      · simp [heq]
    · conv_rhs => rw [← List.map_id added]
      refine List.map_congr_left fun obj hobj => ?_
      split
      · rw [id_eq, ← hflags obj hobj]
      · rfl
  · rw [List.map_append, map_cgId_marked]
    exact hnodup

section Walk

variable {mgr cur : XmCgroupObjsMgr} {past : List String} {added : List XmCgroupObj}

theorem Walked.nodup (h : Walked ctx mgr past added cur) (hmgr : mgr.ids.Nodup) :
    (mgr.ids ++ added.map XmCgroupObj.cgId).Nodup := by
  rw [h.ids]
  exact nodup_append_take_firstSeen hmgr (fun id hid hnew => hnew.2 hid) past _

/-- A visit to a listed id marks its object. -/
theorem Walked.visit_listed {id : String} (h : Walked ctx mgr past added cur)
    (hmgr : mgr.ids.Nodup) (hlisted : id ∈ mgr.ids ++ added.map XmCgroupObj.cgId) :
    Walked ctx mgr (past ++ [id]) added
      { cur with cgDiscoveryList := markFound id cur.cgDiscoveryList } where
  list := by
    show markFound id cur.cgDiscoveryList = _
    rw [h.list, markFound_marked (h.nodup hmgr) h.flags]
  ids := by
    have hold : ¬((ctx.cgroupsMatching id ∧ id ∉ mgr.ids) ∧ id ∉ newIds ctx mgr past) := by
      rintro ⟨⟨-, hmgr⟩, hnew⟩
      obtain hid | hid := List.mem_append.mp hlisted
      · exact hmgr hid
      · rw [h.ids] at hid
        exact hnew (List.mem_of_mem_take hid)
    rw [newIds, firstSeen_concat, ← newIds, if_neg hold]
    exact h.ids
  flags := h.flags
  count := h.count

/-- The count exceeds the maximum when the room is used up. -/
theorem Walked.maxCgroupsNum_lt_iff (h : Walked ctx mgr past added cur) :
    ctx.maxCgroupsNum < cur.currCgroupCount ↔ room ctx mgr ≤ added.length := by
  rw [h.count, room]
  omega

/-- A visit to an id that is not listed, when there is no room. -/
theorem Walked.visit_full {id : String} (h : Walked ctx mgr past added cur)
    (hfull : room ctx mgr ≤ added.length) (hid : id ∉ mgr.ids) :
    Walked ctx mgr (past ++ [id]) added cur where
  list := by rw [marked_concat_of_notMem hid, h.list]
  ids := by
    have hlen : room ctx mgr ≤ (newIds ctx mgr past).length := by
      have hids := congrArg List.length h.ids
      rw [List.length_map, List.length_take] at hids
      omega
    rw [newIds, firstSeen_concat, ← newIds]
    split
    · rw [List.take_append_of_le_length hlen]
      exact h.ids
    · exact h.ids
  flags := h.flags
  count := h.count

/-- A visit to an id that the filter rejects. -/
theorem Walked.visit_rejected {id : String} (h : Walked ctx mgr past added cur)
    (hid : id ∉ mgr.ids) (hfilter : ctx.cgroupsMatching id = false) :
    Walked ctx mgr (past ++ [id]) added cur where
  list := by rw [marked_concat_of_notMem hid, h.list]
  ids := by
    rw [newIds, firstSeen_concat, ← newIds, if_neg (by simp [hfilter])]
    exact h.ids
  flags := h.flags
  count := h.count

/-- A visit that lists a new object. -/
theorem Walked.visit_new {id : String} (h : Walked ctx mgr past added cur)
    (hspace : added.length < room ctx mgr)
    (hid : id ∉ mgr.ids ++ added.map XmCgroupObj.cgId) (hfilter : ctx.cgroupsMatching id) :
    Walked ctx mgr (past ++ [id]) (added ++ [⟨cur.nextAddress, id, true⟩])
      { cur with
        cgDiscoveryList := cur.cgDiscoveryList ++ [⟨cur.nextAddress, id, true⟩]
        currCgroupCount := cur.currCgroupCount + 1
        nextAddress := cur.nextAddress + 1 } where
  list := by
    rw [List.mem_append, not_or] at hid
    show cur.cgDiscoveryList ++ _ = _
    rw [marked_concat_of_notMem hid.1, h.list, List.append_assoc]
  ids := by
    rw [List.mem_append, not_or] at hid
    have hlen := congrArg List.length h.ids
    rw [List.length_map, List.length_take] at hlen
    have hall : added.map XmCgroupObj.cgId = newIds ctx mgr past := by
      rw [h.ids, List.take_of_length_le (by omega)]
    have hnew : (ctx.cgroupsMatching id ∧ id ∉ mgr.ids) ∧ id ∉ newIds ctx mgr past :=
      ⟨⟨hfilter, hid.1⟩, hall ▸ hid.2⟩
    rw [newIds, firstSeen_concat, ← newIds, if_pos hnew, List.map_append, hall,
      List.take_of_length_le]
    · rfl
    · rw [List.length_append, List.length_singleton]
      omega
  flags := by
    intro obj hobj
    obtain hobj | hobj := List.mem_append.mp hobj
    · exact h.flags obj hobj
    · rw [List.mem_singleton.mp hobj]
  count := by
    show cur.currCgroupCount + 1 = _
    rw [h.count, List.length_append, List.length_singleton]
    omega

theorem Walked.visit {id : String} (h : Walked ctx mgr past added cur) (hmgr : mgr.ids.Nodup)
    (hid : id ≠ "") :
    ∃ added', Walked ctx mgr (past ++ [id]) added' (foundCgroupInDir ctx cur id) := by
  have hids : (cur.cgDiscoveryList.any fun obj => obj.cgId = id) = true ↔
      id ∈ mgr.ids ++ added.map XmCgroupObj.cgId := by
    rw [h.list, ← map_cgId_marked mgr past, ← List.map_append]
    simp only [List.any_eq_true, decide_eq_true_eq, List.mem_map]
  rw [foundCgroupInDir]
  split
  · rename_i hlisted
    exact ⟨added, h.visit_listed hmgr (hids.mp hlisted)⟩
  · rename_i hlisted
    have hnew := mt hids.mpr hlisted
    have hold : id ∉ mgr.ids := fun hmem => hnew (List.mem_append_left _ hmem)
    simp only [addCgroupObj, if_neg hid]
    split
    · rename_i hfull
      exact ⟨added, h.visit_full (h.maxCgroupsNum_lt_iff.mp hfull) hold⟩
    · rename_i hspace
      have hlt := Nat.lt_of_not_le (mt h.maxCgroupsNum_lt_iff.mpr hspace)
      split
      · rename_i hfilter
        exact ⟨_, h.visit_new hlt hnew hfilter⟩
      · rename_i hfilter
        exact ⟨added, h.visit_rejected hold (Bool.eq_false_iff.mpr hfilter)⟩

end Walk

/-- The whole walk. -/
theorem walked_cgroupsDiscovery {mgr : XmCgroupObjsMgr} (hmgr : mgr.ids.Nodup)
    (trees : Trees) :
    ∃ added, Walked ctx mgr (trees.visited ctx) added (cgroupsDiscovery ctx mgr trees) := by
  have hne : ∀ id ∈ trees.visited ctx, id ≠ "" := fun id hid => ne_empty_of_visited hid
  rw [cgroupsDiscovery]
  generalize trees.visited ctx = visited at hne ⊢
  induction visited using List.reverseRecOn with
  | nil =>
      refine ⟨[], ?_, ?_, ?_, ?_⟩
      · simp [unsetAllCgroupObjFindFlag, marked]
      · simp [newIds, firstSeen]
      · simp
      · simp [unsetAllCgroupObjFindFlag]
  | append_singleton past id ih =>
      obtain ⟨added, hpast⟩ := ih fun id' hid' => hne id' (List.mem_append_left _ hid')
      rw [List.foldl_append]
      exact hpast.visit hmgr (hne id (by simp))

/-! ## The sweep -/

section Sweep

variable {mgr : XmCgroupObjsMgr} (hmgr : mgr.Invariant ctx) (trees : Trees)

include hmgr

/-- What a round leaves: the old objects that were visited, and the first new ids. -/
theorem discoveryRound_list : ∃ added : List XmCgroupObj,
    (discoveryRound ctx mgr trees).cgDiscoveryList =
      (mgr.cgDiscoveryList.filter fun obj => obj.cgId ∈ trees.visited ctx).map
        (fun obj => { obj with findFlag := true }) ++ added ∧
    added.map XmCgroupObj.cgId = (newIds ctx mgr (trees.visited ctx)).take (room ctx mgr) := by
  obtain ⟨added, hwalk⟩ := walked_cgroupsDiscovery hmgr.distinct trees
  refine ⟨added, ?_, hwalk.ids⟩
  show (cgroupsDiscovery ctx mgr trees).cgDiscoveryList.filter _ = _
  rw [hwalk.list, List.filter_append, List.filter_eq_self.mpr hwalk.flags, marked,
    List.filter_map]
  congr 1
  refine List.map_congr_left fun obj hobj => ?_
  have hvisited : obj.cgId ∈ trees.visited ctx := by
    simpa using (List.mem_filter.mp hobj).2
  simp [hvisited]

theorem ids_discoveryRound :
    (discoveryRound ctx mgr trees).ids =
      (mgr.ids.filter fun id => id ∈ trees.visited ctx) ++
        (newIds ctx mgr (trees.visited ctx)).take (room ctx mgr) := by
  obtain ⟨added, hlist, hids⟩ := discoveryRound_list hmgr trees
  rw [XmCgroupObjsMgr.ids, hlist, List.map_append, hids, List.map_map, XmCgroupObjsMgr.ids,
    List.filter_map]
  rfl

/-- The sweep counts what it leaves. -/
theorem count_discoveryRound :
    (discoveryRound ctx mgr trees).currCgroupCount =
      (discoveryRound ctx mgr trees).cgDiscoveryList.length := by
  obtain ⟨added, hwalk⟩ := walked_cgroupsDiscovery hmgr.distinct trees
  have hcount : (cgroupsDiscovery ctx mgr trees).currCgroupCount =
      (cgroupsDiscovery ctx mgr trees).cgDiscoveryList.length := by
    rw [hwalk.count, hwalk.list, hmgr.count, List.length_append, marked, List.length_map]
    omega
  show (cgroupsDiscovery ctx mgr trees).currCgroupCount - _ =
    (((cgroupsDiscovery ctx mgr trees).cgDiscoveryList.filter _).length : Int)
  have hsplit := List.length_eq_countP_add_countP (fun obj : XmCgroupObj => obj.findFlag)
    (l := (cgroupsDiscovery ctx mgr trees).cgDiscoveryList)
  rw [hcount, ← List.countP_eq_length_filter]
  simp only [Bool.not_eq_true, Bool.decide_eq_false] at hsplit
  omega

/-- A round keeps the invariant. -/
theorem invariant_discoveryRound : (discoveryRound ctx mgr trees).Invariant ctx where
  distinct := by
    rw [ids_discoveryRound hmgr trees]
    have hkept : (mgr.ids.filter fun id => id ∈ trees.visited ctx).Nodup :=
      hmgr.distinct.filter _
    exact nodup_append_take_firstSeen hkept
      (fun id hid hnew => hnew.2 (List.mem_filter.mp hid).1) _ _
  matching := by
    intro id hid
    rw [ids_discoveryRound hmgr trees, List.mem_append] at hid
    obtain hold | hnew := hid
    · exact hmgr.matching id (List.mem_filter.mp hold).1
    · exact (mem_firstSeen.mp (List.mem_of_mem_take hnew)).2.1
  count := count_discoveryRound hmgr trees

theorem same_discoveryRound {obj : XmCgroupObj} (hobj : obj ∈ mgr.cgDiscoveryList)
    (hvisited : obj.cgId ∈ trees.visited ctx) :
    ∃ obj' ∈ (discoveryRound ctx mgr trees).cgDiscoveryList,
      obj'.cgId = obj.cgId ∧ obj'.address = obj.address := by
  obtain ⟨added, hlist, -⟩ := discoveryRound_list hmgr trees
  refine ⟨{ obj with findFlag := true }, ?_, rfl, rfl⟩
  rw [hlist]
  apply List.mem_append_left
  apply List.mem_map_of_mem
  exact List.mem_filter.mpr ⟨hobj, by simpa using hvisited⟩

/-- What a round finds is listed already or new. -/
theorem found_perm :
    (trees.found ctx).Perm ((mgr.ids.filter fun id => id ∈ trees.visited ctx) ++
      newIds ctx mgr (trees.visited ctx)) :=
  firstSeen_perm hmgr.distinct hmgr.matching (fun _ => Iff.rfl) _

/-- The list is complete when the room is enough for the new ids, and not otherwise. -/
theorem complete_discoveryRound_iff :
    (∀ id, id ∈ (discoveryRound ctx mgr trees).ids ↔ id ∈ trees.found ctx) ↔
      (newIds ctx mgr (trees.visited ctx)).length ≤ room ctx mgr := by
  rw [ids_discoveryRound hmgr trees]
  simp only [(found_perm hmgr trees).mem_iff]
  constructor
  · intro h
    have hnodup := (found_perm hmgr trees).nodup_iff.mp (nodup_firstSeen _)
    have hlen := (List.subperm_of_subset hnodup fun id hid => (h id).mpr hid).length_le
    rw [List.length_append, List.length_append, List.length_take] at hlen
    omega
  · intro hle id
    rw [List.take_of_length_le hle]

theorem length_discoveryRound :
    (discoveryRound ctx mgr trees).cgDiscoveryList.length =
      (mgr.ids.filter fun id => id ∈ trees.visited ctx).length +
        min (room ctx mgr) (newIds ctx mgr (trees.visited ctx)).length := by
  have hids := congrArg List.length (ids_discoveryRound hmgr trees)
  rw [XmCgroupObjsMgr.ids, List.length_map, List.length_append, List.length_take] at hids
  exact hids

theorem length_found :
    (trees.found ctx).length = (mgr.ids.filter fun id => id ∈ trees.visited ctx).length +
      (newIds ctx mgr (trees.visited ctx)).length := by
  rw [(found_perm hmgr trees).length_eq, List.length_append]

omit hmgr in
/-- Something has disappeared if not all ids are kept. -/
theorem kept_lt_iff :
    (mgr.ids.filter fun id => id ∈ trees.visited ctx).length < mgr.cgDiscoveryList.length ↔
      ∃ obj ∈ mgr.cgDiscoveryList, obj.cgId ∉ trees.visited ctx := by
  rw [← List.length_map XmCgroupObj.cgId, ← XmCgroupObjsMgr.ids,
    List.length_filter_lt_length_iff_exists, XmCgroupObjsMgr.ids]
  simp only [List.mem_map, decide_eq_true_eq]
  constructor
  · rintro ⟨-, ⟨obj, hobj, rfl⟩, hgone⟩
    exact ⟨obj, hobj, hgone⟩
  · rintro ⟨obj, hobj, hgone⟩
    exact ⟨obj.cgId, ⟨obj, hobj, rfl⟩, hgone⟩

/-- A round leaves the lists consistent if and only if there is room for it. -/
theorem consistent_discoveryRound_iff
    (hlimit : 0 ≤ ctx.maxCgroupsNum → mgr.cgDiscoveryList.length ≤ ctx.maxCgroupsNum) :
    Consistent ctx trees mgr (discoveryRound ctx mgr trees) ↔ HasRoom ctx mgr trees := by
  have hafter := length_discoveryRound hmgr trees
  have hcount := count_discoveryRound hmgr trees
  have hfound := length_found hmgr trees
  have hcomplete := complete_discoveryRound_iff hmgr trees
  have hgone : (mgr.ids.filter fun id => id ∈ trees.visited ctx).length <
      mgr.cgDiscoveryList.length ↔ _ := kept_lt_iff trees
  have hroom : room ctx mgr = (ctx.maxCgroupsNum + 1 - mgr.cgDiscoveryList.length).toNat := by
    rw [room, hmgr.count]
  constructor
  · intro h
    have hmax := h.limit
    refine ⟨by omega, ?_⟩
    split
    · rename_i hfew
      have hspace := hcomplete.mp (h.complete hfew)
      omega
    · rename_i hmany
      apply hgone.mp
      omega
  · rintro ⟨hmax, hspace⟩
    have hle := hlimit hmax
    refine ⟨(invariant_discoveryRound hmgr trees).distinct, ?_,
      fun obj hobj => same_discoveryRound hmgr trees hobj, rfl, hcount, ?_⟩
    · intro hfew
      rw [if_pos hfew] at hspace
      apply hcomplete.mpr
      omega
    · split at hspace
      · omega
      · have hlt := hgone.mpr hspace
        omega

end Sweep

/-! ## All rounds -/

/-- From the empty manager on, the lists are consistent after every round if and only if
there is room for every round. -/
theorem consistent_iff_hasRoom (ctx : PluginCgroupsCtx) (rounds : List Trees) :
    EventRun.AllSteps (discoveryRound ctx)
        (fun mgr trees => Consistent ctx trees mgr (discoveryRound ctx mgr trees)) {} rounds ↔
      EventRun.AllSteps (discoveryRound ctx) (HasRoom ctx) {} rounds := by
  let I : XmCgroupObjsMgr → Prop := fun mgr => mgr.Invariant ctx ∧
    (0 ≤ ctx.maxCgroupsNum → mgr.cgDiscoveryList.length ≤ ctx.maxCgroupsNum)
  have keep : ∀ mgr trees, I mgr →
      Consistent ctx trees mgr (discoveryRound ctx mgr trees) →
      I (discoveryRound ctx mgr trees) := by
    rintro mgr trees ⟨hmgr, -⟩ hconsistent
    refine ⟨invariant_discoveryRound hmgr trees, fun _ => ?_⟩
    rw [← hconsistent.count]
    exact hconsistent.limit
  have hempty : I {} := ⟨⟨List.nodup_nil, by simp [XmCgroupObjsMgr.ids], rfl⟩, by simp⟩
  apply EventRun.allSteps_congr (I := I) keep _ hempty
  intro mgr trees hI
  exact consistent_discoveryRound_iff hI.1 trees hI.2

/-- With a maximum of one, the root and its subdirectory are both listed. -/
theorem one_more_than_maximum : ¬∀ (ctx : PluginCgroupsCtx) (rounds : List Trees),
    EventRun.AllSteps (discoveryRound ctx)
      (fun mgr trees => Consistent ctx trees mgr (discoveryRound ctx mgr trees)) {} rounds := by
  intro h
  let ctx : PluginCgroupsCtx := ⟨1, .v2, fun _ => false, fun _ => true, fun _ => true⟩
  let trees : Trees := ⟨fun _ => .mk false [], .mk true [("a", .mk true [])]⟩
  have hvisited : trees.visited ctx = ["/", "/a"] := by decide
  have hcount : (discoveryRound ctx {} trees).currCgroupCount = 2 := by
    rw [discoveryRound, cgroupsDiscovery, hvisited]
    decide
  have hlimit := (h ctx [trees]).1.limit
  rw [hcount] at hlimit
  exact absurd hlimit (by decide)

end XMonitor.Cgroups
