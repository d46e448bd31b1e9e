import Mathlib.Data.List.Nodup
import Mathlib.Data.List.TakeWhile
import XMonitor.Utils.Strings

/-!
# The list of network devices

The collector keeps a node for every device of `/proc/net/dev` in a linked list. A search
begins at a cursor, which stands behind the node that was found last, and goes on at the
root of the list. A device that is not found gets a new node at the end.

At the end of a round the sweep frees the nodes that the round did not update and clears
the flags of the others. It counts the nodes that it keeps, but freeing a node decrements
the same counter, and the sweep is left out where the counter is zero: `__net_dev_found`,
with which the counter is compared, never changes.
-/

namespace XMonitor.Net

/-- `struct net_dev_metric`, known by an address. The hash is a function of the name and
left out. -/
structure NetDevMetric where
  address : Nat
  devName : CString
  updated : Bool
deriving DecidableEq

/-- The static variables: the list from `__net_dev_metric_root` on, the cursor
`__net_dev_metric_last_used` and the two counters. -/
structure NetDevMetrics where
  nodes : List NetDevMetric := []
  lastUsed : Option Nat := none
  added : UInt32 := 0
  found : UInt32 := 0
  nextAddress : Nat := 0

def XM_DEV_NAME_MAX : Nat := 128

/-- What `strlcpy` leaves in a buffer of the given size. -/
def strlcpy (src : CString) (size : Nat) : CString := src.take (size - 1)

/-- The name of the device of a line, with the colon cut off. -/
def lineDevName (line : List CString) : CString :=
  let devName := lineword line 0
  if devName.getLast? = some ':' then devName.dropLast else devName

/-- A file whose device names fit into a node; those of the kernel are shorter than
sixteen characters. -/
structure NetDevFile where
  lines : ProcFile
  names_fit : ∀ line ∈ lines.drop 2, (lineDevName line).length < XM_DEV_NAME_MAX

/-! ## The search -/

/-- A search loop, from the first node of the list up to a pointer: the node with the name
and the pointer to the node behind it. -/
def searchLoop (devName : CString) (stop : Option Nat) :
    List NetDevMetric → Option (Nat × Option Nat)
  | [] => none
  | m :: ms =>
      if some m.address = stop then none
      else if m.devName = devName then some (m.address, ms.head?.map NetDevMetric.address)
      else searchLoop devName stop ms

/-- The list from a pointer on, which is empty for the null pointer. -/
def nodesFrom (pointer : Option Nat) (nodes : List NetDevMetric) : List NetDevMetric :=
  nodes.dropWhile fun m => some m.address ≠ pointer

/-- The node at the end of the list that a new device gets. -/
def insertNetDevMetric (s : NetDevMetrics) (devName : CString) : NetDevMetrics :=
  { s with
    nodes := s.nodes ++ [⟨s.nextAddress, strlcpy devName XM_DEV_NAME_MAX, false⟩]
    added := s.added + 1
    nextAddress := s.nextAddress + 1 }

/-- `__get_net_dev_metric`. -/
def getNetDevMetric (s : NetDevMetrics) (devName : CString) : Nat × NetDevMetrics :=
  match searchLoop devName none (nodesFrom s.lastUsed s.nodes) with
  | some (address, next) => (address, { s with lastUsed := next })
  | none =>
      match searchLoop devName s.lastUsed s.nodes with
      | some (address, next) => (address, { s with lastUsed := next })
      | none => (s.nextAddress, insertNetDevMetric s devName)

/-! ## The round -/

/-- `d->updated = 1`. -/
def setUpdated (address : Nat) (nodes : List NetDevMetric) : List NetDevMetric :=
  nodes.map fun m => if m.address = address then { m with updated := true } else m

/-- Look a device up and update its node. -/
def updateNetDev (s : NetDevMetrics) (devName : CString) : NetDevMetrics :=
  let (address, s) := getNetDevMetric s devName
  { s with nodes := setUpdated address s.nodes }

/-- The body of the loop over the lines. -/
def netDevLine (s : NetDevMetrics) (line : List CString) : NetDevMetrics :=
  if line.length < 17 then s else updateNetDev s (lineDevName line)

/-- The loop of `__cleanup_net_dev_metric`, with the node kept last, the cursor and the
counter; it decrements the counter in `__free_net_dev_metric`. -/
def cleanupLoop (last lastUsed : Option Nat) (added : UInt32) :
    List NetDevMetric → List NetDevMetric × Option Nat × UInt32
  | [] => ([], lastUsed, added)
  | d :: ds =>
      if d.updated then
        let (nodes, lastUsed, added) := cleanupLoop (some d.address) lastUsed (added + 1) ds
        ({ d with updated := false } :: nodes, lastUsed, added)
      else
        cleanupLoop last (if lastUsed = some d.address then last else lastUsed) (added - 1) ds

/-- `__cleanup_net_dev_metric`. -/
def cleanupNetDevMetric (s : NetDevMetrics) : NetDevMetrics :=
  if s.added = s.found then s
  else
    let (nodes, lastUsed, added) := cleanupLoop none s.lastUsed 0 s.nodes
    { s with nodes, lastUsed, added }

/-- `collector_proc_net_dev`, for a file that can be read. -/
def collectorProcNetDev (s : NetDevMetrics) (file : NetDevFile) : NetDevMetrics :=
  cleanupNetDevMetric ((file.lines.drop 2).foldl netDevLine s)

/-! ## The invariant -/

def NetDevMetrics.names (s : NetDevMetrics) : List CString :=
  s.nodes.map NetDevMetric.devName

def NetDevMetrics.addresses (s : NetDevMetrics) : List Nat :=
  s.nodes.map NetDevMetric.address

/-- A pointer is null or points to a node of the list. -/
def NetDevMetrics.Valid (s : NetDevMetrics) (pointer : Option Nat) : Prop :=
  ∀ address, pointer = some address → address ∈ s.addresses

structure NetDevMetrics.Invariant (s : NetDevMetrics) : Prop where
  names : s.names.Nodup
  addresses : s.addresses.Nodup
  fresh : ∀ address ∈ s.addresses, address < s.nextAddress
  cursor : s.Valid s.lastUsed
  found : s.found = 0

theorem invariant_empty : NetDevMetrics.Invariant {} where
  names := List.nodup_nil
  addresses := List.nodup_nil
  fresh := fun _ h => absurd h List.not_mem_nil
  cursor := fun _ h => nomatch h
  found := rfl

/-! ## What the search finds -/

theorem searchLoop_eq_some {devName : CString} {stop : Option Nat} {nodes : List NetDevMetric}
    {address : Nat} {next : Option Nat}
    (h : searchLoop devName stop nodes = some (address, next)) :
    (∃ m ∈ nodes, m.devName = devName ∧ m.address = address) ∧
      ∀ address', next = some address' → address' ∈ nodes.map NetDevMetric.address := by
  induction nodes with
  | nil => exact nomatch h
  | cons m ms ih =>
      rw [searchLoop] at h
      split at h
      · exact nomatch h
      · split at h
        · rename_i hname
          obtain ⟨rfl, rfl⟩ := Prod.mk.inj (Option.some.inj h)
          refine ⟨⟨m, List.mem_cons_self, hname, rfl⟩, fun address' hnext => ?_⟩
          obtain ⟨m', hm', rfl⟩ := Option.map_eq_some_iff.mp hnext
          rw [List.map_cons]
          apply List.mem_cons_of_mem
          exact List.mem_map_of_mem (List.mem_of_mem_head? hm')
        · obtain ⟨⟨m', hm', hfound⟩, hnext⟩ := ih h
          refine ⟨⟨m', List.mem_cons_of_mem m hm', hfound⟩, fun address' haddress => ?_⟩
          exact List.mem_cons_of_mem _ (hnext address' haddress)

theorem searchLoop_eq_none {devName : CString} {stop : Option Nat} {nodes : List NetDevMetric}
    (h : searchLoop devName stop nodes = none) :
    ∀ m ∈ nodes.takeWhile fun m => some m.address ≠ stop, m.devName ≠ devName := by
  induction nodes with
  | nil => exact fun _ hm => absurd hm List.not_mem_nil
  | cons m ms ih =>
      rw [searchLoop] at h
      rw [List.takeWhile_cons]
      split at h
      · rename_i hstop
        simp [hstop]
      · rename_i hstop
        split at h
        · exact nomatch h
        · rename_i hname
          simp only [ne_eq, hstop, not_false_eq_true, decide_true, if_true, List.forall_mem_cons]
          exact ⟨hname, ih h⟩

section Lookup

variable {s : NetDevMetrics} {devName : CString}

/-- What a lookup can do: it finds a node and moves the cursor, or inserts a node for a
device that has none. -/
theorem getNetDevMetric_cases (s : NetDevMetrics) (devName : CString) :
    (∃ m ∈ s.nodes, ∃ next, m.devName = devName ∧ s.Valid next ∧
      getNetDevMetric s devName = (m.address, { s with lastUsed := next })) ∨
    (devName ∉ s.names ∧
      getNetDevMetric s devName = (s.nextAddress, insertNetDevMetric s devName)) := by
  have hsub : (nodesFrom s.lastUsed s.nodes).Sublist s.nodes := List.dropWhile_sublist _
  cases hrest : searchLoop devName none (nodesFrom s.lastUsed s.nodes) with
  | some hit =>
      obtain ⟨⟨m, hm, hname, haddress⟩, hnext⟩ := searchLoop_eq_some hrest
      refine .inl ⟨m, hsub.subset hm, hit.2, hname, ?_, ?_⟩
      · intro address h
        exact (hsub.map _).subset (hnext address h)
      · rw [getNetDevMetric, hrest, haddress]
  | none =>
      cases hroot : searchLoop devName s.lastUsed s.nodes with
      | some hit =>
          obtain ⟨⟨m, hm, hname, haddress⟩, hnext⟩ := searchLoop_eq_some hroot
          refine .inl ⟨m, hm, hit.2, hname, hnext, ?_⟩
          rw [getNetDevMetric, hrest, hroot, haddress]
      | none =>
          refine .inr ⟨?_, by rw [getNetDevMetric, hrest, hroot]⟩
          intro hmem
          obtain ⟨m, hm, hname⟩ := List.mem_map.mp hmem
          have hbefore := searchLoop_eq_none hroot
          have hbehind := searchLoop_eq_none hrest
          rw [List.takeWhile_eq_self_iff.mpr (by simp)] at hbehind
          rw [← List.takeWhile_append_dropWhile (p := fun m => some m.address ≠ s.lastUsed)
            (l := s.nodes), List.mem_append] at hm
          obtain hm | hm := hm
          · exact hbefore m hm hname
          · exact hbehind m hm hname

/-- Wherever the cursor stands, a device that has a node is found. -/
theorem getNetDevMetric_of_mem (hs : s.Invariant) {m : NetDevMetric} (hm : m ∈ s.nodes)
    (pointer : Option Nat) :
    ∃ next, s.Valid next ∧ getNetDevMetric { s with lastUsed := pointer } m.devName =
      (m.address, { s with lastUsed := next }) := by
  obtain ⟨m', hm', next, hname, hnext, hget⟩ | ⟨hnew, -⟩ :=
    getNetDevMetric_cases { s with lastUsed := pointer } m.devName
  · obtain rfl := List.inj_on_of_nodup_map hs.names hm' hm hname
    exact ⟨next, hnext, hget⟩
  · exact absurd (List.mem_map_of_mem hm) hnew

end Lookup

/-! ## A line -/

/-- What matters of a node for the sweep. -/
def NetDevMetric.view (m : NetDevMetric) : CString × Bool := (m.devName, m.updated)

section Update

variable {s : NetDevMetrics} {devName : CString}

/-- Updating a node by its address updates the device that has it. -/
theorem setUpdated_address {m : NetDevMetric} (hs : s.Invariant) (hm : m ∈ s.nodes) :
    setUpdated m.address s.nodes =
      s.nodes.map fun m' => if m'.devName = m.devName then { m' with updated := true } else m' := by
  refine List.map_congr_left fun m' hm' => if_congr ⟨fun h => ?_, fun h => ?_⟩ rfl rfl
  · rw [List.inj_on_of_nodup_map hs.addresses hm' hm h]
  · rw [List.inj_on_of_nodup_map hs.names hm' hm h]

/-- Updating flags changes neither names nor addresses. -/
theorem NetDevMetrics.Invariant.flags (hs : s.Invariant) {next : Option Nat} (hnext : s.Valid next)
    (address : Nat) :
    NetDevMetrics.Invariant { s with nodes := setUpdated address s.nodes, lastUsed := next } := by
  have hnames : (setUpdated address s.nodes).map NetDevMetric.devName = s.names := by
    rw [setUpdated, List.map_map]
    refine List.map_congr_left fun m _ => ?_
    rw [Function.comp_apply]
    split <;> rfl
  have haddresses : (setUpdated address s.nodes).map NetDevMetric.address = s.addresses := by
    rw [setUpdated, List.map_map]
    refine List.map_congr_left fun m _ => ?_
    rw [Function.comp_apply]
    split <;> rfl
  refine ⟨?_, ?_, ?_, ?_, hs.found⟩
  · rw [NetDevMetrics.names, hnames]
    exact hs.names
  · rw [NetDevMetrics.addresses, haddresses]
    exact hs.addresses
  · rw [NetDevMetrics.addresses, haddresses]
    exact hs.fresh
  · intro address' h
    rw [NetDevMetrics.addresses, haddresses]
    exact hnext address' h

theorem NetDevMetrics.Invariant.inserted (hs : s.Invariant) (hnew : devName ∉ s.names)
    (hfit : devName.length < XM_DEV_NAME_MAX) :
    (insertNetDevMetric s devName).Invariant := by
  have hcopy : strlcpy devName XM_DEV_NAME_MAX = devName :=
    List.take_of_length_le (Nat.le_sub_one_of_lt hfit)
  have hnames : (insertNetDevMetric s devName).names = s.names ++ [devName] := by
    rw [insertNetDevMetric, hcopy, NetDevMetrics.names, List.map_append]
    rfl
  have haddresses :
      (insertNetDevMetric s devName).addresses = s.addresses ++ [s.nextAddress] := by
    rw [insertNetDevMetric, NetDevMetrics.addresses, List.map_append]
    rfl
  have hbelow : s.nextAddress ∉ s.addresses := fun h => Nat.lt_irrefl _ (hs.fresh _ h)
  refine ⟨?_, ?_, ?_, ?_, hs.found⟩
  · rw [hnames]
    exact List.concat_eq_append ▸ hs.names.concat hnew
  · rw [haddresses]
    exact List.concat_eq_append ▸ hs.addresses.concat hbelow
  · rw [haddresses]
    intro address h
    show address < s.nextAddress + 1
    obtain h | h := List.mem_append.mp h
    · exact Nat.lt_succ_of_lt (hs.fresh address h)
    · rw [List.mem_singleton.mp h]
      exact Nat.lt_succ_self _
  · intro address h
    rw [haddresses]
    exact List.mem_append_left _ (hs.cursor address h)

/-- A device that has a node is updated in place. -/
theorem updateNetDev_of_mem (hs : s.Invariant) (hmem : devName ∈ s.names) :
    (updateNetDev s devName).Invariant ∧ (updateNetDev s devName).added = s.added ∧
      (updateNetDev s devName).nodes = s.nodes.map fun m =>
        if m.devName = devName then { m with updated := true } else m := by
  obtain ⟨m, hm, rfl⟩ := List.mem_map.mp hmem
  obtain ⟨next, hnext, hget⟩ := getNetDevMetric_of_mem hs hm s.lastUsed
  rw [updateNetDev, hget]
  refine ⟨hs.flags hnext m.address, rfl, ?_⟩
  show setUpdated m.address s.nodes = _
  exact setUpdated_address hs hm

/-- A device that has no node gets an updated one. -/
theorem updateNetDev_of_notMem (hs : s.Invariant) (hnew : devName ∉ s.names)
    (hfit : devName.length < XM_DEV_NAME_MAX) :
    (updateNetDev s devName).Invariant ∧ (updateNetDev s devName).added = s.added + 1 ∧
      (updateNetDev s devName).nodes = s.nodes ++ [⟨s.nextAddress, devName, true⟩] := by
  have hcopy : strlcpy devName XM_DEV_NAME_MAX = devName :=
    List.take_of_length_le (Nat.le_sub_one_of_lt hfit)
  have hinserted := hs.inserted hnew hfit
  obtain ⟨m, hm, -, hname, -⟩ | ⟨-, hget⟩ := getNetDevMetric_cases s devName
  · exact absurd (hname ▸ List.mem_map_of_mem hm) hnew
  · rw [updateNetDev, hget]
    refine ⟨hinserted.flags hinserted.cursor s.nextAddress, rfl, ?_⟩
    have hother : ∀ m ∈ s.nodes,
        (if m.address = s.nextAddress then { m with updated := true } else m) = m := by
      intro m hm
      refine if_neg fun h => ?_
      exact Nat.lt_irrefl _ (h ▸ hs.fresh m.address (List.mem_map_of_mem hm))
    show setUpdated s.nextAddress (s.nodes ++ [⟨s.nextAddress, _, false⟩]) = _
    rw [setUpdated, List.map_append, List.map_congr_left hother, List.map_id', hcopy,
      List.map_singleton, if_pos rfl]

end Update

end XMonitor.Net
